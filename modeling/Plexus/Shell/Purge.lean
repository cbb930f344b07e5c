import Plexus.Shell.ChainTraversal

/-! Pruning and deletion of old blocks (`state.ml`): in the mode `Full` the
blocks below the checkpoint keep their header and operations, in the mode
`Rolling` only the last of them do. -/

namespace plexus.state

open Ancestry Block_store Nat
open Header (read_opt)

/-- `Invalid_block.remove` -/
def Block_store.remove_invalid (store : Block_store) (hash : Block_hash) : Block_store :=
  { store with invalid_block := fun h => if h = hash then none else store.invalid_block h }

def prune_block (store : Block_store) (block_hash : Block_hash) : Block_store :=
  ((store.update block_hash fun tables => { tables with contents := none }).remove_invalid
    block_hash).update block_hash fun tables => { tables with operations_metadata := fun _ => none }

/-- Keeps the header of a block, and prunes it. -/
def store_header_and_prune_block (store : Block_store) (block_hash : Block_hash) : Block_store :=
  let store :=
    match (store.blocks block_hash).contents with
    | some contents =>
      store.update block_hash fun tables => { tables with pruned_contents := some contents.header }
    | none => store
  prune_block store block_hash

def delete_block (store : Block_store) (block_hash : Block_hash) : Block_store :=
  (prune_block store block_hash).update block_hash fun tables =>
    { tables with
      pruned_contents := none
      operations := fun _ => none
      operation_hashes := fun _ => none
      predecessors := fun _ => none }

def do_prune (store : Block_store) (blocks : List Block_hash) : Block_store :=
  blocks.foldl store_header_and_prune_block store

def do_delete (store : Block_store) (blocks : List Block_hash) : Block_store :=
  blocks.foldl delete_block store

def chunk_size : Nat := 4000

/-- Blocks are treated in chunks of `chunk_size`. -/
def flush_chunk (flush : Block_store → List Block_hash → Block_store) (store : Block_store)
    (n_blocks : Nat) (blocks : List Block_hash) : Block_store × Nat × List Block_hash :=
  if n_blocks ≥ chunk_size then (flush store blocks, 0, []) else (store, n_blocks, blocks)

section Loops

variable [Chain_env]

def purge_loop_full.loop (fuel : Nat) (store : Block_store) (caboose_level : Int)
    (block_hash : Block_hash) (n_blocks : Nat) (blocks : List Block_hash) :
    Tzresult Block_store :=
  match fuel with
  | 0 => .div
  | fuel + 1 => do
    let (store, n_blocks, blocks) := flush_chunk do_prune store n_blocks blocks
    let header ← unopt_assert (read_opt store block_hash)
    if block_hash = Chain_env.genesis.block then return do_prune store blocks
    else if (header.shell.level : Int) = caboose_level then
      return do_prune store (block_hash :: blocks)
    else
      loop fuel store caboose_level header.shell.predecessor (n_blocks + 1) (block_hash :: blocks)

def purge_loop_full (fuel : Nat) (store : Block_store) (block_hash : Block_hash)
    (caboose_level : Int) : Tzresult Block_store := do
  let header ← unopt_assert (read_opt store block_hash)
  purge_loop_full.loop fuel store caboose_level header.shell.predecessor 0 []

def purge_full (fuel : Nat) (chain_state : Chain_state) (checkpoint : Int × Block_hash) :
    Tzresult Chain_state := do
  let block_store ← purge_loop_full fuel chain_state.block_store checkpoint.2
    chain_state.data.save_point.1
  return { chain_state with
    block_store, data := { chain_state.data with save_point := checkpoint } }

def delete_loop (fuel : Nat) (store : Block_store) (block_hash : Block_hash) (n_blocks : Nat)
    (blocks : List Block_hash) : Tzresult Block_store :=
  match fuel with
  | 0 => .div
  | fuel + 1 =>
    let (store, n_blocks, blocks) := flush_chunk do_delete store n_blocks blocks
    match read_opt store block_hash with
    | none => .ok (do_delete store blocks)
    | some header =>
      if Chain_env.genesis.block = block_hash then .ok (do_delete store blocks)
      else
        delete_loop fuel store header.shell.predecessor (n_blocks + 1) (block_hash :: blocks)

def prune_loop (fuel : Nat) (store : Block_store) (block_hash : Block_hash) (limit : Nat) :
    Tzresult (Block_hash × Block_store) :=
  match fuel with
  | 0 => .div
  | fuel + 1 =>
    if Chain_env.genesis.block = block_hash then .ok (block_hash, store)
    else if limit = 1 then
      match read_opt store block_hash with
      | none => .raise .Assert_failure
      | some header => do
        let store := store_header_and_prune_block store block_hash
        let store ← delete_loop fuel store header.shell.predecessor 0 []
        return (block_hash, store)
    else
      match read_opt store block_hash with
      | none => .raise .Assert_failure
      | some header =>
        prune_loop fuel (store_header_and_prune_block store block_hash) header.shell.predecessor
          (limit - 1)

/-- Prunes the `limit` blocks below a block and deletes the ones below these.
The lowest block that is kept is returned. -/
def purge_loop_rolling (fuel : Nat) (store : Block_store) (block_hash : Block_hash)
    (limit : Nat) : Tzresult (Block_hash × Block_store) := do
  let header ← unopt_assert (read_opt store block_hash)
  if limit = 0 then
    let store ← delete_loop fuel store header.shell.predecessor 0 []
    return (block_hash, store)
  else prune_loop fuel store header.shell.predecessor limit

def purge_rolling (fuel : Nat) (chain_state : Chain_state) (checkpoint : Int × Block_hash) :
    Tzresult Chain_state :=
  match (chain_state.block_store.blocks checkpoint.2).contents with
  | none => .error [.Block_contents_not_found checkpoint.2]
  | some contents => do
    let max_op_ttl := contents.max_operations_ttl
    let (caboose_hash, block_store) ←
      purge_loop_rolling fuel chain_state.block_store checkpoint.2 max_op_ttl
    let caboose_level := checkpoint.1 - max_op_ttl
    return { chain_state with
      block_store
      data := { chain_state.data with
        save_point := checkpoint, caboose := (caboose_level, caboose_hash) } }

end Loops

/-- The tables of a block whose header and operations are kept. -/
def Tables.prune (tables : Tables) : Tables :=
  { tables with
    contents := none
    pruned_contents := tables.header
    operations_metadata := fun _ => none }

/-- The tables of a block nothing is kept of. -/
def Tables.delete (_ : Tables) : Tables := Tables.empty

@[simp] theorem Tables.prune_header (tables : Tables) : tables.prune.header = tables.header := rfl

@[simp] theorem Tables.prune_prune (tables : Tables) : tables.prune.prune = tables.prune := rfl

@[simp] theorem Tables.delete_delete (tables : Tables) : tables.delete.delete = tables.delete := rfl

/-- Some of the blocks have been treated by `f`, and nothing else has changed. -/
structure Treated (f : Tables → Tables) (P : Block_hash → Prop) (store store' : Block_store) :
    Prop where
  changed : ∀ x, P x → store'.blocks x = f (store.blocks x)
  kept : ∀ x, ¬ P x → store'.blocks x = store.blocks x

namespace Treated

variable {f : Tables → Tables} {P Q : Block_hash → Prop} {store store' store'' : Block_store}

theorem refl (f : Tables → Tables) (store : Block_store) : Treated f (fun _ => False) store store :=
  ⟨fun _ h => h.elim, fun _ _ => rfl⟩

theorem congr (h : Treated f P store store') (hiff : ∀ x, Q x ↔ P x) : Treated f Q store store' :=
  ⟨fun x hx => h.changed x ((hiff x).mp hx), fun x hx => h.kept x fun hp => hx ((hiff x).mpr hp)⟩

/-- Treating twice is treating once. -/
theorem trans (hf : ∀ tables, f (f tables) = f tables) (h : Treated f P store store')
    (h' : Treated f Q store' store'') : Treated f (fun x => P x ∨ Q x) store store'' := by
  constructor
  · intro x hx
    by_cases hq : Q x
    · rw [h'.changed x hq]
      by_cases hp : P x
      · rw [h.changed x hp, hf]
      · rw [h.kept x hp]
    · rw [h'.kept x hq, h.changed x (hx.resolve_right hq)]
  · intro x hx
    rw [h'.kept x fun hq => hx (.inr hq), h.kept x fun hp => hx (.inl hp)]

/-- The list of the blocks treated one after the other. -/
theorem foldl (hf : ∀ tables, f (f tables) = f tables) {g : Block_store → Block_hash → Block_store}
    (hg : ∀ store hash, Treated f (· = hash) store (g store hash)) (store : Block_store)
    (l : List Block_hash) : Treated f (· ∈ l) store (l.foldl g store) := by
  induction l generalizing store with
  | nil => exact (refl f store).congr fun x => by simp
  | cons hash l ih =>
    exact ((hg store hash).trans hf (ih (g store hash))).congr fun x => by simp

/-- Blocks without tables count as deleted. -/
theorem extend (h : Treated Tables.delete P store store') (hsub : ∀ x, P x → Q x)
    (hempty : ∀ x, Q x → P x ∨ store.blocks x = Tables.empty) :
    Treated Tables.delete Q store store' := by
  constructor
  · intro x hx
    by_cases hp : P x
    · exact h.changed x hp
    · rw [h.kept x hp, (hempty x hx).resolve_left hp]
      rfl
  · exact fun x hx => h.kept x fun hp => hx (hsub x hp)

/-- Headers that `f` keeps are kept. -/
theorem read_opt_eq (hf : ∀ tables, (f tables).header = tables.header)
    (h : Treated f P store store') : read_opt store' = read_opt store := by
  funext x
  unfold read_opt
  by_cases hx : P x
  · rw [h.changed x hx, hf]
  · rw [h.kept x hx]

/-- A treatment that makes up no headers leaves a part of the tree. -/
theorem part {tree : Block_hash → Option Block_header} (h : Treated f P store store')
    (hf : ∀ tables header, (f tables).header = some header → tables.header = some header)
    (hpart : Part store tree) : Part store' tree := by
  intro x header hx
  apply hpart x header
  unfold read_opt at *
  by_cases hP : P x
  · rw [h.changed x hP] at hx
    exact hf _ header hx
  · rwa [h.kept x hP] at hx

end Treated

section

variable (store : Block_store)

include store

theorem prune_block_blocks (hash x : Block_hash) :
    (prune_block store hash).blocks x =
      if x = hash then
        { store.blocks x with contents := none, operations_metadata := fun _ => none }
      else store.blocks x := by
  unfold prune_block remove_invalid
  rw [update_blocks]
  rw [update_blocks]
  split
  next => rfl
  next => rfl

theorem treated_prune (hash : Block_hash) :
    Treated Tables.prune (· = hash) store (store_header_and_prune_block store hash) := by
  unfold store_header_and_prune_block
  constructor
  · rintro x rfl
    rw [prune_block_blocks, if_pos rfl]
    unfold Tables.prune Tables.header
    cases hcontents : (store.blocks x).contents with
    | none => rfl
    | some contents =>
      rw [update_blocks_self]
  · intro x hx
    rw [prune_block_blocks, if_neg hx]
    split
    next => exact update_blocks_ne hx
    next => rfl

theorem treated_delete (hash : Block_hash) :
    Treated Tables.delete (· = hash) store (delete_block store hash) := by
  unfold delete_block
  constructor
  · rintro x rfl
    rw [update_blocks_self, prune_block_blocks, if_pos rfl]
    rfl
  · intro x hx
    rw [update_blocks_ne hx, prune_block_blocks, if_neg hx]

theorem treated_do_prune (blocks : List Block_hash) :
    Treated Tables.prune (· ∈ blocks) store (do_prune store blocks) :=
  Treated.foldl Tables.prune_prune treated_prune store blocks

theorem treated_do_delete (blocks : List Block_hash) :
    Treated Tables.delete (· ∈ blocks) store (do_delete store blocks) :=
  Treated.foldl Tables.delete_delete treated_delete store blocks

end

/-- A chunk is treated now, or kept for later. -/
theorem flush_chunk_spec {f : Tables → Tables} {flush : Block_store → List Block_hash → Block_store}
    (hflush : ∀ store blocks, Treated f (· ∈ blocks) store (flush store blocks))
    (store : Block_store) (n_blocks : Nat) (blocks : List Block_hash) :
    ∃ (done : List Block_hash) (store' : Block_store) (n_blocks' : Nat) (blocks' : List Block_hash),
      flush_chunk flush store n_blocks blocks = (store', n_blocks', blocks') ∧
      Treated f (· ∈ done) store store' ∧ ∀ x, x ∈ blocks ↔ x ∈ done ∨ x ∈ blocks' := by
  unfold flush_chunk
  split
  next => exact ⟨blocks, _, _, _, rfl, hflush store blocks, fun x => by simp⟩
  next =>
    exact ⟨[], _, _, _, rfl, (Treated.refl f store).congr fun x => by simp, fun x => by simp⟩

section Specs

variable [Chain_env] {tree : Block_hash → Option Block_header} {y : Block_hash} {p : Block_hash}

omit [Chain_env] in
/-- The ancestors of a block are itself and those of its predecessor. -/
theorem ancestor_iff_of_parent {x : Block_hash} (hparent : parent tree y = some p) :
    Ancestor (parent tree) x y ↔ x = y ∨ Ancestor (parent tree) x p := by
  constructor
  · intro hx
    by_cases heq : x = y
    · exact .inl heq
    · exact .inr (hx.to_parent heq hparent)
  · rintro (rfl | hx)
    · exact .refl x
    · exact hx.up hparent

variable {blocks blocks1 : List Block_hash}

omit [Chain_env] in
/-- Going on to the predecessor of `y`, with `y` among the blocks to treat. -/
theorem swept_iff {x : Block_hash} {Q : Block_hash → Prop} {done : List Block_hash}
    (hparent : parent tree y = some p) (hy : Q y)
    (hsplit : ∀ x, x ∈ blocks ↔ x ∈ done ∨ x ∈ blocks1) :
    x ∈ blocks ∨ Ancestor (parent tree) x y ∧ Q x ↔
      x ∈ done ∨ x ∈ y :: blocks1 ∨ Ancestor (parent tree) x p ∧ Q x := by
  rw [hsplit, ancestor_iff_of_parent hparent, List.mem_cons]
  grind

variable {store : Block_store} {store1 : Block_store}

/-- The blocks from `y` down to the level `c` are pruned, the first block
excepted. -/
theorem purge_loop_full.loop_spec (htree : Levelled tree) {c d : Nat} (hd : level_of tree y = c + d)
    (hpart : Part store tree) (hstored : ∀ x, Ancestor (parent tree) x y → c ≤ level_of tree x →
      ∃ header, read_opt store x = some header) (n_blocks : Nat) (blocks : List Block_hash) :
    ∃ store', Result.Yields
        (fun fuel => purge_loop_full.loop fuel store c y n_blocks blocks) (.ok store') ∧
      Treated Tables.prune (fun x => x ∈ blocks ∨
        Ancestor (parent tree) x y ∧ c ≤ level_of tree x ∧ x ≠ Chain_env.genesis.block)
        store store' := by
  induction d generalizing y store n_blocks blocks with
  | zero =>
    obtain ⟨done, store1, n1, blocks1, hchunk, hdone, hsplit⟩ :=
      flush_chunk_spec treated_do_prune store n_blocks blocks
    obtain ⟨header, hheader⟩ := hstored y (.refl y) (by omega)
    have hread : read_opt store1 y = some header := by
      rw [hdone.read_opt_eq Tables.prune_header, hheader]
    have hlevel : ((header.shell.level : Int) = c) := by
      rw [← level_of_eq (hpart y header hheader)]
      omega
    have honly x (hx : Ancestor (parent tree) x y) (hc : c ≤ level_of tree x) : x = y := by
      by_contra hne
      have := htree.level_lt hx hne
      omega
    by_cases hgenesis : y = Chain_env.genesis.block
    · refine ⟨do_prune store1 blocks1, .succ (.of_eq fun fuel => ?_),
        (hdone.trans Tables.prune_prune (treated_do_prune store1 blocks1)).congr fun x => ?_⟩
      · simp only [purge_loop_full.loop, hchunk, hread, if_pos hgenesis]
        rfl
      · rw [hsplit]
        grind
    · refine ⟨do_prune store1 (y :: blocks1), .succ (.of_eq fun fuel => ?_),
        (hdone.trans Tables.prune_prune (treated_do_prune store1 (y :: blocks1))).congr
          fun x => ?_⟩
      · simp only [purge_loop_full.loop, hchunk, hread, if_neg hgenesis]
        exact if_pos hlevel
      · have hself : Ancestor (parent tree) y y ∧ c ≤ level_of tree y := ⟨.refl y, by omega⟩
        rw [hsplit, List.mem_cons]
        grind
  | succ d ih =>
    obtain ⟨done, store1, n1, blocks1, hchunk, hdone, hsplit⟩ :=
      flush_chunk_spec treated_do_prune store n_blocks blocks
    obtain ⟨header, hheader⟩ := hstored y (.refl y) (by omega)
    have hreads := hdone.read_opt_eq Tables.prune_header
    have hread : read_opt store1 y = some header := by rw [hreads, hheader]
    have hmem := hpart y header hheader
    have hlevel : ¬ ((header.shell.level : Int) = c) := by
      rw [← level_of_eq hmem]
      omega
    have hgenesis : y ≠ Chain_env.genesis.block := by
      rintro rfl
      rw [htree.level_genesis] at hd
      omega
    have hparent := htree.parent_eq hmem hgenesis
    have hstep := htree.level_parent _ _ hparent
    obtain ⟨store', hyields, htreated⟩ := ih (y := header.shell.predecessor) (by omega)
      (hdone.part (fun _ _ h => h) hpart)
      (fun x hx hc => by
        rw [hreads]
        exact hstored x (hx.up hparent) hc) (n1 + 1) (y :: blocks1)
    refine ⟨store', .succ (hyields.congr fun fuel => ?_),
      (hdone.trans Tables.prune_prune htreated).congr fun x => ?_⟩
    · simp only [purge_loop_full.loop, hchunk, hread, if_neg hgenesis]
      exact if_neg hlevel
    · have hy : c ≤ level_of tree y ∧ y ≠ Chain_env.genesis.block := ⟨by omega, hgenesis⟩
      exact swept_iff (Q := fun x => c ≤ level_of tree x ∧ x ≠ Chain_env.genesis.block) hparent hy
        hsplit

/-- A full purge prunes the blocks between the old save point, included, and the
checkpoint. -/
theorem purge_full_spec (htree : Levelled tree) {s : Chain_state} {c : Nat} {hash : Block_hash}
    (hsave : s.data.save_point.1 = c) (hlt : c < level_of tree hash)
    (hpart : Part s.block_store tree)
    (hstored : ∀ x, Ancestor (parent tree) x hash → c ≤ level_of tree x →
      ∃ header, read_opt s.block_store x = some header) (lvl : Int) :
    ∃ store', Result.Yields (fun fuel => purge_full fuel s (lvl, hash))
        (.ok { s with
          block_store := store', data := { s.data with save_point := (lvl, hash) } }) ∧
      Treated Tables.prune (fun x => Ancestor (parent tree) x hash ∧ x ≠ hash ∧
        c ≤ level_of tree x ∧ x ≠ Chain_env.genesis.block) s.block_store store' := by
  obtain ⟨header, hheader⟩ := hstored hash (.refl hash) (by omega)
  have hmem := hpart hash header hheader
  have hgenesis : hash ≠ Chain_env.genesis.block := by
    rintro rfl
    rw [htree.level_genesis] at hlt
    omega
  have hparent := htree.parent_eq hmem hgenesis
  have hstep := htree.level_parent _ _ hparent
  obtain ⟨store', hyields, htreated⟩ := purge_loop_full.loop_spec htree
    (d := level_of tree header.shell.predecessor - c) (by omega) hpart
    (fun x hx hc => hstored x (hx.up hparent) hc) 0 []
  have hloop : Result.Yields
      (fun fuel => purge_loop_full fuel s.block_store hash s.data.save_point.1) (.ok store') := by
    refine hyields.congr fun fuel => ?_
    unfold purge_loop_full
    rw [hheader, hsave]
    rfl
  refine ⟨store', hloop.bind (.of_eq fun _ => rfl), htreated.congr fun x => ?_⟩
  simp only [List.not_mem_nil, false_or]
  constructor
  · rintro ⟨hx, hne, hc, hg⟩
    exact ⟨hx.to_parent hne hparent, hc, hg⟩
  · rintro ⟨hx, hc, hg⟩
    refine ⟨hx.up hparent, ?_, hc, hg⟩
    rintro rfl
    exact htree.not_ancestor_of_parent hparent hx

/-- The chain below a block is stored down to some block, and nothing is left
below that one. -/
def Cut_below (tree : Block_hash → Option Block_header) (store : Block_store) (y : Block_hash) :
    Prop :=
  ∀ x, Ancestor (parent tree) x y → x ≠ Chain_env.genesis.block →
    (∃ header, read_opt store x = some header) ∨
      ∀ z, Ancestor (parent tree) z x → z ≠ Chain_env.genesis.block →
        store.blocks z = Tables.empty

variable {store' : Block_store}

/-- It does not depend on the blocks above. -/
theorem Cut_below.congr (h : Cut_below tree store y)
    (hsame : ∀ x, Ancestor (parent tree) x y → store'.blocks x = store.blocks x) :
    Cut_below tree store' y := by
  intro x hx hne
  obtain ⟨header, hheader⟩ | hempty := h x hx hne
  · refine .inl ⟨header, ?_⟩
    unfold read_opt at hheader ⊢
    rw [hsame x hx, hheader]
  · refine .inr fun z hz hzne => ?_
    rw [hsame z (hz.trans hx), hempty z hz hzne]

/-- All the blocks from `y` down are deleted, the first block excepted. -/
theorem delete_loop_spec (htree : Levelled tree) (hpart : Part store tree)
    (hcut : Cut_below tree store y) (n_blocks : Nat) (blocks : List Block_hash)
    (habove : ∀ x ∈ blocks, ¬ Ancestor (parent tree) x y) :
    ∃ store', Result.Yields (fun fuel => delete_loop fuel store y n_blocks blocks) (.ok store') ∧
      Treated Tables.delete (fun x => x ∈ blocks ∨
        Ancestor (parent tree) x y ∧ x ≠ Chain_env.genesis.block) store store' := by
  obtain ⟨d, hd⟩ : ∃ d, level_of tree y < d := ⟨_, lt_succ_self _⟩
  induction d generalizing y store n_blocks blocks with
  | zero => omega
  | succ d ih =>
    obtain ⟨_, store1, n1, blocks1, hchunk, hdone, hsplit⟩ :=
      flush_chunk_spec treated_do_delete store n_blocks blocks
    have hall : Treated Tables.delete (· ∈ blocks) store (do_delete store1 blocks1) :=
      (hdone.trans Tables.delete_delete (treated_do_delete store1 blocks1)).congr hsplit
    have hsame x (hx : Ancestor (parent tree) x y) : store1.blocks x = store.blocks x := by
      exact hdone.kept x fun hmem => habove x ((hsplit x).mpr (.inl hmem)) hx
    have hread : read_opt store1 y = read_opt store y := by
      unfold read_opt
      rw [hsame y (.refl y)]
    cases hheader : read_opt store y with
    | none =>
      refine ⟨_, .succ (.of_eq fun fuel => by simp only [delete_loop, hchunk, hread, hheader]),
        hall.extend (fun x hx => .inl hx) ?_⟩
      rintro x (hx | ⟨hx, hne⟩)
      · exact .inl hx
      · right
        by_cases hgenesis : y = Chain_env.genesis.block
        · rw [hgenesis] at hx
          exact absurd (hx.eq_of_parent_eq_none htree.parent_genesis) hne
        · obtain ⟨header, hsome⟩ | hempty := hcut y (.refl y) hgenesis
          · rw [hheader] at hsome
            cases hsome
          · exact hempty x hx hne
    | some header =>
      by_cases hgenesis : Chain_env.genesis.block = y
      · refine ⟨_, .succ (.of_eq fun fuel => by
            simp only [delete_loop, hchunk, hread, hheader, if_pos hgenesis]),
          hall.congr fun x => ?_⟩
        constructor
        · rintro (hx | ⟨hx, hne⟩)
          · exact hx
          · rw [← hgenesis] at hx
            exact absurd (hx.eq_of_parent_eq_none htree.parent_genesis) hne
        · exact fun hx => .inl hx
      · have hmem := hpart y header hheader
        have hparent := htree.parent_eq hmem (Ne.symm hgenesis)
        have hstep := htree.level_parent _ _ hparent
        have hcut1 : Cut_below tree store1 header.shell.predecessor := by
          have hcut' : Cut_below tree store header.shell.predecessor :=
            fun x hx => hcut x (hx.up hparent)
          exact hcut'.congr fun x hx => hsame x (hx.up hparent)
        have habove1 x (hx : x ∈ y :: blocks1) : ¬ Ancestor (parent tree) x
            header.shell.predecessor := by
          cases hx with
          | head => exact htree.not_ancestor_of_parent hparent
          | tail _ hx =>
            exact fun hanc => habove x ((hsplit x).mpr (.inr hx)) (hanc.up hparent)
        obtain ⟨store', hyields, htreated⟩ := ih (hdone.part (fun _ _ h => by cases h) hpart) hcut1
          (n1 + 1) (y :: blocks1) habove1 (by omega)
        refine ⟨store', .succ (hyields.congr fun fuel => by
            simp only [delete_loop, hchunk, hread, hheader, if_neg hgenesis]),
          (hdone.trans Tables.delete_delete htreated).congr fun x => ?_⟩
        exact swept_iff (Q := fun x => x ≠ Chain_env.genesis.block) hparent (Ne.symm hgenesis) hsplit

/-- The blocks of the window are pruned and the ones below it deleted. -/
structure Rolled (tree : Block_hash → Option Block_header) (y : Block_hash) (limit : Nat)
    (store store' : Block_store) : Prop where
  window : ∀ x, Ancestor (parent tree) x y → x ≠ Chain_env.genesis.block →
    level_of tree y < level_of tree x + limit → store'.blocks x = (store.blocks x).prune
  below : ∀ x, Ancestor (parent tree) x y → x ≠ Chain_env.genesis.block →
    level_of tree x + limit ≤ level_of tree y → store'.blocks x = Tables.empty
  kept : ∀ x, ¬ Ancestor (parent tree) x y ∨ x = Chain_env.genesis.block →
    store'.blocks x = store.blocks x

/-- An empty window. -/
theorem Treated.rolled (htree : Levelled tree) (h : Treated Tables.delete
      (fun x => x ∈ [] ∨ Ancestor (parent tree) x y ∧ x ≠ Chain_env.genesis.block) store store') :
    Rolled tree y 0 store store' := by
  refine ⟨fun x hx _ hlevel => ?_, fun x hx hne _ => h.changed x (.inr ⟨hx, hne⟩),
    fun x hx => h.kept x ?_⟩
  · have := htree.level_le hx
    omega
  · rintro (hnil | ⟨hanc, hne⟩)
    · cases hnil
    · exact hx.elim (fun hnot => hnot hanc) hne

/-- A window with one more block on top. -/
theorem Rolled.step (htree : Levelled tree) {limit : Nat} (hparent : parent tree y = some p)
    (hgenesis : y ≠ Chain_env.genesis.block) (hprune : Treated Tables.prune (· = y) store store1)
    (h : Rolled tree p limit store1 store') : Rolled tree y (limit + 1) store store' := by
  have hstep := htree.level_parent _ _ hparent
  have hself := htree.not_ancestor_of_parent hparent
  refine ⟨fun x hx hne hlevel => ?_, fun x hx hne hlevel => ?_, fun x hx => ?_⟩
  · by_cases hxy : x = y
    · rw [hxy, h.kept y (.inl hself), hprune.changed y rfl]
    · rw [h.window x (hx.to_parent hxy hparent) hne (by omega), hprune.kept x hxy]
  · have hxy : x ≠ y := by
      rintro rfl
      omega
    exact h.below x (hx.to_parent hxy hparent) hne (by omega)
  · have hxy : x ≠ y := by
      rintro rfl
      exact hx.elim (fun hnot => hnot (.refl x)) hgenesis
    rw [h.kept x (hx.imp_left fun hnot hanc => hnot (hanc.up hparent)), hprune.kept x hxy]

/-- The `limit` blocks from `y` down are pruned and the ones below deleted. -/
theorem prune_loop_spec (htree : Levelled tree) {limit : Nat} (hpos : 0 < limit)
    (hpart : Part store tree)
    (hstored : ∀ x, Ancestor (parent tree) x y → x ≠ Chain_env.genesis.block →
      level_of tree y < level_of tree x + limit → ∃ header, read_opt store x = some header)
    (hcut : Cut_below tree store y) :
    ∃ caboose store', Result.Yields (fun fuel => prune_loop fuel store y limit)
        (.ok (caboose, store')) ∧
      climb (parent tree) (min (limit - 1) (level_of tree y)) y = some caboose ∧
      Rolled tree y limit store store' := by
  induction limit generalizing y store with
  | zero => omega
  | succ limit ih =>
    by_cases hgenesis : Chain_env.genesis.block = y
    · have honly x (hx : Ancestor (parent tree) x y) : x = Chain_env.genesis.block := by
        rw [← hgenesis] at hx
        exact hx.eq_of_parent_eq_none htree.parent_genesis
      refine ⟨y, store, .succ (.of_eq fun fuel => by rw [prune_loop, if_pos hgenesis]), ?_,
        fun x hx hne _ => absurd (honly x hx) hne, fun x hx hne _ => absurd (honly x hx) hne,
        fun _ _ => rfl⟩
      rw [← hgenesis, htree.level_genesis, min_zero, climb_zero]
    · obtain ⟨header, hheader⟩ := hstored y (.refl y) (Ne.symm hgenesis) (by omega)
      have hparent := htree.parent_eq (hpart y header hheader) (Ne.symm hgenesis)
      have hstep := htree.level_parent _ _ hparent
      have hprune := treated_prune store y
      have hpart1 := hprune.part (fun _ _ h => h) hpart
      have hcut1 : Cut_below tree (store_header_and_prune_block store y)
          header.shell.predecessor := by
        have hcut' : Cut_below tree store header.shell.predecessor :=
          fun x hx => hcut x (hx.up hparent)
        refine hcut'.congr fun x hx => hprune.kept x ?_
        rintro rfl
        exact htree.not_ancestor_of_parent hparent hx
      by_cases hone : limit = 0
      · subst hone
        obtain ⟨store', hyields, htreated⟩ := delete_loop_spec htree hpart1 hcut1 0 []
          (fun x hx => by cases hx)
        refine ⟨y, store', ?_, by rw [Nat.zero_add, Nat.sub_self, Nat.zero_min, climb_zero],
          (htreated.rolled htree).step htree hparent (Ne.symm hgenesis) hprune⟩
        have hround : Result.Yields (fun fuel => do
            let store' ← delete_loop fuel (store_header_and_prune_block store y)
              header.shell.predecessor 0 []
            return (y, store')) (.ok (y, store')) := hyields.bind (.of_eq fun _ => rfl)
        refine .succ (hround.congr fun fuel => ?_)
        rw [prune_loop, if_neg hgenesis, if_pos rfl, hheader]
      · obtain ⟨caboose, store', hyields, hclimb, hrolled⟩ := ih
          (by omega) hpart1
          (fun x hx hne hlevel => by
            rw [hprune.read_opt_eq Tables.prune_header]
            exact hstored x (hx.up hparent) hne (by omega)) hcut1
        refine ⟨caboose, store', .succ (hyields.congr fun fuel => ?_), ?_,
          hrolled.step htree hparent (Ne.symm hgenesis) hprune⟩
        · rw [prune_loop, if_neg hgenesis, if_neg (by omega), hheader, Nat.add_sub_cancel]
        · have hmin : min (limit + 1 - 1) (level_of tree y) =
              min (limit - 1) (level_of tree header.shell.predecessor) + 1 := by omega
          rw [hmin, climb_succ, hparent, Option.bind_some, hclimb]

/-- A rolling purge prunes the window of the checkpoint and deletes what is
below. The caboose is the lowest block of the window. -/
theorem purge_rolling_spec (htree : Levelled tree) {s : Chain_state} {hash : Block_hash}
    {contents : Contents} (hcontents : (s.block_store.blocks hash).contents = some contents)
    (hparent : parent tree hash = some p) (hpart : Part s.block_store tree)
    (hstored : ∀ x, Ancestor (parent tree) x p → x ≠ Chain_env.genesis.block →
      level_of tree p < level_of tree x + contents.max_operations_ttl →
      ∃ header, read_opt s.block_store x = some header)
    (hcut : Cut_below tree s.block_store p) (lvl : Int) :
    ∃ caboose store', Result.Yields (fun fuel => purge_rolling fuel s (lvl, hash))
        (.ok { s with
          block_store := store'
          data := { s.data with
            save_point := (lvl, hash)
            caboose := (lvl - contents.max_operations_ttl, caboose) } }) ∧
      climb (parent tree) (min contents.max_operations_ttl (level_of tree hash)) hash =
        some caboose ∧
      Rolled tree p contents.max_operations_ttl s.block_store store' := by
  have hheader : read_opt s.block_store hash = some contents.header := by
    unfold read_opt Tables.header
    rw [hcontents]
  obtain ⟨header, hmem, hne, hpred⟩ := parent_eq_some_iff.mp hparent
  have hsame : contents.header = header := by
    have := hpart hash contents.header hheader
    rw [hmem] at this
    exact (Option.some.inj this).symm
  rw [← hsame] at hpred
  have hstep := htree.level_parent _ _ hparent
  have hfinish : ∀ {caboose : Block_hash} {store' : Block_store},
      Result.Yields (fun fuel => purge_loop_rolling fuel s.block_store hash
        contents.max_operations_ttl) (.ok (caboose, store')) →
      Result.Yields (fun fuel => purge_rolling fuel s (lvl, hash))
        (.ok { s with
          block_store := store'
          data := { s.data with
            save_point := (lvl, hash)
            caboose := (lvl - contents.max_operations_ttl, caboose) } }) := by
    intro caboose store' hloop
    unfold purge_rolling
    rw [hcontents]
    exact hloop.bind (.of_eq fun _ => rfl)
  by_cases hzero : contents.max_operations_ttl = 0
  · obtain ⟨store', hyields, htreated⟩ := delete_loop_spec htree hpart hcut 0 []
      (fun x hx => by cases hx)
    have hloop : Result.Yields (fun fuel => purge_loop_rolling fuel s.block_store hash
        contents.max_operations_ttl) (.ok (hash, store')) := by
      have hround : Result.Yields (fun fuel => do
          let store' ← delete_loop fuel s.block_store p 0 []
          return (hash, store')) (.ok (hash, store')) := hyields.bind (.of_eq fun _ => rfl)
      refine hround.congr fun fuel => ?_
      unfold purge_loop_rolling
      rw [hheader]
      simp only [unopt_assert, Result.bind_ok, if_pos hzero, hpred]
    refine ⟨hash, store', hfinish hloop, by rw [hzero, zero_min, climb_zero], ?_⟩
    rw [hzero]
    exact htreated.rolled htree
  · obtain ⟨caboose, store', hyields, hclimb, hrolled⟩ :=
      prune_loop_spec htree (pos_of_ne_zero hzero) hpart hstored hcut
    have hloop : Result.Yields (fun fuel => purge_loop_rolling fuel s.block_store hash
        contents.max_operations_ttl) (.ok (caboose, store')) := by
      refine hyields.congr fun fuel => ?_
      unfold purge_loop_rolling
      rw [hheader]
      simp only [unopt_assert, Result.bind_ok, if_neg hzero, hpred]
    refine ⟨caboose, store', hfinish hloop, ?_, hrolled⟩
    have hmin : min contents.max_operations_ttl (level_of tree hash) =
        min (contents.max_operations_ttl - 1) (level_of tree p) + 1 := by omega
    rw [hmin, climb_succ, hparent, Option.bind_some, hclimb]

end Specs

end plexus.state
