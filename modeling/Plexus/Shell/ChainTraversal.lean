import Plexus.Shell.SkipPointers

/-! Walks along the predecessors of stored blocks (`chain_traversal.ml`). The
argument `fuel` bounds the rounds of a loop. -/

namespace plexus.state

open Ancestry List Option Result Nat Block

variable {b1 b2 : Block}

namespace Block

def equal (b1 b2 : Block) : Bool := b1.hash = b2.hash

theorem equal_iff : b1.equal b2 = true ↔ b1.hash = b2.hash := decide_eq_true_iff

def timestamp (b : Block) : Int := b.header.shell.timestamp

def fitness (b : Block) : Fitness := b.header.shell.fitness

def level (b : Block) : Nat := b.header.shell.level

variable (store : Block_store)

def read_opt (hash : Block_hash) : Option Block :=
  (Header.read_opt store hash).map fun header => { hash, header }

def read_contents (b : Block) : Tzresult Contents :=
  match (store.blocks b.hash).contents with
  | none => .error [.Block_contents_not_found b.hash]
  | some contents => .ok contents

def max_operations_ttl (b : Block) : Tzresult Nat := do
  return (← read_contents store b).max_operations_ttl

def last_allowed_fork_level (b : Block) : Tzresult Int := do
  return (← read_contents store b).last_allowed_fork_level

/-- The block below, or nothing at the first block. -/
def predecessor (b : Block) : Option Block :=
  if b.hash = b.header.shell.predecessor then none else read_opt store b.header.shell.predecessor

/-- The hashes of the operations of every validation pass. -/
def all_operation_hashes (b : Block) :
    Tzresult (List (List Operation_hash)) :=
  (List.range b.header.shell.validation_passes).mapM fun i =>
    unopt_assert ((store.blocks b.hash).operation_hashes i)

end Block

namespace chain_traversal

def path.loop (fuel : Nat) (store : Block_store) (b1 : Block) (acc : List Block) (current : Block) :
    Tzresult (Option (List Block)) :=
  match fuel with
  | 0 => .div
  | fuel + 1 =>
    if b1.equal current then .ok (some acc)
    else
      match Block.predecessor store current with
      | some pred => loop fuel store b1 (current :: acc) pred
      | none => .ok none

/-- The blocks from `b1`, left out, to `b2`, in ascending order. -/
def path (fuel : Nat) (store : Block_store) (b1 b2 : Block) : Tzresult (Option (List Block)) :=
  path.loop fuel store b1 [] b2

def common_ancestor (fuel : Nat) (store : Block_store) (b1 b2 : Block) : Tzresult Block :=
  match fuel with
  | 0 => .div
  | fuel + 1 =>
    if b1.equal b2 then .ok b1
    else if b1.timestamp ≤ b2.timestamp then
      match Block.predecessor store b2 with
      | none => .raise .Assert_failure
      | some b2 => common_ancestor fuel store b1 b2
    else
      match Block.predecessor store b1 with
      | none => .raise .Assert_failure
      | some b1 => common_ancestor fuel store b1 b2

def new_blocks (fuel : Nat) (store : Block_store) (from_block to_block : Block) :
    Tzresult (Block × List Block) := do
  let ancestor ← common_ancestor fuel store from_block to_block
  match ← path fuel store ancestor to_block with
  | none => .raise .Assert_failure
  | some path => return (ancestor, path)

variable [Chain_env]

def live_blocks.loop (store : Block_store) (bacc : Finset Block_hash)
    (oacc : Finset Operation_hash) (block_head : Block) (n : Nat) :
    Tzresult (Finset Block_hash × Finset Operation_hash) := do
  let hashes ← Block.all_operation_hashes store block_head
  let oacc := hashes.foldl (fun oacc ops => ops.foldl (fun oacc op => insert op oacc) oacc) oacc
  let bacc := insert block_head.hash bacc
  match n with
  | 0 => return (bacc, oacc)
  | n + 1 =>
    match Block.predecessor store block_head with
    | none =>
      if Chain_env.genesis.block = block_head.hash then return (bacc, oacc)
      else .error [.Block_not_found block_head.hash]
    | some predecessor => loop store bacc oacc predecessor n

/-- The last `n` blocks below a block, itself included, and their operations. -/
def live_blocks (store : Block_store) (block : Block) (n : Nat) :
    Tzresult (Finset Block_hash × Finset Operation_hash) :=
  live_blocks.loop store ∅ ∅ block n

end chain_traversal

open chain_traversal

/-- The block is in the store. -/
def Stored (store : Block_store) (b : Block) : Prop :=
  Header.read_opt store b.hash = some b.header

/-- The store has a part of the tree. -/
def Part (store : Block_store) (tree : Block_hash → Option Block_header) : Prop :=
  ∀ hash header, Header.read_opt store hash = some header → tree hash = some header

theorem Part.refl (store : Block_store) : Part store (Header.read_opt store) := fun _ _ h => h

variable {b : Block} {n : Nat}

section Part

variable {store : Block_store} {tree : Block_hash → Option Block_header}

theorem Block.read_opt_eq_some_iff {hash : Block_hash} :
    Block.read_opt store hash = some b ↔ b.hash = hash ∧ Stored store b := by
  unfold Block.read_opt Stored
  rw [map_eq_some_iff]
  constructor
  · rintro ⟨header, hheader, rfl⟩
    exact ⟨rfl, hheader⟩
  · rintro ⟨rfl, hstored⟩
    exact ⟨b.header, hstored, rfl⟩

/-- Stored blocks with the same hash are the same. -/
theorem Stored.eq_of_hash_eq {b' : Block} (hb : Stored store b) (hb' : Stored store b')
    (heq : b.hash = b'.hash) : b = b' := by
  obtain ⟨hash, header⟩ := b
  obtain ⟨_, header'⟩ := b'
  subst heq
  have hheader : some header = some header' := Eq.trans (Eq.symm hb) hb'
  rw [Option.some.inj hheader]

theorem Block.predecessor_eq_some {p : Block} (hb : Stored store b) (hpart : Part store tree)
    (h : Block.predecessor store b = some p) :
    Stored store p ∧ parent tree b.hash = some p.hash := by
  unfold Block.predecessor at h
  split at h
  next => cases h
  next hne =>
    obtain ⟨hhash, hp⟩ := read_opt_eq_some_iff.mp h
    refine ⟨hp, parent_eq_some_iff.mpr ⟨b.header, hpart _ _ hb, ?_, hhash.symm⟩⟩
    rw [hhash]
    exact hne

/-- When the block below is stored, it is found. -/
theorem Block.predecessor_of_parent {pred : Block_hash} {header : Block_header}
    (hb : Stored store b) (hpart : Part store tree) (hparent : parent tree b.hash = some pred)
    (hheader : Header.read_opt store pred = some header) :
    Block.predecessor store b = some { hash := pred, header } := by
  obtain ⟨_, hbheader, hne, hpred⟩ := parent_eq_some_iff.mp hparent
  rw [hpart _ _ hb] at hbheader
  cases hbheader
  unfold Block.predecessor
  rw [hpred, if_neg hne]
  exact read_opt_eq_some_iff.mpr ⟨rfl, hheader⟩

theorem Block.predecessor_genesis [Chain_env] (htree : Tree tree) (hb : Stored store b)
    (hpart : Part store tree) (hgenesis : b.hash = Chain_env.genesis.block) :
    Block.predecessor store b = none := by
  obtain ⟨_, hheader, hpred⟩ := htree.genesis
  rw [← hgenesis, hpart _ _ hb] at hheader
  cases hheader
  unfold Block.predecessor
  rw [if_pos (hgenesis.trans hpred.symm)]

variable {fuel : Nat} {blocks : List Block}

/-- What a walk collects is the path it took. -/
theorem path.loop_eq_some (hpart : Part store tree) {current : Block} {acc : List Block}
    (hcurrent : Stored store current)
    (h : path.loop fuel store b1 acc current = .ok (some blocks)) :
    ∃ walked, blocks = walked ++ acc ∧ IsPath (parent tree) b1.hash (walked.map Block.hash)
      current.hash := by
  induction fuel generalizing acc current with
  | zero => cases h
  | succ fuel ih =>
    rw [path.loop] at h
    split at h
    next heq =>
      cases h
      rw [equal_iff] at heq
      refine ⟨[], rfl, ?_⟩
      rw [heq]
      exact .nil _
    next =>
      split at h
      next pred hpred =>
        obtain ⟨hstored, hparent⟩ := predecessor_eq_some hcurrent hpart hpred
        obtain ⟨walked, hblocks, hpath⟩ := ih hstored h
        refine ⟨walked ++ [current], by rw [hblocks, append_assoc]; rfl, ?_⟩
        rw [map_append]
        exact hpath.append (IsPath.cons_of_parent hparent (.nil _))
      next => cases h

theorem path_eq_some (hpart : Part store tree) (hb2 : Stored store b2)
    (h : path fuel store b1 b2 = .ok (some blocks)) :
    IsPath (parent tree) b1.hash (blocks.map Block.hash) b2.hash := by
  obtain ⟨_, hblocks, hpath⟩ := path.loop_eq_some hpart hb2 h
  rw [hblocks, append_nil]
  exact hpath

/-- Whatever the timestamps are, only a common ancestor is returned. -/
theorem common_ancestor_eq_ok (hpart : Part store tree) {a : Block} (hb1 : Stored store b1)
    (hb2 : Stored store b2) (h : common_ancestor fuel store b1 b2 = .ok a) :
    Stored store a ∧ Ancestor (parent tree) a.hash b1.hash ∧
      Ancestor (parent tree) a.hash b2.hash := by
  induction fuel generalizing b1 b2 with
  | zero => cases h
  | succ fuel ih =>
    rw [common_ancestor] at h
    split at h
    next heq =>
      cases h
      rw [equal_iff] at heq
      exact ⟨hb1, .refl _, by rw [heq]; exact .refl _⟩
    next =>
      split at h
      next =>
        split at h
        next => cases h
        next pred hpred =>
          obtain ⟨hstored, hparent⟩ := predecessor_eq_some hb2 hpart hpred
          obtain ⟨ha, hleft, hright⟩ := ih hb1 hstored h
          exact ⟨ha, hleft, hright.up hparent⟩
      next =>
        split at h
        next => cases h
        next pred hpred =>
          obtain ⟨hstored, hparent⟩ := predecessor_eq_some hb1 hpart hpred
          obtain ⟨ha, hleft, hright⟩ := ih hstored hb2 h
          exact ⟨ha, hleft.up hparent, hright⟩

theorem new_blocks_eq_ok (hpart : Part store tree) {a : Block} (hb1 : Stored store b1)
    (hb2 : Stored store b2) (h : new_blocks fuel store b1 b2 = .ok (a, blocks)) :
    Stored store a ∧ Ancestor (parent tree) a.hash b1.hash ∧
      IsPath (parent tree) a.hash (blocks.map Block.hash) b2.hash := by
  obtain ⟨_, hancestor, h⟩ := bind_inv h
  obtain ⟨found, hfound, h⟩ := bind_inv h
  cases found with
  | none => cases h
  | some path =>
    cases h
    obtain ⟨ha, hleft, -⟩ := common_ancestor_eq_ok hpart hb1 hb2 hancestor
    exact ⟨ha, hleft, path_eq_some hpart hb2 hfound⟩

variable {hashes : List (List Operation_hash)}

/-- The operations of every pass are read. -/
theorem all_operation_hashes_eq_ok (h : all_operation_hashes store b = .ok hashes) {i : Nat}
    (hi : i < b.header.shell.validation_passes) :
    ∃ ops ∈ hashes, (store.blocks b.hash).operation_hashes i = some ops := by
  obtain ⟨ops, hops, hread⟩ := exists_mem_of_mapM h i (mem_range.mpr hi)
  refine ⟨ops, hops, ?_⟩
  cases hcase : (store.blocks b.hash).operation_hashes i with
  | none =>
    rw [hcase] at hread
    cases hread
  | some ops' =>
    rw [hcase] at hread
    cases hread
    rfl

variable {oacc : Finset Operation_hash} {o : Operation_hash}

theorem mem_foldl_foldl_insert :
    o ∈ hashes.foldl (fun oacc ops => ops.foldl (fun oacc op => insert op oacc) oacc) oacc ↔
      o ∈ oacc ∨ ∃ ops ∈ hashes, o ∈ ops := by
  induction hashes generalizing oacc with
  | nil => simp
  | cons ops hashes ih =>
    rw [foldl_cons, ih, shell.mem_foldl_insert]
    simp only [mem_cons, exists_eq_or_imp]
    tauto

/-- What the live sets of a block have: the block and the `n` blocks below it, or
as many as there are, with their operations. -/
structure Window (store : Block_store) (tree : Block_hash → Option Block_header) (b : Block_hash)
    (n : Nat) (bacc : Finset Block_hash) (oacc : Finset Operation_hash)
    (live : Finset Block_hash × Finset Operation_hash) : Prop where
  blocks : ∀ x, x ∈ live.1 ↔ x ∈ bacc ∨ ∃ k ≤ n, climb (parent tree) k b = some x
  kept : oacc ⊆ live.2
  operations : ∀ k ≤ n, ∀ x header i ops, climb (parent tree) k b = some x →
    Header.read_opt store x = some header → i < header.shell.validation_passes →
    (store.blocks x).operation_hashes i = some ops → ∀ o ∈ ops, o ∈ live.2

/-- The sets after a block has been visited. -/
def visit (bacc : Finset Block_hash) (oacc : Finset Operation_hash) (b : Block_hash)
    (hashes : List (List Operation_hash)) : Finset Block_hash × Finset Operation_hash :=
  (insert b bacc,
    hashes.foldl (fun oacc ops => ops.foldl (fun oacc op => insert op oacc) oacc) oacc)

variable {bacc : Finset Block_hash}

theorem mem_visit {header : Block_header} {i : Nat} {ops : List Operation_hash}
    (hb : Stored store b) (hhashes : all_operation_hashes store b = .ok hashes)
    (hheader : Header.read_opt store b.hash = some header) (hi : i < header.shell.validation_passes)
    (hops : (store.blocks b.hash).operation_hashes i = some ops) (ho : o ∈ ops) :
    o ∈ (visit bacc oacc b.hash hashes).2 := by
  have heq : some header = some b.header := Eq.trans (Eq.symm hheader) hb
  cases heq
  obtain ⟨_, hmem, hops'⟩ := all_operation_hashes_eq_ok hhashes hi
  rw [hops] at hops'
  cases hops'
  exact mem_foldl_foldl_insert.mpr (.inr ⟨ops, hmem, ho⟩)

/-- The window of one block, where nothing is below or nothing more is wanted. -/
theorem window_single (hb : Stored store b) (hhashes : all_operation_hashes store b = .ok hashes)
    (hstop : ∀ k ≤ n, ∀ x, climb (parent tree) k b.hash = some x → k = 0) :
    Window store tree b.hash n bacc oacc (visit bacc oacc b.hash hashes) := by
  refine ⟨fun x => ?_, fun o ho => mem_foldl_foldl_insert.mpr (.inl ho), ?_⟩
  · rw [visit, Finset.mem_insert]
    constructor
    · rintro (rfl | hx)
      · exact .inr ⟨0, zero_le n, rfl⟩
      · exact .inl hx
    · rintro (hx | ⟨k, hk, hclimb⟩)
      · exact .inr hx
      · obtain rfl := hstop k hk x hclimb
        exact .inl (Option.some.inj hclimb).symm
  · intro k hk x header i ops hclimb hheader hi hops o ho
    obtain rfl := hstop k hk x hclimb
    cases Option.some.inj hclimb
    exact mem_visit hb hhashes hheader hi hops ho

variable {live : Finset Block_hash × Finset Operation_hash}

/-- The window of a block above that of its predecessor. -/
theorem Window.up {pred : Block} (hb : Stored store b)
    (hhashes : all_operation_hashes store b = .ok hashes)
    (hparent : parent tree b.hash = some pred.hash)
    (h : Window store tree pred.hash n (visit bacc oacc b.hash hashes).1
      (visit bacc oacc b.hash hashes).2 live) :
    Window store tree b.hash (n + 1) bacc oacc live := by
  have hnext k x : climb (parent tree) (k + 1) b.hash = some x ↔ climb (parent tree) k pred.hash =
      some x := by
    rw [climb_succ, hparent, bind_some]
  refine ⟨fun x => ?_, fun o ho => h.kept (mem_foldl_foldl_insert.mpr (.inl ho)), ?_⟩
  · rw [h.blocks, visit, Finset.mem_insert]
    constructor
    · rintro ((rfl | hx) | ⟨k, hk, hclimb⟩)
      · exact .inr ⟨0, zero_le _, rfl⟩
      · exact .inl hx
      · exact .inr ⟨k + 1, by omega, (hnext k x).mpr hclimb⟩
    · rintro (hx | ⟨k, hk, hclimb⟩)
      · exact .inl (.inr hx)
      · cases k with
        | zero => exact .inl (.inl (Option.some.inj hclimb).symm)
        | succ k => exact .inr ⟨k, by omega, (hnext k x).mp hclimb⟩
  · intro k hk x header i ops hclimb hheader hi hops o ho
    cases k with
    | zero =>
      cases Option.some.inj hclimb
      exact h.kept (mem_visit hb hhashes hheader hi hops ho)
    | succ k =>
      exact h.operations k (by omega) x header i ops ((hnext k x).mp hclimb) hheader hi hops o ho

theorem live_blocks.loop_eq_ok [Chain_env] (htree : Tree tree) (hpart : Part store tree)
    (hb : Stored store b) (h : live_blocks.loop store bacc oacc b n = .ok live) :
    Window store tree b.hash n bacc oacc live := by
  induction n generalizing b bacc oacc with
  | zero =>
    rw [live_blocks.loop] at h
    obtain ⟨hashes, hhashes, h⟩ := bind_inv h
    cases h
    exact window_single hb hhashes fun k hk _ _ => le_zero.mp hk
  | succ n ih =>
    rw [live_blocks.loop] at h
    obtain ⟨hashes, hhashes, h⟩ := bind_inv h
    dsimp only at h
    split at h
    next hpred =>
      split at h
      next hgenesis =>
        cases h
        refine window_single hb hhashes fun k hk x hclimb => ?_
        cases k with
        | zero => rfl
        | succ k =>
          rw [climb_succ, ← hgenesis, htree.parent_genesis] at hclimb
          cases hclimb
      next => cases h
    next pred hpred =>
      obtain ⟨hstored, hparent⟩ := predecessor_eq_some hb hpart hpred
      exact (ih hstored h).up hb hhashes hparent

/-- The live sets of a block depend on the window only. -/
theorem live_blocks.loop_congr [Chain_env] {store' : Block_store} (hpart : Part store tree)
    (hb : Stored store b) (hsame : ∀ k ≤ n, ∀ x, climb (parent tree) k b.hash = some x →
      Header.read_opt store' x = Header.read_opt store x ∧
      (store'.blocks x).operation_hashes = (store.blocks x).operation_hashes)
    (bacc : Finset Block_hash) (oacc : Finset Operation_hash) :
    live_blocks.loop store' bacc oacc b n = live_blocks.loop store bacc oacc b n := by
  have hops : all_operation_hashes store' b = all_operation_hashes store b := by
    unfold all_operation_hashes
    rw [(hsame 0 (zero_le n) b.hash rfl).2]
  induction n generalizing b bacc oacc with
  | zero => rw [live_blocks.loop, live_blocks.loop, hops]
  | succ n ih =>
    rw [live_blocks.loop, live_blocks.loop, hops]
    have hpred : Block.predecessor store' b = Block.predecessor store b := by
      unfold Block.predecessor
      split
      next => rfl
      next hne =>
        have hparent : parent tree b.hash = some b.header.shell.predecessor :=
          parent_eq_some_iff.mpr ⟨b.header, hpart _ _ hb, hne, rfl⟩
        unfold Block.read_opt
        rw [(hsame 1 (by omega) _ (by rw [climb_one, hparent])).1]
    rw [hpred]
    cases hread : Block.predecessor store b with
    | none => rfl
    | some p =>
      obtain ⟨hp, hparent⟩ := predecessor_eq_some hb hpart hread
      have hbelow : ∀ k ≤ n, ∀ x, climb (parent tree) k p.hash = some x →
          Header.read_opt store' x = Header.read_opt store x ∧
            (store'.blocks x).operation_hashes = (store.blocks x).operation_hashes := by
        intro k hk x hx
        apply hsame (k + 1) (by omega) x
        rw [climb_succ, hparent, bind_some, hx]
      have hpops : all_operation_hashes store' p = all_operation_hashes store p := by
        unfold all_operation_hashes
        rw [(hbelow 0 (zero_le n) p.hash rfl).2]
      congr 1
      funext hashes
      exact ih hp hbelow _ _ hpops

/-- The predecessor of a stored block that is not the first. -/
theorem Block.exists_predecessor [Chain_env] (htree : Tree (Header.read_opt store))
    (hb : Stored store b) (hne : b.hash ≠ Chain_env.genesis.block) :
    ∃ p, Block.predecessor store b = some p ∧ Stored store p ∧
      parent (Header.read_opt store) b.hash = some p.hash := by
  have hparent := htree.parent_eq hb hne
  obtain ⟨_, hheader⟩ := htree.parent_mem hparent
  exact ⟨_, predecessor_of_parent hb (.refl store) hparent hheader, hheader, hparent⟩

/-- The live sets of a block can be computed when the blocks of the window are
stored with their operations. -/
theorem live_blocks.loop_spec [Chain_env] {b : Block} {n : Nat}
    (htree : Tree (Header.read_opt store))
    (hb : Stored store b) (hops : ∀ x header i, Ancestor (parent (Header.read_opt store)) x b.hash →
      Header.read_opt store x = some header → i < header.shell.validation_passes →
      ∃ ops, (store.blocks x).operation_hashes i = some ops) (bacc : Finset Block_hash)
    (oacc : Finset Operation_hash) :
    ∃ live, live_blocks.loop store bacc oacc b n = .ok live := by
  obtain ⟨hashes, hhashes⟩ : ∃ hashes, all_operation_hashes store b = .ok hashes := by
    apply exists_mapM
    intro i hi
    obtain ⟨ops, hread⟩ := hops b.hash b.header i (.refl _) hb (mem_range.mp hi)
    exact ⟨ops, by rw [hread]; rfl⟩
  cases n with
  | zero =>
    rw [live_blocks.loop, hhashes]
    exact ⟨_, rfl⟩
  | succ n =>
    rw [live_blocks.loop, hhashes]
    by_cases hgenesis : b.hash = Chain_env.genesis.block
    · rw [predecessor_genesis htree hb (.refl store) hgenesis]
      exact ⟨_, if_pos hgenesis.symm⟩
    · obtain ⟨p, hpred, hp, hparent⟩ := exists_predecessor htree hb hgenesis
      rw [hpred]
      exact live_blocks.loop_spec htree hp (fun x header i hx => hops x header i (hx.up hparent)) _ _

end Part

/-! ### In a tree with all of its blocks stored and increasing timestamps -/

section Complete

variable [Chain_env] {store : Block_store}

/-- The timestamps of the stored blocks grow from every block to the next. -/
def Timed (tree : Block_hash → Option Block_header) : Prop :=
  ∀ hash header pred, tree hash = some header → parent tree hash = some pred →
    ∀ header', tree pred = some header' → header'.shell.timestamp < header.shell.timestamp

/-- The timestamp of a block of the tree. -/
def time (tree : Block_hash → Option Block_header) (hash : Block_hash) : Int :=
  match tree hash with
  | none => 0
  | some header => header.shell.timestamp

omit [Chain_env] in
theorem time_eq (hb : Stored store b) : time (Header.read_opt store) b.hash = b.timestamp := by
  unfold time
  rw [hb]
  rfl

variable {tree : Block_hash → Option Block_header}

theorem Timed.falling (htree : Tree tree) (htimed : Timed tree) :
    Falling (parent tree) (fun h => ∃ header, tree h = some header) (time tree) := by
  rintro x y ⟨header, hheader⟩ hparent
  obtain ⟨header', hheader'⟩ := htree.parent_mem hparent
  have hlt := htimed x header y hheader hparent header' hheader'
  unfold time
  rw [hheader, hheader']
  exact hlt

theorem Tree.parent_closed (htree : Tree tree)
    (x y : Block_hash) (_ : ∃ header, tree x = some header) (h : parent tree x = some y) :
    ∃ header, tree y = some header :=
  htree.parent_mem h

section

variable (htree : Tree (Header.read_opt store))

include htree

/-- The later one of two blocks is not above the other one, and one step from a block
that is closer to the first one. -/
theorem Timed.step_down (htimed : Timed (Header.read_opt store)) {x y : Block} {n m : Nat}
    (hx : Stored store x) (hy : Stored store y) (hne : x.hash ≠ y.hash)
    (hle : x.timestamp ≤ y.timestamp)
    (hn : climb (parent (Header.read_opt store)) n x.hash = some Chain_env.genesis.block)
    (hm : climb (parent (Header.read_opt store)) m y.hash = some Chain_env.genesis.block) :
    ¬ Ancestor (parent (Header.read_opt store)) y.hash x.hash ∧
    ∃ p k, m = k + 1 ∧ Block.predecessor store y = some p ∧ Stored store p ∧
      parent (Header.read_opt store) y.hash = some p.hash ∧
      climb (parent (Header.read_opt store)) k p.hash = some Chain_env.genesis.block := by
  have hnot : ¬ Ancestor (parent (Header.read_opt store)) y.hash x.hash := by
    intro hanc
    have hlt := (htimed.falling htree).lt_of_ancestor htree.parent_closed hanc ⟨x.header, hx⟩
      (Ne.symm hne)
    rw [time_eq hx, time_eq hy] at hlt
    omega
  have hgen : y.hash ≠ Chain_env.genesis.block := fun hgen => hnot ⟨n, hgen ▸ hn⟩
  obtain ⟨p, hpred, hp, hparent⟩ := exists_predecessor htree hy hgen
  cases m with
  | zero => exact absurd (Option.some.inj hm) hgen
  | succ k =>
    rw [climb_succ, hparent, bind_some] at hm
    exact ⟨hnot, p, k, rfl, hpred, hp, hparent, hm⟩

/-- The search for a common ancestor steps down from the later of two blocks,
which is not above the other one, so that the lowest common ancestor is never
passed. -/
theorem common_ancestor_spec (htimed : Timed (Header.read_opt store)) {n1 n2 : Nat}
    (hb1 : Stored store b1) (hb2 : Stored store b2)
    (hn1 : climb (parent (Header.read_opt store)) n1 b1.hash = some Chain_env.genesis.block)
    (hn2 : climb (parent (Header.read_opt store)) n2 b2.hash = some Chain_env.genesis.block) :
    ∃ a, Result.Yields (fun fuel => common_ancestor fuel store b1 b2) (.ok a) ∧
      Stored store a ∧ IsMeet (parent (Header.read_opt store)) a.hash b1.hash b2.hash := by
  obtain ⟨n, hn⟩ : ∃ n, n = n1 + n2 := ⟨_, rfl⟩
  induction n using Nat.strongRecOn generalizing n1 n2 b1 b2 with
  | ind n ih =>
    by_cases heq : b1.hash = b2.hash
    · refine ⟨b1, .succ (.of_eq fun fuel => ?_), hb1, by rw [heq]; exact .self _⟩
      rw [common_ancestor, if_pos (equal_iff.mpr heq)]
    have hequal : ¬ b1.equal b2 = true := fun h => heq (equal_iff.mp h)
    by_cases hle : b1.timestamp ≤ b2.timestamp
    · obtain ⟨hnot, p, m, rfl, hpred, hp, hparent, hm⟩ :=
        htimed.step_down htree hb1 hb2 heq hle hn1 hn2
      obtain ⟨a, hok, ha, hmeet⟩ := ih (n1 + m) (by omega) hb1 hp hn1 hm rfl
      refine ⟨a, .succ (hok.congr fun fuel => ?_), ha, hmeet.of_parent hparent hnot⟩
      rw [common_ancestor, if_neg hequal, if_pos hle, hpred]
    · obtain ⟨hnot, p, m, rfl, hpred, hp, hparent, hm⟩ :=
        htimed.step_down htree hb2 hb1 (Ne.symm heq) (by omega) hn2 hn1
      obtain ⟨a, hok, ha, hmeet⟩ := ih (m + n2) (by omega) hp hb2 hm hn2 rfl
      refine ⟨a, .succ (hok.congr fun fuel => ?_), ha, (hmeet.symm.of_parent hparent hnot).symm⟩
      rw [common_ancestor, if_neg hequal, if_neg hle, hpred]

/-- A walk down to an ancestor arrives. -/
theorem path.loop_spec {current : Block} {n : Nat} (hcurrent : Stored store current)
    (hn : climb (parent (Header.read_opt store)) n current.hash = some b1.hash) (acc : List Block) :
    ∃ blocks, Result.Yields (fun fuel => path.loop fuel store b1 acc current)
      (.ok (some blocks)) := by
  by_cases heq : b1.hash = current.hash
  · refine ⟨acc, .succ (.of_eq fun fuel => ?_)⟩
    rw [path.loop, if_pos (equal_iff.mpr heq)]
  have hequal : ¬ b1.equal current = true := fun h => heq (equal_iff.mp h)
  cases n with
  | zero => exact absurd (Option.some.inj hn).symm heq
  | succ n =>
    rw [climb_succ, bind_eq_some_iff] at hn
    obtain ⟨pred, hparent, hn⟩ := hn
    obtain ⟨header, hheader⟩ := htree.parent_mem hparent
    have hread := predecessor_of_parent hcurrent (.refl store) hparent hheader
    have hpred : Stored store { hash := pred, header } := hheader
    obtain ⟨blocks, hblocks⟩ := path.loop_spec hpred hn (current :: acc)
    refine ⟨blocks, .succ (hblocks.congr fun fuel => ?_)⟩
    rw [path.loop, if_neg hequal, hread]

/-- The lowest common ancestor, with the path from it to the second block. -/
theorem new_blocks_spec
    (htimed : Timed (Header.read_opt store)) (hb1 : Stored store b1) (hb2 : Stored store b2) :
    ∃ a path, Result.Yields (fun fuel => common_ancestor fuel store b1 b2) (.ok a) ∧
      Stored store a ∧ IsMeet (parent (Header.read_opt store)) a.hash b1.hash b2.hash ∧
      Result.Yields (fun fuel => new_blocks fuel store b1 b2) (.ok (a, path)) ∧
      IsPath (parent (Header.read_opt store)) a.hash (path.map Block.hash) b2.hash := by
  obtain ⟨n1, hn1⟩ := htree.rooted _ _ hb1
  obtain ⟨n2, hn2⟩ := htree.rooted _ _ hb2
  obtain ⟨a, hcommon, ha, hmeet⟩ := common_ancestor_spec htree htimed hb1 hb2 hn1 hn2
  obtain ⟨n, hn⟩ := hmeet.right
  obtain ⟨path, hpath⟩ := path.loop_spec htree hb2 hn []
  refine ⟨a, path, hcommon, ha, hmeet, ?_, ?_⟩
  · exact hcommon.bind (hpath.bind (.of_eq fun _ => rfl))
  · obtain ⟨fuel, hfuel⟩ := hpath
    exact path_eq_some (.refl store) hb2 (hfuel fuel (le_refl fuel))

end

end Complete

end plexus.state
