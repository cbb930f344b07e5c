import Plexus.Shell.ChainTraversal

/-! The current head of a chain and the marks of its main branch
(`chain.ml`). -/

namespace plexus.chain

open List

open Result (bind_inv)

open Ancestry state
export state (Block_hash Block_header Operation_hash Tzresult)
open Header (read_opt)

def mem (chain_state : Chain_state) (hash : Block_hash) : Bool :=
  if chain_state.data.current_head.hash = hash then true
  else (chain_state.in_main_branch hash).isSome

/-- Takes the blocks above `ancestor` off the main branch. -/
def pop_blocks (fuel : Nat) (store : Block_store) (ancestor : Block_hash)
    (marks : Block_hash → Option Block_hash) (block : Block) :
    Tzresult (Block_hash → Option Block_hash) :=
  match fuel with
  | 0 => .div
  | fuel + 1 =>
    if block.hash = ancestor then .ok marks
    else
      match Block.predecessor store block with
      | some predecessor =>
        pop_blocks fuel store ancestor (In_main_branch.remove block.hash marks) predecessor
      | none => .raise .Assert_failure

/-- Puts a block on the main branch, above the one before it. -/
def push_block (acc : Block_hash × (Block_hash → Option Block_hash)) (hash : Block_hash) :
    Block_hash × (Block_hash → Option Block_hash) :=
  (hash, In_main_branch.store acc.1 hash acc.2)

def locked_set_head (fuel : Nat) (chain_state : Chain_state) (block : Block)
    (live_blocks : Finset Block_hash) (live_operations : Finset Operation_hash) :
    Tzresult Chain_state := do
  let data := chain_state.data
  let (ancestor, path) ←
    chain_traversal.new_blocks fuel chain_state.block_store data.current_head block
  let marks ← pop_blocks fuel chain_state.block_store ancestor.hash chain_state.in_main_branch
    data.current_head
  let (_, marks) := (path.map Block.hash).foldl push_block (ancestor.hash, marks)
  return { chain_state with
    in_main_branch := marks
    data := { data with current_head := block, live_blocks, live_operations } }

/-- Makes a block the current head, and returns the one before. -/
def set_head [Chain_env] (fuel : Nat) (chain_state : Chain_state) (block : Block) :
    Tzresult (Block × Chain_state) := do
  let max_op_ttl ← Block.max_operations_ttl chain_state.block_store block
  let (live_blocks, live_operations) ←
    chain_traversal.live_blocks chain_state.block_store block max_op_ttl
  let new_state ← locked_set_head fuel chain_state block live_blocks live_operations
  return (chain_state.data.current_head, new_state)

/-- Below the head, the marks lead from every block of the main branch to the
next one, and there are no others. -/
def Exact (tree : Block_hash → Option Block_header) (marks : Block_hash → Option Block_hash)
    (head : Block_hash) : Prop :=
  ∀ h, h ≠ head → ∀ c, marks h = some c ↔ parent tree c = some h ∧ Ancestor (parent tree) c head

variable {block : Block} {fuel : Nat}

section Marks

variable {store : Block_store} {tree : Block_hash → Option Block_header}

variable {marks marks' : Block_hash → Option Block_hash}

/-- What is taken off is the path down to the ancestor. -/
theorem pop_blocks_eq_ok (hpart : Part store tree) {ancestor : Block_hash}
    (hblock : Stored store block) (h : pop_blocks fuel store ancestor marks block = .ok marks') :
    ∃ l, IsPath (parent tree) ancestor l block.hash ∧
      ∀ x, marks' x = if x ∈ l then none else marks x := by
  induction fuel generalizing marks block with
  | zero => cases h
  | succ fuel ih =>
    rw [pop_blocks] at h
    split at h
    next heq =>
      cases h
      refine ⟨[], ?_, fun x => by simp⟩
      rw [heq]
      exact .nil _
    next =>
      split at h
      next pred hpred =>
        obtain ⟨hstored, hparent⟩ := Block.predecessor_eq_some hblock hpart hpred
        obtain ⟨l, hpath, hmarks⟩ := ih hstored h
        refine ⟨l ++ [block.hash], hpath.append (IsPath.cons_of_parent hparent (.nil _)),
          fun x => ?_⟩
        rw [hmarks]
        by_cases hl : x ∈ l
        · rw [if_pos hl, if_pos (mem_append_left _ hl)]
        · rw [if_neg hl, In_main_branch.remove]
          by_cases hx : x = block.hash
          · rw [if_pos hx, if_pos (by rw [hx]; simp)]
          · rw [if_neg hx, if_neg (by simp [hl, hx])]
      next => cases h

/-- Popping down to an ancestor succeeds when the blocks in between are stored. -/
theorem pop_blocks_spec [Chain_env] (htree : Tree (read_opt store)) {n : Nat}
    {ancestor : Block_hash} (hblock : Stored store block)
    (hn : climb (parent (read_opt store)) n block.hash = some ancestor)
    (marks : Block_hash → Option Block_hash) :
    ∃ marks', Result.Yields (fun fuel => pop_blocks fuel store ancestor marks block)
      (.ok marks') := by
  induction n generalizing block marks with
  | zero =>
    refine ⟨marks, .succ (.of_eq fun fuel => ?_)⟩
    rw [pop_blocks, if_pos (Option.some.inj hn)]
  | succ n ih =>
    by_cases heq : block.hash = ancestor
    · refine ⟨marks, .succ (.of_eq fun fuel => ?_)⟩
      rw [pop_blocks, if_pos heq]
    · rw [climb_succ, Option.bind_eq_some_iff] at hn
      obtain ⟨pred, hparent, hn⟩ := hn
      obtain ⟨header, hheader⟩ := htree.parent_mem hparent
      have hread := Block.predecessor_of_parent hblock (.refl store) hparent hheader
      have hpred : Stored store { hash := pred, header } := hheader
      obtain ⟨marks', hmarks'⟩ := ih hpred hn (In_main_branch.remove block.hash marks)
      refine ⟨marks', .succ (hmarks'.congr fun fuel => ?_)⟩
      rw [pop_blocks, if_neg heq, hread]

variable [Chain_env]

/-- The blocks put on the main branch are marked on the ones below them, and no
other mark changes. -/
theorem push_blocks_spec (htree : Tree tree) {a x : Block_hash} {l : List Block_hash}
    (hpath : IsPath (parent tree) a l x) (marks : Block_hash → Option Block_hash) :
    (∀ c h, c ∈ l → parent tree c = some h → (l.foldl push_block (a, marks)).2 h = some c) ∧
      ∀ h, (∀ c ∈ l, parent tree c ≠ some h) → (l.foldl push_block (a, marks)).2 h = marks h := by
  induction l generalizing a marks with
  | nil =>
    constructor
    · intro c h hc
      cases hc
    · intro h _
      rfl
  | cons c0 l ih =>
    rw [isPath_cons_iff] at hpath
    obtain ⟨hc0, hl⟩ := hpath
    obtain ⟨hset, hkeep⟩ := ih hl (In_main_branch.store a c0 marks)
    rw [foldl_cons]
    constructor
    · intro c h hc hparent
      cases hc with
      | head =>
        rw [hc0] at hparent
        cases hparent
        have hfirst c (hc : c ∈ l) : parent tree c ≠ some a := by
          intro hca
          obtain ⟨-, z, hz, hcz⟩ := hl.mem hc
          rw [hca] at hz
          cases hz
          exact htree.not_ancestor_of_parent hc0 hcz
        rw [push_block, hkeep a hfirst, In_main_branch.store, if_pos rfl]
      | tail _ hc => exact hset c h hc hparent
    · intro h hh
      have hne : h ≠ a := by
        rintro rfl
        exact hh c0 mem_cons_self hc0
      rw [push_block, hkeep h (fun c hc => hh c (mem_cons_of_mem c0 hc)), In_main_branch.store,
        if_neg hne]

/-- Going down to a common ancestor and up again keeps the marks exact. -/
theorem Exact.switch (htree : Tree tree) {a head block : Block_hash} {down up : List Block_hash}
    (hexact : Exact tree marks head) (hdown : IsPath (parent tree) a down head)
    (hmarks : ∀ x, marks' x = if x ∈ down then none else marks x)
    (hup : IsPath (parent tree) a up block) :
    Exact tree (up.foldl push_block (a, marks')).2 block := by
  obtain ⟨hset, hkeep⟩ := push_blocks_spec htree hup marks'
  have hsucc : up ≠ [] → ∃ c ∈ up, parent tree c = some a := by
    intro hne
    cases up with
    | nil => exact absurd rfl hne
    | cons c up =>
      rw [isPath_cons_iff] at hup
      exact ⟨c, mem_cons_self, hup.1⟩
  intro h hblock c
  constructor
  · intro hc
    by_cases hpushed : ∃ c ∈ up, parent tree c = some h
    · obtain ⟨c', hc', hparent⟩ := hpushed
      rw [hset c' h hc' hparent] at hc
      cases hc
      exact ⟨hparent, (hup.mem hc').1⟩
    · have hout : ∀ c ∈ up, parent tree c ≠ some h := fun c hc hp => hpushed ⟨c, hc, hp⟩
      rw [hkeep h hout, hmarks] at hc
      split at hc
      next => cases hc
      next hnot =>
        have hna : h ≠ a := by
          rintro rfl
          have hnil : up = [] := by
            by_contra hne
            obtain ⟨c', hc', hp⟩ := hsucc hne
            exact hout c' hc' hp
          rw [hnil, isPath_nil_iff] at hup
          exact hblock hup
        have hhead : h ≠ head := by
          rintro rfl
          obtain hmem | hanc := hdown.mem_or_ancestor (.refl h)
          · exact hnot hmem
          · exact hna (htree.ancestor_antisymm hanc hdown.ancestor)
        obtain ⟨hparent, hanc⟩ := (hexact h hhead c).mp hc
        refine ⟨hparent, ?_⟩
        obtain hmem | hca := hdown.mem_or_ancestor hanc
        · obtain ⟨-, z, hz, haz⟩ := hdown.mem hmem
          rw [hparent] at hz
          cases hz
          obtain hh | hha := hdown.mem_or_ancestor ((Ancestor.of_parent hparent).trans hanc)
          · exact absurd hh hnot
          · exact absurd (htree.ancestor_antisymm hha haz) hna
        · exact hca.trans hup.ancestor
  · rintro ⟨hparent, hanc⟩
    obtain hmem | hca := hup.mem_or_ancestor hanc
    · exact hset c h hmem hparent
    · have hout c' (hc' : c' ∈ up) : parent tree c' ≠ some h := by
        intro hp
        obtain ⟨-, z, hz, haz⟩ := hup.mem hc'
        rw [hp] at hz
        cases hz
        exact htree.not_ancestor_of_parent hparent (hca.trans haz)
      have hnot : h ∉ down := by
        intro hh
        obtain ⟨-, z, hz, haz⟩ := hdown.mem hh
        exact htree.not_ancestor_of_parent hparent (hca.trans (haz.up hz))
      have hhead : h ≠ head := by
        rintro rfl
        exact htree.not_ancestor_of_parent hparent (hca.trans hdown.ancestor)
      rw [hkeep h hout, hmarks, if_neg hnot]
      exact (hexact h hhead c).mpr ⟨hparent, hca.trans hdown.ancestor⟩

end Marks

variable {s : Chain_state} {s' : Chain_state}

/-- What a call that returns has done. -/
theorem set_head_eq_ok [Chain_env] {previous : Block}
    (h : set_head fuel s block = .ok (previous, s')) :
    ∃ contents a path marks live,
      (s.block_store.blocks block.hash).contents = some contents ∧
      chain_traversal.live_blocks s.block_store block contents.max_operations_ttl = .ok live ∧
      chain_traversal.new_blocks fuel s.block_store s.data.current_head block = .ok (a, path) ∧
      pop_blocks fuel s.block_store a.hash s.in_main_branch s.data.current_head = .ok marks ∧
      previous = s.data.current_head ∧
      s' = { s with
        in_main_branch := ((path.map Block.hash).foldl push_block (a.hash, marks)).2
        data := { s.data with
          current_head := block, live_blocks := live.1, live_operations := live.2 } } := by
  obtain ⟨ttl, httl, h⟩ := bind_inv h
  obtain ⟨live, hlive, h⟩ := bind_inv h
  obtain ⟨next, hnext, h⟩ := bind_inv h
  cases h
  unfold Block.max_operations_ttl Block.read_contents at httl
  obtain ⟨contents, hcontents, httl⟩ := bind_inv httl
  cases httl
  split at hcontents
  next => cases hcontents
  next hread =>
    cases hcontents
    obtain ⟨⟨a, path⟩, hnew, hnext⟩ := bind_inv hnext
    obtain ⟨marks, hpop, hnext⟩ := bind_inv hnext
    cases hnext
    exact ⟨contents, a, path, marks, live, hread, hlive, hnew, hpop, rfl, rfl⟩

/-- The head is stored and the marks below it are exact. -/
structure On_branch (tree : Block_hash → Option Block_header) (s : Chain_state) : Prop where
  part : Part s.block_store tree
  head : Stored s.block_store s.data.current_head
  exact : Exact tree s.in_main_branch s.data.current_head.hash

variable {tree : Block_hash → Option Block_header}

/-- Switching the head to a stored block keeps that. -/
theorem On_branch.set_head [Chain_env] (htree : Tree tree)
    {previous : Block} (hs : On_branch tree s) (hblock : Stored s.block_store block)
    (h : chain.set_head fuel s block = .ok (previous, s')) : On_branch tree s' := by
  obtain ⟨_, a, _, _, _, -, -, hnew, hpop, -, rfl⟩ := set_head_eq_ok h
  obtain ⟨ha, _, hup⟩ := new_blocks_eq_ok hs.part hs.head hblock hnew
  obtain ⟨_, hdown, hmarks⟩ := pop_blocks_eq_ok hs.part hs.head hpop
  exact ⟨hs.part, hblock, hs.exact.switch htree hdown hmarks hup⟩

/-- On the main branch are the head and its ancestors. -/
theorem On_branch.mem_iff (hs : On_branch tree s) (h : Block_hash) :
    mem s h = true ↔ Ancestor (parent tree) h s.data.current_head.hash := by
  unfold mem
  split
  next heq =>
    rw [heq]
    simp only [true_iff]
    exact .refl h
  next hne =>
    rw [Option.isSome_iff_exists]
    constructor
    · rintro ⟨c, hc⟩
      obtain ⟨hparent, hanc⟩ := (hs.exact h (Ne.symm hne) c).mp hc
      exact (Ancestor.of_parent hparent).trans hanc
    · intro hanc
      obtain ⟨c, hparent, hc⟩ := hanc.exists_child (Ne.symm hne)
      exact ⟨c, (hs.exact h (Ne.symm hne) c).mpr ⟨hparent, hc⟩⟩

/-- A call of `set_head` that returns. The others leave the state as it was. -/
inductive Switch [Chain_env] : Chain_state → Chain_state → Prop where
  | set_head {s s' : Chain_state} (fuel : Nat) (block previous : Block)
      (hblock : Stored s.block_store block)
      (h : set_head fuel s block = .ok (previous, s')) : Switch s s'

/-- The head is the first block, and no block is marked yet. -/
structure At_genesis [Chain_env] (s : Chain_state) : Prop where
  hash : s.data.current_head.hash = Chain_env.genesis.block
  head : Stored s.block_store s.data.current_head
  unmarked : ∀ h, s.in_main_branch h = none

theorem At_genesis.on_branch [Chain_env] (hs : At_genesis s)
    (htree : Tree (read_opt s.block_store)) :
    On_branch (read_opt s.block_store) s := by
  refine ⟨.refl _, hs.head, fun h hne c => ?_⟩
  rw [hs.unmarked]
  constructor
  · intro hc
    cases hc
  · rintro ⟨hparent, hanc⟩
    rw [hs.hash] at hanc
    rw [hanc.eq_of_parent_eq_none htree.parent_genesis, htree.parent_genesis] at hparent
    cases hparent

/-- Runs of head switches do not touch the blocks. -/
theorem Switch.block_store [Chain_env] (h : Switch s s') : s'.block_store = s.block_store := by
  obtain ⟨_, _, _, _, h⟩ := h
  obtain ⟨_, a, _, _, _, -, -, -, -, -, rfl⟩ := set_head_eq_ok h
  rfl

/-- From every state on a branch the head can be switched to every block whose
lifetime and live operations can be read, and these are live then. -/
theorem On_branch.set_head_spec [Chain_env] (htree : Tree (read_opt s.block_store))
    (htimed : Timed (read_opt s.block_store))
    (hs : On_branch (read_opt s.block_store) s) {ttl : Nat}
    {live : Finset Block_hash × Finset Operation_hash} (hblock : Stored s.block_store block)
    (httl : Block.max_operations_ttl s.block_store block = .ok ttl)
    (hlive : chain_traversal.live_blocks s.block_store block ttl = .ok live) :
    ∃ s', Result.Yields (fun fuel => chain.set_head fuel s block)
        (.ok (s.data.current_head, s')) ∧
      s'.data = { s.data with
        current_head := block, live_blocks := live.1, live_operations := live.2 } := by
  obtain ⟨a, _, -, -, hmeet, hnew, -⟩ := new_blocks_spec htree htimed hs.head hblock
  obtain ⟨n, hn⟩ := hmeet.left
  obtain ⟨_, hmarks⟩ := pop_blocks_spec htree hs.head hn s.in_main_branch
  have hlocked : ∃ s', Result.Yields
        (fun fuel => locked_set_head fuel s block live.1 live.2) (.ok s') ∧
      s'.data = { s.data with
        current_head := block, live_blocks := live.1, live_operations := live.2 } :=
    ⟨_, hnew.bind (hmarks.bind (.of_eq fun _ => rfl)), rfl⟩
  obtain ⟨s', hs', hdata⟩ := hlocked
  have hstep : Result.Yields (fun fuel => do
      let new_state ← locked_set_head fuel s block live.1 live.2
      return (s.data.current_head, new_state)) (.ok (s.data.current_head, s')) :=
    hs'.bind (.of_eq fun _ => rfl)
  refine ⟨s', hstep.congr fun fuel => ?_, hdata⟩
  unfold chain.set_head
  rw [httl]
  simp only [Result.bind_ok]
  rw [hlive]
  rfl

/-- Head switching keeps the main branch exact: it is that of the block which the
head was switched to. -/
theorem head_switching [Chain_env] {store : Block_store} (htree : Tree (read_opt store))
    (htimed : Timed (read_opt store)) :
    (∀ b1 b2, Stored store b1 → Stored store b2 → ∃ a path,
      Result.Yields (fun fuel => chain_traversal.common_ancestor fuel store b1 b2) (.ok a) ∧
      IsMeet (parent (read_opt store)) a.hash b1.hash b2.hash ∧
      (∀ h, IsMeet (parent (read_opt store)) h b1.hash b2.hash → h = a.hash) ∧
      Result.Yields (fun fuel => chain_traversal.new_blocks fuel store b1 b2) (.ok (a, path)) ∧
      IsPath (parent (read_opt store)) a.hash (path.map Block.hash) b2.hash) ∧
    ∀ s s', s.block_store = store → At_genesis s → Relation.ReflTransGen Switch s s' →
      (∀ b, Stored store b →
        (mem s' b.hash = true ↔
          Ancestor (parent (read_opt store)) b.hash s'.data.current_head.hash) ∧
        (mem s' b.hash = true → b.hash ≠ s'.data.current_head.hash →
          ∃ c, s'.in_main_branch b.hash = some c ∧
            parent (read_opt store) c = some b.hash ∧
            Ancestor (parent (read_opt store)) c s'.data.current_head.hash)) ∧
      ∀ block ttl live, Stored store block → Block.max_operations_ttl store block = .ok ttl →
        chain_traversal.live_blocks store block ttl = .ok live →
        ∃ s'', Result.Yields (fun fuel => set_head fuel s' block)
            (.ok (s'.data.current_head, s'')) ∧
          s''.data = { s'.data with
            current_head := block, live_blocks := live.1, live_operations := live.2 } ∧
          ∀ b, Stored store b →
            (mem s'' b.hash = true ↔ Ancestor (parent (read_opt store)) b.hash block.hash) := by
  constructor
  · intro b1 b2 hb1 hb2
    obtain ⟨a, path, hcommon, -, hmeet, hnew, hpath⟩ := new_blocks_spec htree htimed hb1 hb2
    refine ⟨a, path, hcommon, hmeet, fun h hh => ?_, hnew, hpath⟩
    exact hh.unique (htimed.falling htree) htree.parent_closed hmeet ⟨b1.header, hb1⟩
  · rintro s s' rfl hstart hrun
    have hinv : s'.block_store = s.block_store ∧
        On_branch (read_opt s.block_store) s' := by
      refine hrun.preserves (P := fun t => t.block_store = s.block_store ∧
        On_branch (read_opt s.block_store) t) ?_ ⟨rfl, hstart.on_branch htree⟩
      rintro t t' hstep ⟨hstore, ht⟩
      refine ⟨hstep.block_store.trans hstore, ?_⟩
      obtain ⟨fuel, block, _, hblock, h⟩ := hstep
      exact ht.set_head htree hblock h
    obtain ⟨hstore, hbranch⟩ := hinv
    constructor
    · intro b _
      refine ⟨hbranch.mem_iff b.hash, fun hmem hne => ?_⟩
      obtain ⟨c, hparent, hc⟩ := ((hbranch.mem_iff b.hash).mp hmem).exists_child hne
      exact ⟨c, (hbranch.exact b.hash hne c).mpr ⟨hparent, hc⟩, hparent, hc⟩
    · rw [← hstore] at htree htimed hbranch ⊢
      intro block ttl live hblock httl hlive
      obtain ⟨s'', hset, hdata⟩ := hbranch.set_head_spec htree htimed hblock httl hlive
      refine ⟨s'', hset, hdata, fun b _ => ?_⟩
      obtain ⟨fuel, hfuel⟩ := hset
      have hbranch' := hbranch.set_head htree hblock (hfuel fuel le_rfl)
      have hhead : s''.data.current_head = block := by rw [hdata]
      rw [hbranch'.mem_iff, hhead]

/-- Two blocks above the first one. -/
def fork [Chain_env] : Block_store :=
  ((Locked_block.store_genesis Block_store.empty).update 1 fun tables =>
    { tables with contents := some (bare_contents 1 0) }).update 2 fun tables =>
      { tables with contents := some (bare_contents 2 0) }

/-- The chain before its first switch. -/
def fork_state [Chain_env] : Chain_state where
  block_store := fork
  data :=
    { current_head := ⟨Chain_env.genesis.block, Locked_block.genesis_header⟩
      live_blocks := ∅
      live_operations := ∅
      save_point := (0, Chain_env.genesis.block)
      caboose := (0, Chain_env.genesis.block) }
  checkpoint := Locked_block.genesis_header
  known_heads := []
  in_main_branch := fun _ => none

/-- The head is switched to the one block and then to the other. -/
theorem head_switching_fork :
    let _ := Chain_env.numbered
    ∃ s previous s', Relation.ReflTransGen Switch fork_state s ∧ s.data.current_head.hash = 1 ∧
      mem s 1 = true ∧ mem s 2 = false ∧
      Result.Yields (fun fuel => set_head fuel s ⟨2, (bare_contents 2 0).header⟩)
        (.ok (previous, s')) ∧
      s'.data.current_head.hash = 2 ∧ mem s' 1 = false ∧ mem s' 2 = true := by
  intro _
  have hread h : read_opt fork h = if h = 2 then some (bare_contents 2 0).header else if h = 1 then
      some (bare_contents 1 0).header else if h = 0 then some Locked_block.genesis_header else
      none := by
    unfold fork
    rw [Header.read_opt_update, Header.read_opt_update, read_opt_genesis_store]
    rfl
  have hone : Tree fun h => if h = 1 then some (bare_contents 1 0).header
      else read_opt (Locked_block.store_genesis Block_store.empty) h :=
    grown_genesis.tree.insert rfl ⟨Locked_block.genesis_header, rfl⟩ fun _ => rfl
  have htree : Tree (read_opt fork) := by
    have hsplit h : read_opt fork h = if h = 2 then some (bare_contents 2 0).header else if h = 1
        then some (bare_contents 1 0).header else read_opt
        (Locked_block.store_genesis Block_store.empty) h := by
      rw [hread, read_opt_genesis_store]
      rfl
    exact hone.insert rfl ⟨Locked_block.genesis_header, rfl⟩ hsplit
  have htimed : Timed (read_opt fork) := by
    intro hash header pred hheader hparent header' hheader'
    obtain ⟨x, hx, hne, rfl⟩ := parent_eq_some_iff.mp hparent
    rw [hheader] at hx
    cases hx
    rw [hread] at hheader
    split at hheader
    next =>
      cases hheader
      cases hheader'
      decide
    next =>
      split at hheader
      next =>
        cases hheader
        cases hheader'
        decide
      next =>
        split at hheader
        next hzero =>
          cases hheader
          exact absurd hzero hne
        next => cases hheader
  obtain ⟨s, hswitch, hhead⟩ : ∃ s, Switch fork_state s ∧ s.data.current_head.hash = 1 :=
    ⟨_, .set_head 5 ⟨1, (bare_contents 1 0).header⟩ _ rfl rfl, rfl⟩
  have hrun : Relation.ReflTransGen Switch fork_state s := .single hswitch
  have hapart {b b' : Block_hash} (hne : b ≠ b') (hzero : b ≠ 0)
      (hparent : parent (read_opt fork) b' = some 0) : ¬ Ancestor (parent (read_opt fork)) b b' :=
    fun h => hzero ((h.to_parent hne hparent).eq_of_parent_eq_none htree.parent_genesis)
  obtain ⟨hmem, hset⟩ :=
    (head_switching htree htimed).2 fork_state s rfl ⟨rfl, rfl, fun _ => rfl⟩ hrun
  obtain ⟨s', hyields, hdata, hmem'⟩ := hset ⟨2, (bare_contents 2 0).header⟩ 0 _ rfl rfl rfl
  have hmem1 := (hmem ⟨1, (bare_contents 1 0).header⟩ rfl).1
  have hmem2 := (hmem ⟨2, (bare_contents 2 0).header⟩ rfl).1
  rw [hhead] at hmem1 hmem2
  refine ⟨s, _, s', hrun, hhead, hmem1.mpr (.refl 1), ?_, hyields, by rw [hdata], ?_, ?_⟩
  · exact Bool.eq_false_of_not_eq_true
      fun h => hapart (by decide) (by decide) rfl (hmem2.mp h)
  · exact Bool.eq_false_of_not_eq_true fun h => hapart (by decide) (by decide) rfl
      ((hmem' ⟨1, (bare_contents 1 0).header⟩ rfl).mp h)
  · exact (hmem' ⟨2, (bare_contents 2 0).header⟩ rfl).mpr (.refl 2)

end plexus.chain
