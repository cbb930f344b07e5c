import Plexus.Lib.Ancestry
import Plexus.Lib.Run
import Plexus.Shell.BlockStore

/-! The tree of the stored blocks, and the search for ancestors along the
pointers stored with every block. -/

namespace plexus.state

open Ancestry store_predecessors predecessor_n_raw Block_store Option Nat Header

variable [Chain_env]

namespace Locked_block

/-- The header of the first block, which is its own predecessor. -/
def genesis_header : Block_header where
  shell :=
    { level := 0
      proto_level := 0
      predecessor := Chain_env.genesis.block
      timestamp := Chain_env.genesis.time
      fitness := []
      validation_passes := 0
      operations_hash := Chain_env.operations_hash_empty
      context := Chain_env.commit_genesis }
  protocol_data := []

def genesis_contents : Contents where
  header := genesis_header
  message := some "Genesis"
  max_operations_ttl := 0
  last_allowed_fork_level := 0
  context := Chain_env.commit_genesis
  metadata := []

def store_genesis (store : Block_store) : Block_store :=
  store.update Chain_env.genesis.block fun tables =>
    { tables with contents := some genesis_contents }

end Locked_block

/-- The predecessor of a block, unless the block is its own. -/
def parent (tree : Block_hash → Option Block_header) (hash : Block_hash) : Option Block_hash :=
  match tree hash with
  | none => none
  | some header =>
    if hash = header.shell.predecessor then none else some header.shell.predecessor

variable {tree : Block_hash → Option Block_header} {hash : Block_hash} {pred : Block_hash}

omit [Chain_env] in
theorem parent_eq_some_iff :
    parent tree hash = some pred ↔
      ∃ header, tree hash = some header ∧ hash ≠ pred ∧ header.shell.predecessor = pred := by
  unfold parent
  cases tree hash with
  | none => simp
  | some header =>
    dsimp only
    split
    next heq =>
      simp only [reduceCtorEq, Option.some.injEq, exists_eq_left', false_iff, not_and]
      intro hne hpred
      exact hne (heq.trans hpred)
    next hne =>
      simp only [Option.some.injEq, exists_eq_left']
      constructor
      · rintro rfl
        exact ⟨hne, rfl⟩
      · exact fun h => h.2

/-- The headers of a tree of blocks that grows from the first block. -/
structure Tree (tree : Block_hash → Option Block_header) : Prop where
  genesis : ∃ header, tree Chain_env.genesis.block = some header ∧
    header.shell.predecessor = Chain_env.genesis.block
  predecessor : ∀ hash header, tree hash = some header → hash ≠ Chain_env.genesis.block →
    ∃ pred, tree header.shell.predecessor = some pred
  rooted : ∀ hash header, tree hash = some header →
    ∃ n, climb (parent tree) n hash = some Chain_env.genesis.block

variable {header : Block_header} {a b : Block_hash} {tree' : Block_hash → Option Block_header}

namespace Tree

variable {tree : Block_hash → Option Block_header}

section

variable (htree : Tree tree)

include htree

theorem parent_genesis : parent tree Chain_env.genesis.block = none := by
  obtain ⟨_, hheader, hpred⟩ := htree.genesis
  unfold parent
  rw [hheader]
  dsimp only
  rw [if_pos hpred.symm]

/-- Every other block has a predecessor of its own. -/
theorem parent_eq (hheader : tree hash = some header) (hne : hash ≠ Chain_env.genesis.block) :
    parent tree hash = some header.shell.predecessor := by
  unfold parent
  rw [hheader]
  dsimp only
  rw [if_neg]
  intro hself
  have hnone : parent tree hash = none := by
    unfold parent
    rw [hheader]
    exact if_pos hself
  obtain ⟨n, hn⟩ := htree.rooted hash header hheader
  exact hne (Ancestor.eq_of_parent_eq_none ⟨n, hn⟩ hnone).symm

/-- The tree has the predecessors of its blocks. -/
theorem parent_mem (h : parent tree hash = some pred) :
    ∃ header, tree pred = some header := by
  obtain ⟨header, hheader, hne, rfl⟩ := parent_eq_some_iff.mp h
  apply htree.predecessor hash header hheader
  rintro rfl
  rw [htree.parent_genesis] at h
  cases h

theorem ancestor_mem (h : Ancestor (parent tree) a hash)
    (hmem : ∃ header, tree hash = some header) : ∃ header, tree a = some header :=
  h.closed (P := fun b => ∃ header, tree b = some header) (fun _ _ _ hy => htree.parent_mem hy) hmem

/-- No block is above itself. -/
theorem climb_ne_self {n : Nat} (hheader : tree hash = some header) :
    climb (parent tree) (n + 1) hash ≠ some hash := by
  intro hcycle
  obtain ⟨d, hd⟩ := htree.rooted hash header hheader
  have hnone : climb (parent tree) (d + 1) hash = none := by
    rw [climb_add, hd, bind_some, climb_one, htree.parent_genesis]
  have hturns k : climb (parent tree) (k * (n + 1)) hash = some hash := by
    induction k with
    | zero => rw [zero_mul, climb_zero]
    | succ k ih =>
      rw [succ_mul]
      exact climb_trans ih hcycle
  have hle : d + 1 ≤ (d + 1) * (n + 1) := Nat.le_mul_of_pos_right _ (Nat.succ_pos n)
  have hfar := climb_eq_none_of_le hnone hle
  rw [hturns] at hfar
  cases hfar

/-- Blocks above each other are the same. -/
theorem ancestor_antisymm (hab : Ancestor (parent tree) a b) (hba : Ancestor (parent tree) b a) :
    a = b := by
  obtain ⟨m, hm⟩ := hab
  obtain ⟨n, hn⟩ := hba
  cases m with
  | zero => exact (Option.some.inj hm).symm
  | succ m =>
    have hcycle := climb_trans hm hn
    rw [add_right_comm] at hcycle
    rw [climb_succ, bind_eq_some_iff] at hm
    obtain ⟨y, hy, -⟩ := hm
    obtain ⟨_, hheader, -⟩ := parent_eq_some_iff.mp hy
    exact absurd hcycle (htree.climb_ne_self hheader)

/-- A block is not above its own predecessor. -/
theorem not_ancestor_of_parent {c h : Block_hash} (hparent : parent tree c = some h) :
    ¬ Ancestor (parent tree) c h := by
  intro hanc
  obtain ⟨_, _, hne, -⟩ := parent_eq_some_iff.mp hparent
  exact hne (htree.ancestor_antisymm hanc (.of_parent hparent))

/-- A block is above another one at one distance only. -/
theorem climb_inj {m n : Nat} (hm : climb (parent tree) m b = some a)
    (hn : climb (parent tree) n b = some a) : m = n := by
  wlog hle : m ≤ n generalizing m n
  · exact (this hn hm (Nat.le_of_not_le hle)).symm
  obtain ⟨y, hy, hya⟩ := exists_climb_of_le hn hle
  rw [hm] at hy
  cases hy
  cases hk : n - m with
  | zero => omega
  | succ k =>
    rw [hk, climb_succ, bind_eq_some_iff] at hya
    obtain ⟨z, hz, hza⟩ := hya
    exact absurd ⟨k, hza⟩ (htree.not_ancestor_of_parent hz)

/-- Extending a tree moves none of its blocks. -/
theorem climb_of_extends (hext : ∀ hash header, tree hash = some header → tree' hash = some header)
    (hmem : ∃ header, tree hash = some header) (n : Nat) :
    climb (parent tree') n hash = climb (parent tree) n hash := by
  apply climb_congr (fun x y _ hy => htree.parent_mem hy) _ hmem
  rintro x ⟨header, hheader⟩
  unfold parent
  rw [hheader, hext x header hheader]

end

end Tree

/-- The level of a block of the tree. -/
def level_of (tree : Block_hash → Option Block_header) (hash : Block_hash) : Nat :=
  match tree hash with
  | none => 0
  | some header => header.shell.level

omit [Chain_env] in
theorem level_of_eq (h : tree hash = some header) : level_of tree hash = header.shell.level := by
  unfold level_of
  rw [h]

/-- A tree whose levels count the blocks below. -/
structure Levelled (tree : Block_hash → Option Block_header) : Prop extends Tree tree where
  level_genesis : level_of tree Chain_env.genesis.block = 0
  level_parent : ∀ hash pred, parent tree hash = some pred →
    level_of tree hash = level_of tree pred + 1

namespace Levelled

variable {tree : Block_hash → Option Block_header}

section

variable (h : Levelled tree)

include h

theorem ranked : Ranked (parent tree) (fun _ => True) (level_of tree) :=
  fun x y _ hy => h.level_parent x y hy

/-- A block at distance `n` is `n` levels below. -/
theorem level_climb {n : Nat} (hclimb : climb (parent tree) n b = some a) :
    level_of tree b = level_of tree a + n :=
  h.ranked.climb (fun _ _ _ _ => trivial) hclimb trivial

theorem level_le (hanc : Ancestor (parent tree) a b) :
    level_of tree a ≤ level_of tree b := by
  obtain ⟨n, hn⟩ := hanc
  have := h.level_climb hn
  omega

/-- An ancestor is found at the distance of the levels. -/
theorem climb_level (hanc : Ancestor (parent tree) a b) :
    climb (parent tree) (level_of tree b - level_of tree a) b = some a :=
  (h.ranked.climb_sub (fun _ _ _ _ => trivial) hanc trivial).2

theorem level_lt (hanc : Ancestor (parent tree) a b) (hne : a ≠ b) :
    level_of tree a < level_of tree b := by
  have hle := h.level_le hanc
  by_contra hnot
  have hzero : level_of tree b - level_of tree a = 0 := by omega
  have hclimb := h.climb_level hanc
  rw [hzero, climb_zero] at hclimb
  exact hne (Option.some.inj hclimb).symm

/-- Of two ancestors, the one with the smaller level is below. -/
theorem ancestor_of_level_le {x : Block_hash} (ha : Ancestor (parent tree) a x)
    (hb : Ancestor (parent tree) b x) (hle : level_of tree a ≤ level_of tree b) :
    Ancestor (parent tree) a b := by
  obtain hab | hba := ha.total hb
  · exact hab
  · by_cases heq : a = b
    · rw [heq]
      exact .refl b
    · have := h.level_lt hba (Ne.symm heq)
      omega

end

end Levelled

/-- The pointers of the block `b` are to the ancestors at the powers of two, and
reach at least the blocks of `near`. -/
structure Pointers (tree : Block_hash → Option Block_header) (near : Block_hash → Prop)
    (b : Block_hash) (pointers : Nat → Option Block_hash) : Prop where
  sound : ∀ i p, pointers i = some p → climb (parent tree) (2 ^ i) b = some p
  complete : ∀ i p, i < stored_predecessors_size → climb (parent tree) (2 ^ i) b = some p →
    near p → pointers i = some p

variable {store : Block_store}

section Pointers

variable {tree : Block_hash → Option Block_header} {near : Block_hash → Prop}

section

omit [Chain_env]

/-- The search finds every ancestor that is near, when the blocks on the way
have their pointers. -/
theorem predecessor_n_raw.loop_eq_some (hnear : ∀ q, Ancestor (parent tree) a q → near q)
    {distance : Nat} (hpos : 0 < distance)
    (hpointers : ∀ q, Ancestor (parent tree) a q → Ancestor (parent tree) q b →
      Pointers tree near q (store.blocks q).predecessors)
    (hclimb : climb (parent tree) distance b = some a) :
    loop store b distance = some a := by
  induction distance using Nat.strong_induction_on generalizing b with
  | h distance ih =>
    rw [loop]
    have hb := hpointers b ⟨distance, hclimb⟩ (.refl b)
    split
    next hone =>
      subst hone
      exact hb.complete 0 a (by decide) hclimb (hnear a (.refl a))
    next hne =>
      obtain ⟨power, rest, hjump, hpower, _⟩ := jump_spec hpos
      rw [hjump]
      have hle : 2 ^ power ≤ distance := by omega
      obtain ⟨p, hp, hpa⟩ := exists_climb_of_le hclimb hle
      have hrest : distance - 2 ^ power = rest := by omega
      rw [hrest] at hpa
      rw [hb.complete power p hpower hp (hnear p ⟨rest, hpa⟩)]
      dsimp only
      split
      next hzero =>
        rw [hzero, climb_zero] at hpa
        exact hpa
      next hzero =>
        have hlt : rest < distance := by
          have := Nat.two_pow_pos power
          omega
        exact ih rest hlt (pos_of_ne_zero hzero)
          (fun q haq hqp => hpointers q haq (hqp.trans ⟨2 ^ power, hp⟩)) hpa

/-- The search finds nothing beyond the end of the chain. -/
theorem predecessor_n_raw.loop_eq_none {distance : Nat} (hpos : 0 < distance)
    (hpointers : ∀ q, Ancestor (parent tree) q b →
      Pointers tree near q (store.blocks q).predecessors)
    (hclimb : climb (parent tree) distance b = none) :
    loop store b distance = none := by
  induction distance using Nat.strong_induction_on generalizing b with
  | h distance ih =>
    rw [loop]
    have hb := hpointers b (.refl b)
    split
    next hone =>
      subst hone
      cases hread : (store.blocks b).predecessors 0 with
      | none => rfl
      | some p =>
        have hp := hb.sound 0 p hread
        rw [pow_zero, hclimb] at hp
        cases hp
    next hne =>
      obtain ⟨power, rest, hjump, _, hsum⟩ := jump_spec hpos
      rw [hjump]
      cases hread : (store.blocks b).predecessors power with
      | none => rfl
      | some p =>
        dsimp only
        have hp := hb.sound power p hread
        have hbeyond : climb (parent tree) rest p = none := by
          rw [← hsum, climb_add, hp, bind_some] at hclimb
          exact hclimb
        split
        next hzero =>
          rw [hzero, climb_zero] at hbeyond
          cases hbeyond
        next hzero =>
          have hlt : rest < distance := by
            have := Nat.two_pow_pos power
            omega
          exact ih rest hlt (pos_of_ne_zero hzero)
            (fun q hqp => hpointers q (hqp.trans ⟨2 ^ power, hp⟩)) hbeyond

theorem store_predecessors.set_eq (store : Block_store) (b : Block_hash) (dist : Nat)
    (p : Block_hash) :
    set store b dist p = store.update b fun tables =>
      { tables with predecessors := fun d => if d = dist then some p else tables.predecessors d } :=
  rfl

/-- Round by round the loop completes the pointers of `b`: those with exponent
below `dist` are complete, and `pred` is where the last of them leads. Only the
pointers of `b` change. -/
theorem store_predecessors.loop_spec (hnear : ∀ p q, near p → Ancestor (parent tree) p q → near q)
    (hproper : ∀ n, climb (parent tree) (n + 1) b ≠ some b) {left : Nat}
    (hleft : left < stored_predecessors_size)
    (hpred : climb (parent tree) (2 ^ (stored_predecessors_size - left - 1)) b = some pred)
    (hpointers : ∀ n q, climb (parent tree) (n + 1) b = some q →
      Pointers tree near q (store.blocks q).predecessors)
    (hsound : ∀ i p, (store.blocks b).predecessors i = some p →
      climb (parent tree) (2 ^ i) b = some p)
    (hcomplete : ∀ i p, i < stored_predecessors_size - left →
      climb (parent tree) (2 ^ i) b = some p → near p → (store.blocks b).predecessors i = some p) :
    ∃ pointers, loop store b pred left =
        store.update b (fun tables => { tables with predecessors := pointers }) ∧
      Pointers tree near b pointers := by
  induction left generalizing store pred with
  | zero =>
    refine ⟨(store.blocks b).predecessors, ?_, hsound, hcomplete⟩
    rw [loop, update_eq_self rfl]
  | succ left ih =>
    obtain ⟨dist, hdist⟩ : ∃ dist, stored_predecessors_size - (left + 1) = dist + 1 :=
      ⟨stored_predecessors_size - (left + 1) - 1, by omega⟩
    have hnext : stored_predecessors_size - left = dist + 1 + 1 := by omega
    rw [loop]
    rw [hdist, Nat.add_sub_cancel] at hpred ⊢
    rw [hdist] at hcomplete
    obtain ⟨k, hk⟩ : ∃ k, 2 ^ dist = k + 1 :=
      Nat.exists_eq_succ_of_ne_zero (Nat.two_pow_pos dist).ne'
    have hpredPointers := hpointers k pred (hk ▸ hpred)
    have hdouble : climb (parent tree) (2 ^ (dist + 1)) b =
        climb (parent tree) (2 ^ dist) pred := by
      rw [pow_succ, mul_two, climb_add, hpred, bind_some]
    cases hread : (store.blocks pred).predecessors dist with
    | none =>
      refine ⟨(store.blocks b).predecessors, ?_, hsound, ?_⟩
      · rw [update_eq_self rfl]
      · intro i p hi hclimb hp
        by_cases hlow : i < dist + 1
        · exact hcomplete i p hlow hclimb hp
        · have hpow : 2 ^ (dist + 1) ≤ 2 ^ i := Nat.pow_le_pow_right (by decide) (by omega)
          obtain ⟨q, hq, hqp⟩ := exists_climb_of_le hclimb hpow
          rw [hdouble] at hq
          have hfull := hpredPointers.complete dist q (by omega) hq (hnear p q hp ⟨_, hqp⟩)
          rw [hread] at hfull
          cases hfull
    | some p =>
      dsimp only
      have hp : climb (parent tree) (2 ^ (dist + 1)) b = some p := by
        rw [hdouble]
        exact hpredPointers.sound dist p hread
      have hblocks q (hq : q ≠ b) : (set store b (dist + 1) p).blocks q = store.blocks q := by
        exact update_blocks_ne hq
      have hself i : ((set store b (dist + 1) p).blocks b).predecessors i = if i = dist + 1 then
          some p else (store.blocks b).predecessors i := by
        rw [set_eq, update_blocks_self]
      have hpointers' n q (hq : climb (parent tree) (n + 1) b = some q) : Pointers tree near q
          ((set store b (dist + 1) p).blocks q).predecessors := by
        have hne : q ≠ b := by
          rintro rfl
          exact hproper n hq
        rw [hblocks q hne]
        exact hpointers n q hq
      have hsound' i q (hi : ((set store b (dist + 1) p).blocks b).predecessors i = some q) : climb
          (parent tree) (2 ^ i) b = some q := by
        rw [hself] at hi
        split at hi
        next heq =>
          cases hi
          rw [heq]
          exact hp
        next => exact hsound i q hi
      have hcomplete' i q (hi : i < stored_predecessors_size - left)
          (hclimb : climb (parent tree) (2 ^ i) b = some q) (hq : near q) :
          ((set store b (dist + 1) p).blocks b).predecessors i = some q := by
        rw [hself]
        split
        next heq =>
          rw [heq, hp] at hclimb
          exact hclimb
        next hne => exact hcomplete i q (by omega) hclimb hq
      have hp' : climb (parent tree) (2 ^ (stored_predecessors_size - left - 1)) b = some p := by
        rw [hnext]
        exact hp
      obtain ⟨pointers, hloop, hdone⟩ := ih (by omega) hp' hpointers' hsound' hcomplete'
      refine ⟨pointers, ?_, hdone⟩
      rw [hloop, set_eq, update_update]
      rfl

/-- The pointers stored for a block whose ancestors have theirs. -/
theorem store_predecessors_spec (hread : read_opt store b = some header)
    (hparent : parent tree b = some header.shell.predecessor)
    (hnear : ∀ p q, near p → Ancestor (parent tree) p q → near q)
    (hproper : ∀ n, climb (parent tree) (n + 1) b ≠ some b)
    (hpointers : ∀ n q, climb (parent tree) (n + 1) b = some q →
      Pointers tree near q (store.blocks q).predecessors)
    (hsound : ∀ i p, (store.blocks b).predecessors i = some p →
      climb (parent tree) (2 ^ i) b = some p) :
    ∃ pointers, store_predecessors store b =
        .ok (store.update b fun tables => { tables with predecessors := pointers }) ∧
      Pointers tree near b pointers := by
  have hfirst : climb (parent tree) (2 ^ 0) b = some header.shell.predecessor := by
    rw [pow_zero, climb_one, hparent]
  have hne : b ≠ header.shell.predecessor := by
    intro heq
    rw [← heq] at hfirst
    exact hproper 0 hfirst
  have hself i : ((set store b 0 header.shell.predecessor).blocks b).predecessors i = if i = 0 then
      some header.shell.predecessor else (store.blocks b).predecessors i := by
    rw [set_eq, update_blocks_self]
  have hpointers' n q (hq : climb (parent tree) (n + 1) b = some q) : Pointers tree near q
      ((set store b 0 header.shell.predecessor).blocks q).predecessors := by
    have hqb : q ≠ b := by
      rintro rfl
      exact hproper n hq
    rw [set_eq, update_blocks_ne hqb]
    exact hpointers n q hq
  have hsound' i p (hi : ((set store b 0 header.shell.predecessor).blocks b).predecessors i = some
      p) : climb (parent tree) (2 ^ i) b = some p := by
    rw [hself] at hi
    split at hi
    next heq =>
      cases hi
      rw [heq]
      exact hfirst
    next => exact hsound i p hi
  have hcomplete' i p (hi : i < 1) (hclimb : climb (parent tree) (2 ^ i) b = some p) (_ : near p) :
      ((set store b 0 header.shell.predecessor).blocks b).predecessors i = some p := by
    have hzero : i = 0 := by omega
    subst hzero
    rw [hself, if_pos rfl, ← hfirst, hclimb]
  obtain ⟨pointers, hloop, hdone⟩ := loop_spec hnear hproper
    (by decide : stored_predecessors_size - 1 < stored_predecessors_size) hfirst hpointers' hsound'
    hcomplete'
  refine ⟨pointers, ?_, hdone⟩
  unfold store_predecessors
  rw [hread]
  simp only [unopt_assert, Result.bind_ok, if_neg hne, Result.pure_eq]
  rw [hloop, set_eq, update_update]
  rfl

end

end Pointers

/-- A block is stored after its predecessor, with its pointers. -/
inductive Insertion : Block_store → Block_store → Prop where
  | insert {store store' : Block_store} (hash : Block_hash) (contents : Contents)
      (hfresh : Header.known store hash = false)
      (hpred : Header.known store contents.header.shell.predecessor = true)
      (hstore : store_predecessors
        (store.update hash fun tables => { tables with contents := some contents }) hash =
          .ok store') :
      Insertion store store'

/-- The stored blocks are a tree, every block of it has its pointers, and no
other hash has any. -/
structure Grown (store : Block_store) : Prop where
  tree : Tree (read_opt store)
  pointers : ∀ hash header, read_opt store hash = some header →
    Pointers (read_opt store) (fun _ => True) hash (store.blocks hash).predecessors
  unknown : ∀ hash, read_opt store hash = none →
    ∀ i, (store.blocks hash).predecessors i = none

theorem read_opt_genesis_store (hash : Block_hash) :
    read_opt (Locked_block.store_genesis empty) hash =
      if hash = Chain_env.genesis.block then some Locked_block.genesis_header else none := by
  unfold Locked_block.store_genesis
  rw [read_opt_update]
  rfl

/-- A store with only the first block. -/
theorem grown_genesis : Grown (Locked_block.store_genesis empty) := by
  have htree : Tree (read_opt (Locked_block.store_genesis empty)) := by
    refine ⟨⟨Locked_block.genesis_header, ?_, rfl⟩, fun hash header hheader hne => ?_,
      fun hash header hheader => ?_⟩
    · rw [read_opt_genesis_store, if_pos rfl]
    · rw [read_opt_genesis_store, if_neg hne] at hheader
      cases hheader
    · rw [read_opt_genesis_store] at hheader
      split at hheader
      next heq => exact ⟨0, by rw [heq, climb_zero]⟩
      next => cases hheader
  have hnone hash i : ((Locked_block.store_genesis empty).blocks hash).predecessors i = none := by
    unfold Locked_block.store_genesis
    rw [update_blocks]
    split
    next => rfl
    next => rfl
  refine ⟨htree, fun hash header hheader => ⟨fun i p hi => ?_, fun i p _ hclimb _ => ?_⟩,
    fun hash _ i => hnone hash i⟩
  · rw [hnone] at hi
    cases hi
  · rw [read_opt_genesis_store] at hheader
    split at hheader
    next heq =>
      rw [heq] at hclimb
      have hstop : climb (parent (read_opt (Locked_block.store_genesis empty))) 1
          Chain_env.genesis.block = none := by
        rw [climb_one, htree.parent_genesis]
      rw [climb_eq_none_of_le hstop (Nat.two_pow_pos i)] at hclimb
      cases hclimb
    next => cases hheader

/-- A tree with one more leaf. -/
theorem Tree.insert (htree : Tree tree) (hfresh : tree hash = none)
    (hpred : ∃ pred, tree header.shell.predecessor = some pred)
    (htree' : ∀ h, tree' h = if h = hash then some header else tree h) : Tree tree' := by
  obtain ⟨genesis, hgenesis, hself⟩ := htree.genesis
  obtain ⟨pred, hpred⟩ := hpred
  have hext h x (hx : tree h = some x) : tree' h = some x := by
    have hne : h ≠ hash := by
      rintro rfl
      rw [hfresh] at hx
      cases hx
    rw [htree', if_neg hne, hx]
  have hne : hash ≠ header.shell.predecessor := by
    intro heq
    rw [← heq, hfresh] at hpred
    cases hpred
  refine ⟨⟨genesis, hext _ _ hgenesis, hself⟩, fun h x hx hgen => ?_, fun h x hx => ?_⟩
  · rw [htree'] at hx
    split at hx
    next =>
      cases hx
      exact ⟨pred, hext _ _ hpred⟩
    next =>
      obtain ⟨y, hy⟩ := htree.predecessor h x hx hgen
      exact ⟨y, hext _ _ hy⟩
  · rw [htree'] at hx
    split at hx
    next heq =>
      cases hx
      obtain ⟨n, hn⟩ := htree.rooted _ _ hpred
      have hparent : parent tree' h = some header.shell.predecessor := by
        rw [parent_eq_some_iff]
        exact ⟨header, by rw [htree', if_pos heq], by rw [heq]; exact hne, rfl⟩
      refine ⟨n + 1, ?_⟩
      rw [climb_succ, hparent, bind_some, htree.climb_of_extends hext ⟨pred, hpred⟩, hn]
    next =>
      obtain ⟨n, hn⟩ := htree.rooted h x hx
      exact ⟨n, by rw [htree.climb_of_extends hext ⟨x, hx⟩, hn]⟩

/-- A levelled tree with one more leaf. -/
theorem Levelled.insert {pred : Block_header} (htree : Levelled tree) (hfresh : tree hash = none)
    (hpred : tree header.shell.predecessor = some pred)
    (hlevel : header.shell.level = pred.shell.level + 1)
    (htree' : ∀ h, tree' h = if h = hash then some header else tree h) : Levelled tree' := by
  have hsame : ∀ h, h ≠ hash → tree' h = tree h := fun h hne => by rw [htree', if_neg hne]
  have hold : ∀ h x, tree h = some x → h ≠ hash := by
    rintro h x hx rfl
    rw [hfresh] at hx
    cases hx
  obtain ⟨genesis, hgenesis, -⟩ := htree.genesis
  refine ⟨htree.toTree.insert hfresh ⟨pred, hpred⟩ htree', ?_, fun h p hparent => ?_⟩
  · have hlev := htree.level_genesis
    unfold level_of at hlev ⊢
    rw [hsame _ (hold _ _ hgenesis)]
    exact hlev
  · obtain ⟨x, hx, hne, rfl⟩ := parent_eq_some_iff.mp hparent
    by_cases heq : h = hash
    · subst heq
      rw [htree', if_pos rfl] at hx
      cases hx
      unfold level_of
      rw [htree', if_pos rfl, hsame _ (hold _ _ hpred), hpred]
      exact hlevel
    · rw [hsame h heq] at hx
      have hparent' := parent_eq_some_iff.mpr ⟨x, hx, hne, rfl⟩
      obtain ⟨y, hy⟩ := htree.parent_mem hparent'
      have hlev := htree.level_parent h _ hparent'
      unfold level_of at hlev ⊢
      rw [hsame h heq, hsame _ (hold _ _ hy)]
      exact hlev

theorem levelled_genesis :
    Levelled (read_opt (Locked_block.store_genesis empty)) := by
  refine ⟨grown_genesis.tree, ?_, fun h p hparent => ?_⟩
  · unfold level_of
    rw [read_opt_genesis_store, if_pos rfl]
    rfl
  · obtain ⟨x, hx, hne, rfl⟩ := parent_eq_some_iff.mp hparent
    rw [read_opt_genesis_store] at hx
    split at hx
    next heq =>
      cases hx
      exact absurd heq hne
    next => cases hx

/-- One insertion. -/
theorem Grown.insert {store' : Block_store} (hgrown : Grown store)
    (hstep : Insertion store store') :
    Grown store' := by
  obtain ⟨hash, contents, hfresh, hpred, hstore⟩ := hstep
  have hnone : read_opt store hash = none := by
    rw [eq_none_iff_forall_not_mem]
    intro header hheader
    have hknown := known_iff.mpr ⟨header, hheader⟩
    rw [hfresh] at hknown
    cases hknown
  rw [known_iff] at hpred
  let inserted := store.update hash fun tables => { tables with contents := some contents }
  have hread h : read_opt inserted h = if h = hash then some contents.header else read_opt store
      h := by
    rw [read_opt_update]
    rfl
  have htree : Tree (read_opt inserted) := hgrown.tree.insert hnone hpred hread
  have hmem : read_opt inserted hash = some contents.header := by
    rw [hread, if_pos rfl]
  have hgenesis : hash ≠ Chain_env.genesis.block := by
    obtain ⟨header, hheader, -⟩ := hgrown.tree.genesis
    rintro rfl
    rw [hnone] at hheader
    cases hheader
  have hext h x (hx : read_opt store h = some x) : read_opt inserted h = some x := by
    have hne : h ≠ hash := by
      rintro rfl
      rw [hnone] at hx
      cases hx
    rw [hread, if_neg hne, hx]
  have hold h x (hx : read_opt store h = some x) : Pointers (read_opt inserted) (fun _ => True) h
      (inserted.blocks h).predecessors := by
    have hne : h ≠ hash := by
      rintro rfl
      rw [hnone] at hx
      cases hx
    have hp := hgrown.pointers h x hx
    rw [update_blocks_ne hne]
    exact ⟨fun i p hi => by
        rw [hgrown.tree.climb_of_extends hext ⟨x, hx⟩]
        exact hp.sound i p hi,
      fun i p hi hclimb hnear => by
        rw [hgrown.tree.climb_of_extends hext ⟨x, hx⟩] at hclimb
        exact hp.complete i p hi hclimb hnear⟩
  have hproper : ∀ n, climb (parent (read_opt inserted)) (n + 1) hash ≠ some hash :=
    fun n => htree.climb_ne_self hmem
  obtain ⟨pointers, hspec, hpointers⟩ := store_predecessors_spec hmem
    (htree.parent_eq hmem hgenesis) (fun _ _ _ _ => trivial) hproper
    (by
      intro n q hq
      obtain ⟨x, hx⟩ := htree.ancestor_mem ⟨n + 1, hq⟩ ⟨_, hmem⟩
      have hne : q ≠ hash := by
        rintro rfl
        exact hproper n hq
      rw [hread, if_neg hne] at hx
      exact hold q x hx)
    (by
      intro i p hi
      rw [update_blocks_self, hgrown.unknown hash hnone i] at hi
      cases hi)
  rw [hspec] at hstore
  cases hstore
  have hsame : read_opt (inserted.update hash fun tables =>
      { tables with predecessors := pointers }) = read_opt inserted := by
    funext h
    rw [read_opt_update]
    exact ite_self _
  refine ⟨by rw [hsame]; exact htree, fun h x hx => ?_, fun h hh i => ?_⟩
  · rw [hsame] at hx ⊢
    by_cases heq : h = hash
    · subst heq
      rw [update_blocks_self]
      exact hpointers
    · rw [update_blocks_ne heq]
      rw [hread, if_neg heq] at hx
      exact hold h x hx
  · rw [hsame, hread] at hh
    split at hh
    next => cases hh
    next hne =>
      rw [update_blocks_ne hne, update_blocks_ne hne]
      exact hgrown.unknown h hh i

/-- The search from a block of a grown store returns the ancestor at the wanted
distance. -/
theorem Grown.predecessor_n_raw_eq (hgrown : Grown store)
    (hb : read_opt store b = some header) (d : Nat) :
    predecessor_n_raw store b d = .ok (climb (parent (read_opt store)) d b) := by
  have hpointers q (hq : Ancestor (parent (read_opt store)) q b) : Pointers (read_opt store)
      (fun _ => True) q (store.blocks q).predecessors := by
    obtain ⟨x, hx⟩ := hgrown.tree.ancestor_mem hq ⟨header, hb⟩
    exact hgrown.pointers q x hx
  unfold predecessor_n_raw
  rw [if_neg (by omega)]
  split
  next hzero =>
    have hd : d = 0 := by omega
    rw [hd, climb_zero]
  next hne =>
    have hpos : 0 < d := by omega
    rw [Int.toNat_natCast]
    congr 1
    cases hclimb : climb (parent (read_opt store)) d b with
    | none => exact loop_eq_none hpos hpointers hclimb
    | some a =>
      exact loop_eq_some (fun _ _ => trivial) hpos (fun q _ hq => hpointers q hq) hclimb

/-- Every ancestor of a block is found along the pointers, at whatever distance,
and nothing beyond the first block is. -/
theorem predecessor_n_raw_of_insertions {store : Block_store}
    (hrun : Relation.ReflTransGen Insertion (Locked_block.store_genesis Block_store.empty) store)
    (b : Block_hash) (hb : Header.known store b = true) :
    ∃ n, climb (parent (read_opt store)) n b = some Chain_env.genesis.block ∧
      ∀ d : Nat, predecessor_n_raw store b d = .ok (climb (parent (read_opt store)) d b) ∧
        ((climb (parent (read_opt store)) d b).isSome ↔ d ≤ n) := by
  have hgrown : Grown store :=
    hrun.preserves (fun _ _ hstep hgrown => hgrown.insert hstep) grown_genesis
  obtain ⟨header, hheader⟩ := known_iff.mp hb
  obtain ⟨n, hn⟩ := hgrown.tree.rooted b header hheader
  refine ⟨n, hn, fun d => ⟨hgrown.predecessor_n_raw_eq hheader d, ?_⟩⟩
  constructor
  · intro hsome
    by_contra hlt
    have hstop : climb (parent (read_opt store)) (n + 1) b = none := by
      rw [climb_add, hn, bind_some, climb_one, hgrown.tree.parent_genesis]
    rw [climb_eq_none_of_le hstop (by omega)] at hsome
    cases hsome
  · intro hle
    obtain ⟨a, ha, -⟩ := exists_climb_of_le hn hle
    rw [ha]
    rfl

/-- A block above `predecessor` without operations. -/
def bare_contents (level : Nat) (predecessor : Block_hash) : Contents where
  header :=
    { shell :=
        { level, proto_level := 0, predecessor, timestamp := level, validation_passes := 0,
          operations_hash := 0, fitness := [], context := 0 }
      protocol_data := [] }
  message := none
  max_operations_ttl := 0
  last_allowed_fork_level := 0
  context := 0
  metadata := []

omit [Chain_env] in
theorem predecessor_n_raw_of_two_insertions :
    let _ := Chain_env.numbered
    ∃ store, Header.known store 2 = true ∧
      ∃ n, climb (parent (read_opt store)) n 2 = some Chain_env.genesis.block ∧
        ∀ d : Nat, predecessor_n_raw store 2 d = .ok (climb (parent (read_opt store)) d 2) ∧
          ((climb (parent (read_opt store)) d 2).isSome ↔ d ≤ n) := by
  intro _
  obtain ⟨store1, hfirst⟩ : ∃ store1,
      store_predecessors ((Locked_block.store_genesis Block_store.empty).update 1 fun tables =>
        { tables with contents := some (bare_contents 1 0) }) 1 = .ok store1 := ⟨_, rfl⟩
  obtain ⟨store2, hsecond, hstore2⟩ : ∃ store2,
      store_predecessors (store1.update 2 fun tables =>
        { tables with contents := some (bare_contents 2 1) }) 2 = .ok store2 ∧
      Header.known store2 2 = true := by
    cases hfirst
    exact ⟨_, rfl, rfl⟩
  have hrun1 := Insertion.insert 1 (bare_contents 1 0) rfl rfl hfirst
  have hrun2 := Insertion.insert 2 (bare_contents 2 1) (by cases hfirst; rfl) (by cases hfirst; rfl)
    hsecond
  exact ⟨store2, hstore2, predecessor_n_raw_of_insertions (.tail (.single hrun1) hrun2) 2 hstore2⟩

end plexus.state
