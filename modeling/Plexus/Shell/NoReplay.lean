import Plexus.Shell.BlockValidation

/-! No operation is included twice on a chain of validated blocks. -/

namespace plexus.block_validation

open List

open Result (bind_inv)
open Ancestry state

variable [Validation_env]


variable {u : Unit}

omit [Validation_env] in
theorem fail_unless_eq_ok {E : Type} {cond : Prop} [Decidable cond] {block : Block_hash}
    {err : Block_error E} (h : fail_unless cond (invalid_block block err) = .ok u) : cond := by
  unfold fail_unless at h
  split at h
  next hcond => exact hcond
  next => cases h

/-- Both promises succeed. -/
theorem join_eq_ok {tx tl : Tzresult error Unit} (h : join tx tl = .ok u) :
    tx = .ok () ∧ tl = .ok () := by
  unfold join at h
  split at h
  next => exact ⟨rfl, rfl⟩
  all_goals cases h

variable {α : Type} {i : Nat}

/-- Checks over two lists pass only when the lists have the same length. -/
theorem iteri2_p_length {β : Type} {f : Nat → α → β → Tzresult error Unit} {l1 : List α}
    {l2 : List β} (h : iteri2_p f i l1 l2 = .ok u) : l1.length = l2.length := by
  induction l1 generalizing i l2 with
  | nil =>
    cases l2 with
    | nil => rfl
    | cons => cases h
  | cons x1 l1 ih =>
    cases l2 with
    | nil => cases h
    | cons x2 l2 =>
      rw [iteri2_p] at h
      obtain ⟨-, htail⟩ := join_eq_ok h
      rw [length_cons, length_cons, ih htail]

/-- What the shell has checked of a block that is applied. -/
structure Checked (env : Apply_environment) (block_header : Block_header)
    (operations : List (List Operation)) (applied : Applied) : Prop where
  level : env.predecessor_block_header.shell.level + 1 = block_header.shell.level
  timestamp : env.predecessor_block_header.shell.timestamp < block_header.shell.timestamp
  fitness : Fitness.compare env.predecessor_block_header.shell.fitness
    block_header.shell.fitness = .lt
  passes : block_header.shell.validation_passes = operations.length
  ttl : applied.validation_store.max_operations_ttl ≤ env.max_operations_ttl + 1

variable {operations : List (List Operation)}

/-- What is checked before a block is applied. -/
theorem apply_block_with_eq_ok {Proto : Registered_protocol Context error} {env : Apply_environment}
    {block_header : Block_header} {applied : Applied}
    (h : apply_block_with Proto env block_header operations = .ok applied) :
    Checked env block_header operations applied := by
  obtain ⟨_, hheader, h⟩ := bind_inv h
  obtain ⟨_, -, h⟩ := bind_inv h
  obtain ⟨_, hquota, h⟩ := bind_inv h
  obtain ⟨_, -, h⟩ := bind_inv h
  obtain ⟨⟨_, _, _⟩, -, h⟩ := bind_inv h
  obtain ⟨_, -, h⟩ := bind_inv h
  obtain ⟨_, -, h⟩ := bind_inv h
  obtain ⟨_, -, h⟩ := bind_inv h
  obtain ⟨_, -, h⟩ := bind_inv h
  obtain ⟨_, -, h⟩ := bind_inv h
  cases h
  obtain ⟨_, hlevel, hheader⟩ := bind_inv hheader
  obtain ⟨_, htime, hheader⟩ := bind_inv hheader
  obtain ⟨_, hfitness, hpasses⟩ := bind_inv hheader
  have hlength := iteri2_p_length hquota
  refine ⟨fail_unless_eq_ok hlevel, fail_unless_eq_ok htime, fail_unless_eq_ok hfitness, ?_, ?_⟩
  · rw [fail_unless_eq_ok hpasses, hlength]
  · dsimp only
    omega

/-- Whatever the protocol of the predecessor. -/
theorem apply_eq_ok {env : Apply_environment} {block_header : Block_header} {applied : Applied}
    (h : apply env block_header operations = .ok applied) :
    Checked env block_header operations applied := by
  unfold apply at h
  dsimp only at h
  split at h
  next => cases h
  next Proto _ =>
    split at h
    next => cases h
    next => exact apply_block_with_eq_ok h

/-- The operations of a block are new, one by one. -/
theorem assert_no_duplicate_operations_eq_ok {block_hash : Block_hash}
    {live live' : Finset Operation_hash}
    (h : assert_no_duplicate_operations block_hash live operations = .ok live') :
    (operations.flatten.map Chain_env.operation_hash).Nodup ∧
      ∀ op ∈ operations.flatten, Chain_env.operation_hash op ∉ live := by
  have hflat : (operations.flatMap id).foldlM (fun live_operations op =>
      if Chain_env.operation_hash op ∈ live_operations then
        invalid_block block_hash (.Replayed_operation (Chain_env.operation_hash op))
      else .ok (insert (Chain_env.operation_hash op) live_operations)) live =
        (.ok live' : Tzresult error (Finset Operation_hash)) := by
    rw [Result.foldlM_flatMap]
    exact h
  rw [flatMap_id] at hflat
  clear h
  generalize operations.flatten = ops at hflat
  induction ops generalizing live with
  | nil => exact ⟨nodup_nil, fun op hop => by cases hop⟩
  | cons op ops ih =>
    rw [foldlM_cons] at hflat
    obtain ⟨next, hop, hflat⟩ := bind_inv hflat
    split at hop
    next => cases hop
    next hnew =>
      cases hop
      obtain ⟨hnodup, hfresh⟩ := ih hflat
      rw [map_cons, nodup_cons, mem_map]
      refine ⟨⟨?_, hnodup⟩, fun op' hop' => ?_⟩
      · rintro ⟨op', hop', heq⟩
        exact hfresh op' hop' (by rw [heq]; exact Finset.mem_insert_self _ _)
      · cases hop' with
        | head => exact hnew
        | tail _ hop' => exact fun hlive => hfresh op' hop' (Finset.mem_insert_of_mem hlive)

/-- Every operation has a live branch. -/
theorem assert_operation_liveness_eq_ok {block_hash : Block_hash} {live : Finset Block_hash}
    (h : assert_operation_liveness block_hash live operations = .ok u) :
    ∀ op ∈ operations.flatten, op.branch ∈ live := by
  intro op hop
  obtain ⟨ops, hops, hop⟩ := mem_flatten.mp hop
  have hcheck := Result.forM_eq_ok (Result.forM_eq_ok h ops hops) op hop
  split at hcheck
  next => cases hcheck
  next hlive => exact not_not.mp hlive

/-- The head is stored, and the live sets kept with it are its own. -/
structure Live (chain_state : Chain_state) : Prop where
  head : Stored chain_state.block_store chain_state.data.current_head
  live : ∀ ttl, Block.max_operations_ttl chain_state.block_store chain_state.data.current_head =
      .ok ttl →
    chain_traversal.live_blocks chain_state.block_store chain_state.data.current_head ttl =
      .ok (chain_state.data.live_blocks, chain_state.data.live_operations)

/-- The block has been accepted by validation and is stored with its operations
and with the lifetime computed for it. -/
def Accepted (store : Block_store) (b : Block) : Prop :=
  ∃ (s : Chain_state) (env : Apply_environment) (predecessor : Block)
    (operations : List (List Operation)) (applied : Applied) (contents : Contents),
    s.block_store = store ∧ Live s ∧ Block.predecessor store b = some predecessor ∧
      apply_block s env predecessor b.header operations = .ok applied ∧
      (store.blocks b.hash).contents = some contents ∧
      contents.max_operations_ttl = applied.validation_store.max_operations_ttl ∧
      ∀ i, (store.blocks b.hash).operation_hashes i =
        operations[i]?.map (·.map Chain_env.operation_hash)

theorem lift_eq_ok {trace : List (Error error)} {x : state.Tzresult α} {a : α}
    (h : lift trace x = .ok a) : x = .ok a := by
  cases x with
  | ok b =>
    cases h
    rfl
  | error => cases h
  | raise => cases h
  | div => cases h

/-- The operations of an accepted block: not twice in the block, in none of the
blocks of the window below it, and made for a block of that window. -/
structure Fresh (store : Block_store) (b : Block) (predecessor : Block) (ttl : Nat)
    (operations : List (List Operation)) (live : Finset Block_hash × Finset Operation_hash) :
    Prop where
  stored : ∀ i, (store.blocks b.hash).operation_hashes i =
    operations[i]?.map (·.map Chain_env.operation_hash)
  passes : b.header.shell.validation_passes = operations.length
  window : chain_traversal.live_blocks store predecessor ttl = .ok live
  nodup : (operations.flatten.map Chain_env.operation_hash).Nodup
  new : ∀ op ∈ operations.flatten, Chain_env.operation_hash op ∉ live.2
  alive : ∀ op ∈ operations.flatten, op.branch ∈ live.1

variable {store : Block_store}

/-- The operations of an accepted block are fresh. -/
theorem Accepted.fresh {b : Block} (hb : Stored store b) (haccepted : Accepted store b) :
    ∃ predecessor ttl operations live, Stored store predecessor ∧
      parent (Header.read_opt store) b.hash = some predecessor.hash ∧
      Fresh store b predecessor ttl operations live := by
  obtain ⟨s, env, predecessor, operations, _, _, rfl, hlive, hpred, happly, -, -,
    htables⟩ := haccepted
  obtain ⟨hstored, hparent⟩ := Block.predecessor_eq_some hb (.refl _) hpred
  obtain ⟨ttl, httl, happly⟩ := bind_inv happly
  obtain ⟨live, hwindow, happly⟩ := bind_inv happly
  obtain ⟨_, hcheck, happly⟩ := bind_inv happly
  obtain ⟨_, hdup, hcheck⟩ := bind_inv hcheck
  have hread : chain_traversal.live_blocks s.block_store predecessor ttl = .ok live := by
    unfold live_sets at hwindow
    dsimp only at hwindow
    split at hwindow
    next hequal =>
      cases hwindow
      rw [← hlive.head.eq_of_hash_eq hstored (Block.equal_iff.mp hequal)]
      apply hlive.live
      rw [hlive.head.eq_of_hash_eq hstored (Block.equal_iff.mp hequal)]
      exact lift_eq_ok httl
    next => exact lift_eq_ok hwindow
  obtain ⟨hnodup, hnew⟩ := assert_no_duplicate_operations_eq_ok hdup
  exact ⟨predecessor, ttl, operations, live, hstored, hparent, htables, (apply_eq_ok happly).passes,
    hread, hnodup, hnew, assert_operation_liveness_eq_ok hcheck⟩

/-- The operation `o` is at position `j` of the pass `i` of the block `k` blocks
below `b`. -/
def Occurs (store : Block_store) (b : Block_hash) (o : Operation_hash) (k i j : Nat) : Prop :=
  ∃ x ops, climb (parent (Header.read_opt store)) k b = some x ∧
    (store.blocks x).operation_hashes i = some ops ∧ ops[j]? = some o

omit [Validation_env] in
/-- A list of lists without repetition has every element at one place. -/
theorem position_unique {L : List (List α)} (hnodup : L.flatten.Nodup) {i' j j' : Nat}
    {l l' : List α} {a : α} (hi : L[i]? = some l) (hj : l[j]? = some a) (hi' : L[i']? = some l')
    (hj' : l'[j']? = some a) : i = i' ∧ j = j' := by
  rw [nodup_flatten] at hnodup
  obtain ⟨hinner, hdisjoint⟩ := hnodup
  have heq : i = i' := by
    by_contra hne
    obtain ⟨hlt, rfl⟩ := List.getElem?_eq_some_iff.mp hi
    obtain ⟨hlt', rfl⟩ := List.getElem?_eq_some_iff.mp hi'
    have hapart := pairwise_iff_getElem.mp hdisjoint
    obtain hless | hless := Nat.lt_or_gt_of_ne hne
    · exact hapart i i' hlt hlt' hless (mem_of_getElem? hj) (mem_of_getElem? hj')
    · exact hapart i' i hlt' hlt hless (mem_of_getElem? hj') (mem_of_getElem? hj)
  subst heq
  rw [hi] at hi'
  cases hi'
  refine ⟨rfl, ?_⟩
  obtain ⟨hlt, -⟩ := List.getElem?_eq_some_iff.mp hj
  exact (getElem?_inj hlt (hinner l (mem_of_getElem? hi))).mp (hj.trans hj'.symm)

/-- The stored hash at a position is that of an operation of the block. -/
theorem Fresh.mem {b predecessor : Block} {ttl j : Nat}
    {live : Finset Block_hash × Finset Operation_hash} {ops : List Operation_hash}
    {o : Operation_hash} (h : Fresh store b predecessor ttl operations live)
    (hops : (store.blocks b.hash).operation_hashes i = some ops) (ho : ops[j]? = some o) :
    i < operations.length ∧ ∃ op ∈ operations.flatten, Chain_env.operation_hash op = o := by
  rw [h.stored, Option.map_eq_some_iff] at hops
  obtain ⟨pass, hpass, rfl⟩ := hops
  obtain ⟨op, hop, rfl⟩ := mem_map.mp (mem_of_getElem? ho)
  obtain ⟨hlt, -⟩ := List.getElem?_eq_some_iff.mp hpass
  exact ⟨hlt, op, mem_flatten.mpr ⟨pass, mem_of_getElem? hpass, hop⟩, rfl⟩

/-- No operation is in a block and again in a block below it. The operation is
made for a block below the lower of the two, so that the window in which that
block is still live has the lower block too, with its operations. -/
theorem not_occurs_below (htree : Tree (Header.read_opt store))
    (haccepted : ∀ b, Stored store b → b.hash ≠ Chain_env.genesis.block → Accepted store b)
    {upper lower : Block} {d i' j j' : Nat} {ops ops' : List Operation_hash} {o : Operation_hash}
    (hupper : Stored store upper) (hlower : Stored store lower)
    (hlowerGenesis : lower.hash ≠ Chain_env.genesis.block)
    (hclimb : climb (parent (Header.read_opt store)) (d + 1) upper.hash = some lower.hash)
    (hops : (store.blocks upper.hash).operation_hashes i = some ops) (ho : ops[j]? = some o)
    (hops' : (store.blocks lower.hash).operation_hashes i' = some ops') (ho' : ops'[j']? = some o) :
    False := by
  have hupperGenesis : upper.hash ≠ Chain_env.genesis.block := by
    intro heq
    rw [climb_succ, heq, htree.parent_genesis] at hclimb
    cases hclimb
  obtain ⟨p, ttl, operations, _, hp, hparent, hfresh⟩ :=
    (haccepted upper hupper hupperGenesis).fresh hupper
  obtain ⟨p', _, _, _, hp', hparent', hfresh'⟩ :=
    (haccepted lower hlower hlowerGenesis).fresh hlower
  obtain ⟨-, op, hop, hhash⟩ := hfresh.mem hops ho
  obtain ⟨hi', op', hop', hhash'⟩ := hfresh'.mem hops' ho'
  have hsame : op = op' := Chain_env.operation_hash_injective (hhash.trans hhash'.symm)
  subst hsame
  have hwindow := live_blocks.loop_eq_ok htree (.refl store) hp hfresh.window
  have hwindow' := live_blocks.loop_eq_ok htree (.refl store) hp' hfresh'.window
  rw [climb_succ, hparent, Option.bind_some] at hclimb
  obtain hnone | ⟨m, hm, hbranch⟩ := (hwindow.blocks op.branch).mp (hfresh.alive op hop)
  · exact absurd hnone (Finset.notMem_empty _)
  obtain hnone | ⟨m', -, hbranch'⟩ := (hwindow'.blocks op.branch).mp (hfresh'.alive op hop')
  · exact absurd hnone (Finset.notMem_empty _)
  have hfar : climb (parent (Header.read_opt store)) (d + (m' + 1)) p.hash = some op.branch := by
    apply climb_trans hclimb
    rw [climb_succ, hparent', Option.bind_some, hbranch']
  have hdistance : m = d + (m' + 1) := htree.climb_inj hbranch hfar
  apply hfresh.new op hop
  rw [hhash]
  exact hwindow.operations d (by omega) lower.hash lower.header i' ops' hclimb hlower
    (by rw [hfresh'.passes]; exact hi') hops' o (mem_of_getElem? ho')

/-- On a chain of accepted blocks every operation has one position. -/
theorem no_operation_twice {store : Block_store} (htree : Tree (Header.read_opt store))
    (hgenesis : ∀ i, (store.blocks Chain_env.genesis.block).operation_hashes i = none)
    (haccepted : ∀ b, Stored store b → b.hash ≠ Chain_env.genesis.block → Accepted store b)
    {b : Block} (hb : Stored store b) {o : Operation_hash} {k i j k' i' j' : Nat}
    (h : Occurs store b.hash o k i j) (h' : Occurs store b.hash o k' i' j') :
    k = k' ∧ i = i' ∧ j = j' := by
  wlog hle : k ≤ k' generalizing k i j k' i' j'
  · obtain ⟨hk, hi, hj⟩ := this h' h (Nat.le_of_not_le hle)
    exact ⟨hk.symm, hi.symm, hj.symm⟩
  obtain ⟨x, ops, hx, hops, ho⟩ := h
  obtain ⟨x', _, hx', hops', ho'⟩ := h'
  obtain ⟨header, hheader⟩ := htree.ancestor_mem ⟨k, hx⟩ ⟨_, hb⟩
  obtain ⟨header', hheader'⟩ := htree.ancestor_mem ⟨k', hx'⟩ ⟨_, hb⟩
  have hxs : Stored store { hash := x, header } := hheader
  have hxs' : Stored store { hash := x', header := header' } := hheader'
  have hxg : x ≠ Chain_env.genesis.block := by
    rintro rfl
    rw [hgenesis] at hops
    cases hops
  have hxg' : x' ≠ Chain_env.genesis.block := by
    rintro rfl
    rw [hgenesis] at hops'
    cases hops'
  obtain ⟨y, hy, hyx⟩ := exists_climb_of_le hx' hle
  rw [hx] at hy
  cases hy
  cases hd : k' - k with
  | zero =>
    rw [hd] at hyx
    cases hyx
    obtain ⟨p, ttl, operations, _, -, -, hfresh⟩ := (haccepted _ hxs hxg).fresh hxs
    have hread n : (store.blocks x).operation_hashes n =
        (operations.map (·.map Chain_env.operation_hash))[n]? := by
      rw [getElem?_map]
      exact hfresh.stored n
    rw [hread] at hops hops'
    have hnodup : (operations.map (·.map Chain_env.operation_hash)).flatten.Nodup := by
      rw [← map_flatten]
      exact hfresh.nodup
    exact ⟨by omega, position_unique hnodup hops ho hops' ho'⟩
  | succ d =>
    rw [hd] at hyx
    exact (not_occurs_below htree haccepted hxs hxs' hxg' hyx hops ho hops' ho').elim

/-- A protocol with one pass that accepts every operation. -/
def plain_protocol : Registered_protocol Unit Unit where
  hash := 0
  validation_state := Unit
  block_header_data := Unit
  block_header_metadata := Unit
  operation_data := Unit
  operation_receipt := Unit
  max_operation_data_length := 0
  validation_passes := [{ max_op := none }]
  block_header_data_of_bytes _ := some ()
  operation_data_of_bytes _ := some ()
  block_header_metadata_to_bytes _ := .ok []
  operation_receipt_to_bytes _ := .ok []
  acceptable_passes _ _ := [0]
  begin_application _ _ _ _ _ _ := .ok ()
  apply_operation _ _ _ := .ok ((), ())
  finalize_block _ := .ok ({
    context := (), fitness := [[1]], message := none, max_operations_ttl := 1,
    last_allowed_fork_level := 0 }, ())
  init _ _ := .error []

@[reducible] def Validation_env.plain : Validation_env :=
  { Chain_env.numbered with
    Context := Unit
    error := Unit
    get_protocol := fun _ => 0
    set_protocol := fun _ _ => ()
    get_test_chain := fun _ => .Not_running
    set_test_chain := fun _ _ => ()
    commit := fun _ _ _ => 0
    compute_testchain_genesis := id
    chain_id_of_block_hash := id
    registered_protocol := fun _ => some plain_protocol
    operation_length := fun _ => 0 }

/-- An operation made for the first block. -/
def plain_operation : Operation := { branch := 0, proto := [] }

/-- A block with that operation above the first one. -/
def plain_contents : Contents :=
  { bare_contents 1 0 with
    header := {
      shell := { (bare_contents 1 0).header.shell with validation_passes := 1, fitness := [[1]] }
      protocol_data := [] }
    max_operations_ttl := 1 }

def plain_store : Block_store :=
  (Locked_block.store_genesis Block_store.empty).update 1 fun tables =>
    { tables with
      contents := some plain_contents
      operation_hashes := fun i => if i = 0 then some [Chain_env.operation_hash plain_operation]
        else none }

omit [Validation_env] in
theorem no_operation_twice_plain :
    let _ := Validation_env.plain
    Occurs plain_store 1 (Chain_env.operation_hash plain_operation) 0 0 0 ∧
      ∀ k i j, Occurs plain_store 1 (Chain_env.operation_hash plain_operation) k i j →
        0 = k ∧ 0 = i ∧ 0 = j := by
  intro _
  have hread h : Header.read_opt plain_store h = if h = 1 then some plain_contents.header else
      Header.read_opt (Locked_block.store_genesis Block_store.empty) h := by
    unfold plain_store
    rw [Header.read_opt_update]
    rfl
  have htree : Tree (Header.read_opt plain_store) :=
    grown_genesis.tree.insert rfl ⟨Locked_block.genesis_header, rfl⟩ hread
  have haccepted b (hb : Stored plain_store b) (hne : b.hash ≠ Chain_env.genesis.block) : Accepted
      plain_store b := by
    have hone : b = { hash := 1, header := plain_contents.header } := by
      unfold Stored at hb
      rw [hread, read_opt_genesis_store, if_neg hne] at hb
      split at hb
      next heq =>
        obtain ⟨hash, header⟩ := b
        cases hb
        cases heq
        rfl
      next => cases hb
    subst hone
    refine ⟨{
        block_store := plain_store
        data := {
          current_head := { hash := 0, header := Locked_block.genesis_header }
          live_blocks := {0}, live_operations := ∅, save_point := (0, 0), caboose := (0, 0) }
        checkpoint := Locked_block.genesis_header
        known_heads := []
        in_main_branch := fun _ => none },
      { max_operations_ttl := 0, chain_id := 0,
        predecessor_block_header := Locked_block.genesis_header, predecessor_context := (),
        user_activated_upgrades := [], user_activated_protocol_overrides := [] },
      { hash := 0, header := Locked_block.genesis_header }, [[plain_operation]], _, plain_contents,
      rfl, ⟨rfl, fun ttl httl => ?_⟩, rfl, rfl, rfl, rfl, fun i => ?_⟩
    · cases httl
      rfl
    · cases i with
      | zero => rfl
      | succ i => rfl
  have hfirst : Occurs plain_store 1 (Chain_env.operation_hash plain_operation) 0 0 0 :=
    ⟨1, _, rfl, rfl, rfl⟩
  have hb : Stored plain_store { hash := 1, header := plain_contents.header } := rfl
  exact ⟨hfirst, fun k i j h => no_operation_twice htree (fun i => rfl) haccepted hb hfirst h⟩

end plexus.block_validation
