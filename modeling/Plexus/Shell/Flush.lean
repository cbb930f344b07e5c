import Plexus.Shell.ChainTraversal
import Plexus.Shell.Sets

/-! The pending operations after a change of head. -/

namespace plexus.shell

open chain_traversal Result List

/-- A block and its ancestors. -/
def Block.chain (b : Block) : List Header := b.header :: b.ancestors

/-- The blocks of a tree: their chains end at one first block, blocks are told apart
by their hashes, and are later than those below them. -/
structure Block_tree (T : Block → Prop) : Prop where
  pred : ∀ a p, T a → predecessor a = some p → T p
  root : ∀ a b, T a → T b → a.chain.getLast? = b.chain.getLast?
  hash : ∀ a b, T a → T b → ∀ x ∈ a.chain, ∀ y ∈ b.chain, x.hash = y.hash → x = y
  same : ∀ a b, T a → T b → a.header = b.header → a = b
  later : ∀ a, T a → a.chain.Pairwise fun x y => y.timestamp < x.timestamp

/-- The part of the chain of `a` above what it shares with that of `b`. -/
def Block.branch (a b : Block) : List Header :=
  a.chain.filter fun header => header.hash ∉ b.chain.map Header.hash

variable {T : Block → Prop} {a b s : Block} {E : Type}

/-- The later one of two blocks is not in the chain of the other. -/
theorem Block_tree.not_mem_chain (hT : Block_tree T) (ha : T a) (hb : T b)
    (hne : a.header.hash ≠ b.header.hash) (hle : a.header.timestamp ≤ b.header.timestamp) :
    b.header.hash ∉ a.chain.map Header.hash ∧ ∃ p, predecessor b = some p := by
  have hnot : b.header.hash ∉ a.chain.map Header.hash := by
    intro hmem
    obtain ⟨header, hheader, heq⟩ := mem_map.mp hmem
    obtain rfl := hT.hash a b ha hb header hheader b.header mem_cons_self heq
    rcases mem_cons.mp hheader with htop | hbelow
    · exact hne (congrArg Header.hash htop.symm)
    · have := rel_of_pairwise_cons (hT.later a ha) hbelow
      omega
  refine ⟨hnot, ?_⟩
  unfold predecessor
  split
  next hroot =>
    have hlast := hT.root a b ha hb
    rw [Block.chain, Block.chain, hroot, getLast?_singleton] at hlast
    exact absurd (mem_map_of_mem (mem_of_getLast? hlast)) hnot
  next => exact ⟨_, rfl⟩

theorem branch_of_predecessor {p : Block} (h : predecessor b = some p)
    (hnot : b.header.hash ∉ a.chain.map Header.hash) :
    b.chain = b.header :: p.chain ∧ a.branch b = a.branch p ∧
      b.branch a = b.header :: p.branch a := by
  have hchain : b.chain = b.header :: p.chain := by
    unfold predecessor at h
    split at h
    next => cases h
    next heq =>
      cases h
      rw [Block.chain, heq]
      rfl
  refine ⟨hchain, filter_congr fun x hx => ?_, ?_⟩
  · have hne : x.hash ≠ b.header.hash := fun heq => hnot (heq ▸ mem_map_of_mem hx)
    simp [hchain, hne]
  · rw [Block.branch, hchain, filter_cons_of_pos (by simpa using hnot)]
    rfl

/-- The block found is the last that both chains have in common. -/
theorem common_ancestor_eq (hT : Block_tree T) (ha : T a) (hb : T b) {fuel : Nat}
    (hfuel : a.chain.length + b.chain.length ≤ fuel + 1) :
    ∃ s, common_ancestor (E := E) fuel a b = .ok s ∧
      a.chain = a.branch b ++ s.chain ∧ b.chain = b.branch a ++ s.chain := by
  induction fuel generalizing a b with
  | zero => simp [Block.chain] at hfuel; omega
  | succ fuel ih =>
    rw [common_ancestor]
    split
    next heq =>
      obtain rfl := hT.same a b ha hb (hT.hash a b ha hb _ mem_cons_self _ mem_cons_self heq)
      have hnone : a.branch a = [] := by
        rw [Block.branch, filter_eq_nil_iff]
        intro x hx
        simpa using ⟨x, hx, rfl⟩
      exact ⟨a, rfl, by simp [hnone], by simp [hnone]⟩
    next hne =>
      split
      next hle =>
        obtain ⟨hnot, p, hp⟩ := hT.not_mem_chain ha hb hne hle
        obtain ⟨hchain, hleft, hright⟩ := branch_of_predecessor hp hnot
        rw [hchain, length_cons] at hfuel
        obtain ⟨s, hs, h⟩ := ih ha (hT.pred b p hb hp) (by omega)
        rw [hp, hchain, hleft, hright]
        exact ⟨s, hs, h.1, congrArg (_ :: ·) h.2⟩
      next hlt =>
        obtain ⟨hnot, p, hp⟩ := hT.not_mem_chain hb ha (Ne.symm hne) (by omega)
        obtain ⟨hchain, hright, hleft⟩ := branch_of_predecessor hp hnot
        rw [hchain, length_cons] at hfuel
        obtain ⟨s, hs, h⟩ := ih (hT.pred a p ha hp) hb (by omega)
        rw [hp, hchain, hleft, hright]
        exact ⟨s, hs, congrArg (_ :: ·) h.1, h.2⟩

variable [Node]

/-- Both walks from a block down to `s` pass the blocks above it. -/
theorem walks_down {above : List Header} {header : Header} {ancestors : List Header}
    (hchain : header :: ancestors = above ++ s.chain)
    (hnot : ∀ x ∈ above, x.hash ≠ s.header.hash) (acc : List Header)
    (mempool : OrderedMap Operation_hash Operation) :
    path s header ancestors acc = some (above.reverse ++ acc) ∧
    prevalidator.pop_blocks (E := E) s.header.hash header ancestors mempool =
      .ok ((above.flatMap (·.operations.flatten)).foldl
        (fun mempool op => mempool.add (Node.hash op) op) mempool) := by
  induction above generalizing header ancestors acc mempool with
  | nil =>
    cases hchain
    rw [path.eq_def, prevalidator.pop_blocks.eq_def, if_pos rfl, if_pos rfl]
    exact ⟨rfl, rfl⟩
  | cons x above ih =>
    obtain ⟨rfl, hrest⟩ := List.cons.inj hchain
    have hne := hnot header mem_cons_self
    cases ancestors with
    | nil => simp [Block.chain] at hrest
    | cons pred ancestors =>
      rw [path.eq_def, prevalidator.pop_blocks.eq_def, if_neg hne, if_neg hne.symm,
        flatMap_cons, foldl_append, reverse_cons, append_assoc]
      exact ih hrest (fun x hx => hnot x (mem_cons_of_mem _ hx)) _ _

/-- Live operations are in live blocks. -/
theorem live_blocks_loop_mem {bacc : Finset Block_hash} {oacc : Finset Operation_hash}
    {header : Header} {ancestors : List Header} {n : Nat}
    {live : Finset Block_hash × Finset Operation_hash}
    (h : live_blocks_loop (E := E) bacc oacc header ancestors n = .ok live) :
    bacc ⊆ live.1 ∧ ∀ k ∈ live.2, k ∈ oacc ∨
      ∃ x ∈ header :: ancestors, x.hash ∈ live.1 ∧ k ∈ operation_hashes x := by
  fun_induction live_blocks_loop bacc oacc header ancestors n with
  | case3 => cases h
  | case4 bacc oacc header n _ _ _ pred ancestors ih =>
    obtain ⟨hblocks, hops⟩ := ih h
    refine ⟨(Finset.subset_insert _ _).trans hblocks, fun k hk => ?_⟩
    rcases hops k hk with hk | ⟨x, hx, hlive, hk⟩
    · refine (mem_foldl_insert.mp hk).imp_right fun hk => ?_
      exact ⟨header, mem_cons_self, hblocks (Finset.mem_insert_self _ _), hk⟩
    · exact .inr ⟨x, mem_cons_of_mem _ hx, hlive, hk⟩
  | _ =>
    cases h
    refine ⟨Finset.subset_insert _ _, fun k hk => ?_⟩
    refine (mem_foldl_insert.mp hk).imp_right fun hk => ?_
    exact ⟨_, mem_cons_self, Finset.mem_insert_self _ _, hk⟩

namespace prevalidator

variable {Proto : Registered_protocol} {filter : Filter Proto} [Rings]

/-- An operation of the old mempool, or of a block that is left. -/
def Returned (pv : Types_state Proto filter) (block : Block) (op : Operation) : Prop :=
  (Node.hash op ∈ pv.applied.map Prod.fst ∨ Node.hash op ∈ pv.branch_delays.keys ∨
    Node.hash op ∈ pv.branch_refusals.keys) ∨
  ∃ header ∈ pv.predecessor.branch block, op ∈ header.operations.flatten

omit [Rings] in
/-- An operation is bound in a mempool if its hash is a key. -/
theorem Keyed.mem_bindings_iff {mempool : OrderedMap Operation_hash Operation} (h : Keyed mempool)
    (hhash : Function.Injective Node.hash) {op : Operation} :
    (Node.hash op, op) ∈ mempool.bindings ↔ Node.hash op ∈ mempool.keys := by
  rw [OrderedMap.mem_keys]
  refine ⟨fun hop => ⟨op, hop⟩, fun ⟨op', hop⟩ => ?_⟩
  rwa [hhash (h _ _ hop)] at hop

omit [Rings] in
/-- The hashes of the new blocks are those of their operations. -/
theorem mem_pushed (hhash : Function.Injective Node.hash) {path : List Header} {op : Operation} :
    Node.hash op ∈ pushed path ↔ ∃ header ∈ path, op ∈ header.operations.flatten := by
  simp only [pushed, mem_flatMap, operation_hashes, mem_map_of_injective hhash]

/-- After a change of head the operations that come back are pending, if they are not in
the new blocks and their branch is live. None of them is live unless one is also in a live
block that both chains share. -/
theorem list_pendings_exact {E : Type} {pv : Types_state Proto filter} {block : Block}
    (hT : Block_tree T) (hold : T pv.predecessor) (hnew : T block)
    (hhash : Function.Injective Node.hash) (hkeyed : Keyed (operations pv))
    {live : Finset Block_hash × Finset Operation_hash}
    (hlive : live_blocks (E := E) block block.header.max_operations_ttl = .ok live) :
    ∃ pending, list_pendings (E := E) pv.predecessor block live.1 (operations pv) = .ok pending ∧
      (∀ k op, (k, op) ∈ pending.bindings ↔ k = Node.hash op ∧ Returned pv block op ∧
        (∀ header ∈ block.branch pv.predecessor, op ∉ header.operations.flatten) ∧
        op.branch ∈ live.1) ∧
      ((∀ op, Returned pv block op → ∀ header ∈ block.chain, header.hash ∈ live.1 →
          header.hash ∈ pv.predecessor.chain.map Header.hash → op ∉ header.operations.flatten) →
        ∀ k ∈ pending.keys, k ∉ live.2) := by
  have hfuel : pv.predecessor.chain.length + block.chain.length ≤
      pv.predecessor.ancestors.length + block.ancestors.length + 1 + 1 := by
    simp only [Block.chain, length_cons]
    omega
  obtain ⟨s, hs, hleft, hright⟩ := common_ancestor_eq hT hold hnew hfuel
  have habove {a b : Block} (hb : b.chain = b.branch a ++ s.chain) : ∀ x ∈ a.branch b, x.hash ≠
      s.header.hash := by
    intro x hx heq
    have hnot : x.hash ∉ b.chain.map Header.hash := by simpa using (mem_filter.mp hx).2
    rw [heq, hb] at hnot
    exact hnot (mem_map_of_mem (mem_append_right _ mem_cons_self))
  obtain ⟨hpath, -⟩ := walks_down (E := E) hright (habove hleft) [] .empty
  obtain ⟨-, hpop⟩ := walks_down hleft (habove hright) [] (operations pv)
  have hkeyed' := OrderedMap.forall_bindings_foldl_add (fun op => (Node.hash op, op))
    ((pv.predecessor.branch block).flatMap (·.operations.flatten)) _ hkeyed fun _ _ => rfl
  have hkeys := OrderedMap.mem_keys_foldl_add (fun op => (Node.hash op, op))
    ((pv.predecessor.branch block).flatMap (·.operations.flatten)) (operations pv)
  generalize ((pv.predecessor.branch block).flatMap (·.operations.flatten)).foldl _ _ = mempool
    at hpop hkeyed' hkeys
  have hbindings op : (Node.hash op, op) ∈ mempool.bindings ↔ Returned pv block op := by
    rw [Keyed.mem_bindings_iff hkeyed' hhash, hkeys, mem_operations_keys, Returned]
    simp only [hhash.eq_iff, exists_eq_right, mem_flatMap]
  have hpushed op : Node.hash op ∈ pushed (block.branch pv.predecessor).reverse ↔ ∃ header ∈
      block.branch pv.predecessor, op ∈ header.operations.flatten := by
    simp only [mem_pushed hhash, mem_reverse]
  have hpending : list_pendings (E := E) pv.predecessor block live.1 (operations pv) =
      .ok (((block.branch pv.predecessor).reverse.foldl push_block mempool).filter
        fun _ op => op.branch ∈ live.1) := by
    rw [list_pendings, new_blocks, hs, bind_ok, hpath, append_nil]
    dsimp only
    rw [pure_eq, bind_ok, hpop]
    rfl
  have hexact k op : (k, op) ∈ (((block.branch pv.predecessor).reverse.foldl push_block
      mempool).filter fun _ op => op.branch ∈ live.1).bindings ↔ k = Node.hash op ∧ Returned pv
      block op ∧ (∀ header ∈ block.branch pv.predecessor, op ∉ header.operations.flatten) ∧
      op.branch ∈ live.1 := by
    rw [OrderedMap.mem_bindings_filter, mem_push_blocks, decide_eq_true_eq, and_assoc]
    constructor
    · rintro ⟨hmem, hnot, hbranch⟩
      obtain rfl := hkeyed' k op hmem
      rw [hpushed, not_exists] at hnot
      exact ⟨rfl, (hbindings op).mp hmem, fun header hheader h => hnot header ⟨hheader, h⟩, hbranch⟩
    · rintro ⟨rfl, hreturned, hnot, hbranch⟩
      refine ⟨(hbindings op).mpr hreturned, fun h => ?_, hbranch⟩
      obtain ⟨header, hheader, hop⟩ := (hpushed op).mp h
      exact hnot header hheader hop
  refine ⟨_, hpending, hexact, fun hshared k hk hlivek => ?_⟩
  obtain ⟨op, hop⟩ := OrderedMap.mem_keys.mp hk
  obtain ⟨rfl, hreturned, hnot, -⟩ := (hexact k op).mp hop
  rcases (live_blocks_loop_mem hlive).2 _ hlivek with hempty | ⟨header, hheader, hblock, hmem⟩
  · cases hempty
  · replace hmem := (mem_map_of_injective hhash).mp hmem
    by_cases hcommon : header.hash ∈ pv.predecessor.chain.map Header.hash
    · exact hshared op hreturned header hheader hblock hcommon hmem
    · exact hnot header (mem_filter.mpr ⟨hheader, by simpa using hcommon⟩) hmem

omit [Node] [Rings]

@[reducible] def collision_free : Node :=
  { two_blocks with hash op := Encodable.encode (op.branch, op.proto.map UInt8.toNat) }

theorem collision_free_injective : Function.Injective collision_free.hash := by
  rintro ⟨_, _⟩ ⟨_, _⟩ h
  obtain ⟨hbranch, hproto⟩ := Prod.mk.inj (Encodable.encode_injective h)
  exact congr (congrArg Operation.mk hbranch) (state.toNat_map_injective hproto)

/-- The first blocks of a chain. The second one has an operation. -/
def shared : List Header := [⟨1, 60, [[⟨0, [7]⟩]], 2⟩, ⟨0, 0, [], 2⟩]

/-- Three more blocks, the lowest of which has another one. -/
def high : Block := ⟨⟨4, 240, [], 2⟩, ⟨3, 180, [], 2⟩ :: ⟨2, 120, [[⟨1, [8]⟩]], 2⟩ :: shared⟩

/-- One more block, later than these. -/
def low : Block := ⟨⟨5, 300, [], 2⟩, shared⟩

/-- Both branches. -/
def fork : List Block :=
  [high, ⟨⟨3, 180, [], 2⟩, ⟨2, 120, [[⟨1, [8]⟩]], 2⟩ :: shared⟩,
    ⟨⟨2, 120, [[⟨1, [8]⟩]], 2⟩, shared⟩, low, ⟨⟨1, 60, [[⟨0, [7]⟩]], 2⟩, [⟨0, 0, [], 2⟩]⟩,
    ⟨⟨0, 0, [], 2⟩, []⟩]

theorem block_tree_fork : Block_tree (· ∈ fork) := by
  have hpred : ∀ a ∈ fork, ∀ p ∈ predecessor a, p ∈ fork := by decide
  have hroot : ∀ a ∈ fork, ∀ b ∈ fork, a.chain.getLast? = b.chain.getLast? := by decide
  have hhash : ∀ a ∈ fork, ∀ b ∈ fork, ∀ x ∈ a.chain, ∀ y ∈ b.chain, x.hash = y.hash → x = y := by
    decide +kernel
  have hsame : ∀ a ∈ fork, ∀ b ∈ fork, a.header = b.header → a = b := by decide
  have hlater : ∀ a ∈ fork, a.chain.Pairwise fun x y => y.timestamp < x.timestamp := by decide
  exact ⟨fun a p ha => hpred a ha p, fun a b ha => hroot a ha b, fun a b ha => hhash a ha b,
    fun a b ha => hsame a ha b, hlater⟩

/-- A mempool on top of the high branch, with one operation. -/
def on_high : Types_state single_operation (no_filter single_operation) :=
  { (started 50 .empty).state with
    predecessor := high
    applied := [(Node.hash ⟨1, [9]⟩, ⟨1, [9]⟩)] }

/-- The operation of the mempool and that of the block that is left are pending. -/
theorem list_pendings_on_high :
    let _ := collision_free
    let _ := queues
    ∃ live pending, live_blocks (E := Unit) low 2 = .ok live ∧
      list_pendings (E := Unit) on_high.predecessor low live.1 (operations on_high) =
        .ok pending ∧
      (∀ op : Operation, op = ⟨1, [9]⟩ ∨ op = ⟨1, [8]⟩ → (Node.hash op, op) ∈ pending.bindings) ∧
      ∀ k ∈ pending.keys, k ∉ live.2 := by
  intro _ _
  obtain ⟨live, hlive, hblocks⟩ : ∃ live, live_blocks low 2 = .ok live ∧ live.1 = {5, 1, 0} :=
    ⟨_, rfl, by decide⟩
  have hkeyed : Keyed (operations on_high) := by
    intro k op h
    cases mem_singleton.mp h
    rfl
  obtain ⟨pending, hpending, hexact, hnot⟩ := list_pendings_exact block_tree_fork
    (show high ∈ fork by decide) (show low ∈ fork by decide) collision_free_injective hkeyed hlive
  have hreturned op (h : Returned on_high low op) : op = ⟨1, [9]⟩ ∨ op = ⟨1, [8]⟩ := by
    rcases h with (h | h | h) | ⟨header, hheader, hop⟩
    · exact .inl (collision_free_injective (mem_singleton.mp h))
    · cases h
    · cases h
    · have hleft : ∀ header ∈ high.branch low, ∀ op ∈ header.operations.flatten, op = ⟨1, [8]⟩ := by
        decide
      exact .inr (hleft header hheader op hop)
  refine ⟨live, pending, hlive, hpending, ?_, hnot ?_⟩
  · have hnew : ∀ header ∈ low.branch high, header.operations.flatten = [] := by decide
    have hpushed op : ∀ header ∈ low.branch high, op ∉ header.operations.flatten := by
      intro header hheader
      rw [hnew header hheader]
      exact not_mem_nil
    rintro op (rfl | rfl)
    · exact (hexact _ _).mpr ⟨rfl, .inl (.inl mem_cons_self), hpushed _, by rw [hblocks]; decide⟩
    · refine (hexact _ _).mpr ⟨rfl, .inr ?_, hpushed _, by rw [hblocks]; decide⟩
      exact ⟨⟨2, 120, [[⟨1, [8]⟩]], 2⟩, by decide, by decide⟩
  · have hkept : ∀ header ∈ low.chain, (⟨1, [9]⟩ : Operation) ∉ header.operations.flatten ∧
        (⟨1, [8]⟩ : Operation) ∉ header.operations.flatten := by
      decide
    intro op hop header hheader _ _
    rcases hreturned op hop with rfl | rfl
    · exact (hkept header hheader).1
    · exact (hkept header hheader).2

/-- A peer sends the operation of the second block again, whose branch is too old
for the high branch. It is pending after a change to the low one, where it is
live. -/
theorem list_pendings_live :
    let _ := collision_free
    let _ := queues
    let op : Operation := ⟨0, [7]⟩
    ∃ w : Worker single_operation (no_filter single_operation), ∃ live pending,
      Reached (fun _ _ _ => True) w ∧ w.state.predecessor = high ∧
      live_blocks (E := Unit) low 2 = .ok live ∧
      list_pendings (E := Unit) w.state.predecessor low live.1 (operations w.state) = .ok pending ∧
      Node.hash op ∈ pending.keys ∧ Node.hash op ∈ live.2 := by
  intro _ _ op
  have hreturns : (do
      let live ← live_blocks high 2
      let w0 : Worker single_operation (no_filter single_operation) ←
        on_launch ⟨2, 50, by decide⟩ high Mempool.empty live.1 live.2 0
      let w1 ← on_request w0 0 (.Notify 0 ⟨[Node.hash op], ∅⟩)
      let w2 ← on_request { w1 with fetches := w1.fetches.erase (Node.hash op) } 0
        (.Arrived (Node.hash op) op)
      let live' ← live_blocks low 2
      let pending ← list_pendings w2.state.predecessor low live'.1 (operations w2.state)
      return (w0.requests.isEmpty && w1.requests.isEmpty &&
        decide (Node.hash op ∈ w1.fetches) && decide (w2.state.predecessor = high) &&
        decide (Node.hash op ∈ pending.keys) && decide (Node.hash op ∈ live'.2)) :
          Tzresult single_operation.error Bool).returns id = true := by
    decide +kernel
  obtain ⟨_, h, htest⟩ := returns_iff.mp hreturns
  obtain ⟨live, _, h⟩ := bind_inv h
  obtain ⟨w0, hlaunch, h⟩ := bind_inv h
  obtain ⟨w1, hnotify, h⟩ := bind_inv h
  obtain ⟨w2, harrived, h⟩ := bind_inv h
  obtain ⟨live', hlive, h⟩ := bind_inv h
  obtain ⟨pending, hpending, h⟩ := bind_inv h
  cases h
  simp only [id_eq, Bool.and_eq_true, List.isEmpty_iff, decide_eq_true_eq] at htest
  obtain ⟨⟨⟨⟨⟨hidle0, hidle1⟩, hfetch⟩, hpredecessor⟩, hkey⟩, hagain⟩ := htest
  have hnotified : Reached (fun _ _ _ => True) w1 :=
    .request (.launch (by simp [Mempool.empty]) hlaunch) hidle0 (by simp) trivial hnotify
  exact ⟨w2, live', pending, hnotified.arrived hidle1 hfetch trivial harrived, hpredecessor, hlive,
    hpending, hkey, hagain⟩

end prevalidator

end plexus.shell
