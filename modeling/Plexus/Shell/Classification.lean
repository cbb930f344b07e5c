import Plexus.Shell.Prevalidator

/-! What happens to the pending operations when a batch of them is handled. -/

namespace plexus.shell

open List

variable {α β : Type}

/-- A negative bound is no bound. -/
theorem fold_left_s_n_of_neg {n : ℤ} (hn : n < 0) (f : α → β → α) (acc : α) (l : List β) :
    fold_left_s_n n f acc l = (l.foldl f acc, []) := by
  induction l generalizing n acc with
  | nil =>
    unfold fold_left_s_n
    rw [if_neg (by omega)]
    rfl
  | cons x l ih =>
    unfold fold_left_s_n
    rw [if_neg (by omega)]
    exact ih (by omega) (f acc x)

theorem fold_left_s_n_of_nonneg (n : Nat) (f : α → β → α) (acc : α) (l : List β) :
    fold_left_s_n (n : ℤ) f acc l = ((l.take n).foldl f acc, l.drop n) := by
  induction l generalizing n acc with
  | nil =>
    unfold fold_left_s_n
    split <;> simp
  | cons x l ih =>
    unfold fold_left_s_n
    cases n with
    | zero => simp
    | succ n =>
      rw [if_neg (by omega)]
      have hpred : ((n + 1 : Nat) : ℤ) - 1 = (n : ℤ) := by omega
      dsimp only
      rw [hpred, ih]
      rfl

/-- The number of operations in a batch. -/
def batch_length (n : ℤ) (total : Nat) : Nat := if n < 0 then total else n.toNat

/-- The fold goes through the batch and returns the others. -/
theorem fold_left_s_n_eq (n : ℤ) (f : α → β → α) (acc : α) (l : List β) :
    fold_left_s_n n f acc l =
      ((l.take (batch_length n l.length)).foldl f acc, l.drop (batch_length n l.length)) := by
  unfold batch_length
  by_cases hn : n < 0
  · rw [if_pos hn, fold_left_s_n_of_neg hn]
    simp
  · rw [if_neg hn]
    have hcast : (n.toNat : ℤ) = n := by omega
    rw [← fold_left_s_n_of_nonneg, hcast]

namespace prevalidator

open prevalidation

variable {Proto : Registered_protocol} {filter : Filter Proto} [Node] [Rings]

/-- What one operation of a batch does to the state of the worker and to the
accumulated validation state. -/
inductive Classified (state : T Proto) (op : Operation) (pv : Types_state Proto filter) (s : T Proto) :
    Types_state Proto filter → T Proto → Class → Prop
  | applied {parsed : Parsed Proto} {s' : T Proto} {receipt : Proto.operation_receipt}
      (hparse : parse Proto op = .ok parsed)
      (happly : apply_operation state parsed = .Applied s' receipt)
      (haccept : (post_filter pv s.state s'.state parsed.protocol_data receipt &&
        decide (pv.applied_count ≤ 2000) || is_endorsement parsed) = true) :
      Classified state op pv s
        { pv with
          applied := (Node.hash op, op) :: pv.applied
          in_mempool := insert (Node.hash op) pv.in_mempool } s' .Applied
  | dropped {c : Class} (hc : c = .Filtered ∨ c = .Duplicate ∨ c = .Outdated) :
      Classified state op pv s pv s c
  | branch_delayed (errors : List (Error Proto.error)) :
      Classified state op pv s (add_branch_delay pv op (Node.hash op) errors) s .Branch_delayed
  | branch_refused (errors : List (Error Proto.error)) :
      Classified state op pv s (add_branch_refusal pv op (Node.hash op) errors) s .Branch_refused
  | refused (errors : List (Error Proto.error)) :
      Classified state op pv s (add_refusal pv op (Node.hash op) errors) s .Refused

/-- A map without the operation that the ring has given up. -/
def evict (map : Refusals Proto) : Option Operation_hash → Refusals Proto
  | some e => map.remove e
  | none => map

/-- A set without the operation that the ring has given up. -/
def evict_set (set : Finset Operation_hash) : Option Operation_hash → Finset Operation_hash
  | some e => set.erase e
  | none => set

section

omit [Node]

variable (pv : Types_state Proto filter) (op : Operation) (oph : Operation_hash)
  (errors : List (Error Proto.error))

theorem add_branch_refusal_eq :
    add_branch_refusal pv op oph errors = { pv with
      branch_refused := EvictionRing.add pv.branch_refused oph
      branch_refusals :=
        (evict pv.branch_refusals (EvictionRing.erased pv.branch_refused oph)).add oph (op, errors)
      in_mempool := insert oph (evict_set pv.in_mempool (EvictionRing.erased pv.branch_refused oph)) } := by
  unfold add_branch_refusal EvictionRing.add EvictionRing.erased
  obtain ⟨erased, ring⟩ := EvictionRing.add_and_return_erased pv.branch_refused oph
  cases erased <;> rfl

theorem add_branch_delay_eq :
    add_branch_delay pv op oph errors = { pv with
      branch_delayed := EvictionRing.add pv.branch_delayed oph
      branch_delays :=
        (evict pv.branch_delays (EvictionRing.erased pv.branch_delayed oph)).add oph (op, errors)
      in_mempool := insert oph (evict_set pv.in_mempool (EvictionRing.erased pv.branch_delayed oph)) } := by
  unfold add_branch_delay EvictionRing.add EvictionRing.erased
  obtain ⟨erased, ring⟩ := EvictionRing.add_and_return_erased pv.branch_delayed oph
  cases erased <;> rfl

theorem add_refusal_eq :
    add_refusal pv op oph errors = { pv with
      refused := EvictionRing.add pv.refused oph
      refusals := (evict pv.refusals (EvictionRing.erased pv.refused oph)).add oph (op, errors) } := by
  unfold add_refusal EvictionRing.add EvictionRing.erased
  obtain ⟨erased, ring⟩ := EvictionRing.add_and_return_erased pv.refused oph
  cases erased <;> rfl

section

variable (w : Worker Proto filter)

include w

@[simp] theorem notify_operation_state (kind : Kind) (op : Operation) :
    (notify_operation w kind op).state = w.state := by
  unfold notify_operation
  split <;> rfl

@[simp] theorem notify_operation_requests (kind : Kind) (op : Operation) :
    (notify_operation w kind op).requests = w.requests := by
  unfold notify_operation
  split <;> rfl

@[simp] theorem notify_operation_fetches (kind : Kind) (op : Operation) :
    (notify_operation w kind op).fetches = w.fetches := by
  unfold notify_operation
  split <;> rfl

@[simp] theorem notify_operation_classified (kind : Kind) (op : Operation) :
    (notify_operation w kind op).classified = w.classified := by
  unfold notify_operation
  split <;> rfl

end

end

omit [Rings] in
/-- Parsing keeps the operation and its hash. -/
theorem parse_success {op : Operation} {parsed : Parsed Proto} (h : parse Proto op = .ok parsed) :
    parsed.hash = Node.hash op ∧ parsed.raw = op := by
  unfold parse at h
  dsimp only at h
  split at h
  · cases h
  · split at h
    · cases h
    · cases h
      exact ⟨rfl, rfl⟩

variable {state : T Proto}

namespace Batch

omit [Node] in
@[simp] theorem advertise_endorsement_w (acc : Batch Proto filter) (op : Parsed Proto) :
    (acc.advertise_endorsement op).w = acc.w := by
  unfold advertise_endorsement
  split <;> rfl

omit [Node] in
@[simp] theorem advertise_endorsement_acc_validation_state (acc : Batch Proto filter)
    (op : Parsed Proto) :
    (acc.advertise_endorsement op).acc_validation_state = acc.acc_validation_state := by
  unfold advertise_endorsement
  split <;> rfl

/-- A round asks for nothing and fetches nothing. -/
theorem round_requests (state : T Proto) (acc : Batch Proto filter) (op : Operation) :
    (round state acc op).w.requests = acc.w.requests ∧
    (round state acc op).w.fetches = acc.w.fetches := by
  unfold round
  split
  · simp [refused, Worker.output, Worker.classify]
  · split
    · dsimp only
      split <;> simp [Worker.classify]
    · simp [Worker.classify]
    · simp [Worker.classify, handle_branch_refused]
    · simp [refused, Worker.output, Worker.classify]
    · simp [Worker.classify]
    · simp [Worker.classify]

/-- A round classifies its operation. -/
theorem round_classified (state : T Proto) (acc : Batch Proto filter) (op : Operation) :
    ∃ c, (round state acc op).w.classified = (op, c) :: acc.w.classified ∧
      Classified state op acc.w.state acc.acc_validation_state (round state acc op).w.state
        (round state acc op).acc_validation_state c := by
  unfold round
  cases hparse : parse Proto op with
  | error errors =>
    refine ⟨.Refused, ?_, ?_⟩
    · simp [refused, Worker.output, Worker.classify]
    · simpa [refused, Worker.output, Worker.classify] using .refused errors
  | ok parsed =>
    obtain ⟨hhash, hraw⟩ := parse_success hparse
    dsimp only
    cases happly : apply_operation state parsed with
    | Applied s' receipt =>
      dsimp only
      split
      · next haccept =>
        refine ⟨.Applied, ?_, ?_⟩
        · simp [Worker.classify, hraw]
        · simpa [Worker.classify, hhash, hraw] using .applied hparse happly haccept
      · exact ⟨.Filtered, by simp [Worker.classify, hraw], .dropped (.inl rfl)⟩
    | Branch_delayed errors =>
      refine ⟨.Branch_delayed, ?_, ?_⟩
      · simp [Worker.classify, hraw]
      · simpa [Worker.classify, hhash, hraw] using .branch_delayed errors
    | Branch_refused errors =>
      refine ⟨.Branch_refused, ?_, ?_⟩
      · simp [Worker.classify, handle_branch_refused, hraw]
      · simpa [Worker.classify, handle_branch_refused, hhash, hraw] using .branch_refused errors
    | Refused errors =>
      refine ⟨.Refused, ?_, ?_⟩
      · simp [refused, Worker.output, Worker.classify, hraw]
      · simpa [refused, Worker.output, Worker.classify, hhash, hraw] using .refused errors
    | Duplicate =>
      exact ⟨.Duplicate, by simp [Worker.classify, hraw], .dropped (.inr (.inl rfl))⟩
    | Outdated =>
      exact ⟨.Outdated, by simp [Worker.classify, hraw], .dropped (.inr (.inr rfl))⟩

/-- What every classification preserves holds at the end of a batch. -/
theorem rounds_preserve {P : Types_state Proto filter → T Proto → Prop} {ops : List Operation}
    (hstep : ∀ op ∈ ops, ∀ pv s pv' s' c, Classified state op pv s pv' s' c → P pv s → P pv' s')
    (acc : Batch Proto filter) (h : P acc.w.state acc.acc_validation_state) :
    P (ops.foldl (round state) acc).w.state (ops.foldl (round state) acc).acc_validation_state := by
  induction ops generalizing acc with
  | nil => exact h
  | cons op ops ih =>
    obtain ⟨c, _, hround⟩ := round_classified state acc op
    rw [foldl_cons]
    apply ih
    · intro op' hop'
      exact hstep op' (mem_cons_of_mem op hop')
    · exact hstep op mem_cons_self _ _ _ _ c hround h

/-- Every operation of a batch is classified. -/
theorem rounds_classified (state : T Proto) (ops : List Operation) (acc : Batch Proto filter) :
    (ops.foldl (round state) acc).w.classified.map Prod.fst =
      ops.reverse ++ acc.w.classified.map Prod.fst := by
  induction ops generalizing acc with
  | nil => rfl
  | cons op ops ih =>
    obtain ⟨c, hclassified, _⟩ := round_classified state acc op
    rw [foldl_cons, ih, hclassified]
    simp

/-- A batch neither handles a request nor starts a fetch. -/
theorem rounds_requests (state : T Proto) (ops : List Operation) (acc : Batch Proto filter) :
    (ops.foldl (round state) acc).w.requests = acc.w.requests ∧
    (ops.foldl (round state) acc).w.fetches = acc.w.fetches := by
  induction ops generalizing acc with
  | nil => exact ⟨rfl, rfl⟩
  | cons op ops ih =>
    rw [foldl_cons, (ih _).1, (ih _).2]
    exact round_requests state acc op

end Batch

omit [Node] in
/-- Advertising changes the advertisement only. -/
theorem advertise_frame (w : Worker Proto filter) (mempool : Mempool) :
    (advertise w mempool).classified = w.classified ∧
    (advertise w mempool).requests = w.requests ∧
    (advertise w mempool).fetches = w.fetches ∧
    ∃ a, (advertise w mempool).state = { w.state with advertisement := a } := by
  unfold advertise
  split
  · exact ⟨rfl, rfl, rfl, _, rfl⟩
  · exact ⟨rfl, rfl, rfl, _, rfl⟩

/-- The first batch of the pending operations. -/
def first_batch (w : Worker Proto filter) : List Operation :=
  (w.state.pending.bindings.map Prod.snd).take
    (batch_length w.state.limits.operations_batch_size w.state.pending.cardinal)

/-- The accumulator at the end of the first batch. -/
def run_batch (w : Worker Proto filter) (state : T Proto) : Batch Proto filter :=
  (first_batch w).foldl (Batch.round state) ⟨w, state, Mempool.empty⟩

variable {w : Worker Proto filter}

/-- Handling the pending operations against a validation state classifies the
first batch of them and forgets the others. -/
theorem process_pending_success (hstate : w.state.validation_state = .ok state) :
    (∃ a, (process_pending w).state =
        { (run_batch w state).w.state with
          validation_state := .ok (run_batch w state).acc_validation_state
          pending := .empty
          advertisement := a }) ∧
      (process_pending w).classified = (run_batch w state).w.classified ∧
      (process_pending w).fetches = w.fetches ∧
      ((process_pending w).requests = w.requests ∨
        (process_pending w).requests = w.requests ++ [.Leftover]) := by
  unfold process_pending
  rw [hstate]
  dsimp only
  by_cases hzero : w.state.pending.cardinal = 0
  · rw [if_pos hzero]
    have hnil : w.state.pending.bindings = [] := length_eq_zero_iff.mp hzero
    have hempty : w.state.pending = .empty := OrderedMap.ext hnil
    have hbatch : run_batch w state = ⟨w, state, Mempool.empty⟩ := by
      simp [run_batch, first_batch, hnil]
    rw [hbatch]
    refine ⟨⟨w.state.advertisement, ?_⟩, rfl, rfl, .inl rfl⟩
    rw [← hstate, ← hempty]
  · rw [if_neg hzero, fold_left_s_n_eq, length_map]
    obtain ⟨hrequests, hfetches⟩ := Batch.rounds_requests state (first_batch w)
      ⟨w, state, Mempool.empty⟩
    split
    · obtain ⟨hclassified, hrequests', hfetches', hadvertise⟩ := advertise_frame
        { (run_batch w state).w.push_request .Leftover with
          state.validation_state := .ok (run_batch w state).acc_validation_state
          state.pending := .empty }
        { (run_batch w state).acc_mempool with
          known_valid := (run_batch w state).acc_mempool.known_valid.reverse }
      refine ⟨hadvertise, hclassified, hfetches'.trans hfetches, .inr (hrequests'.trans ?_)⟩
      exact congrArg (· ++ [.Leftover]) hrequests
    · obtain ⟨hclassified, hrequests', hfetches', hadvertise⟩ := advertise_frame
        { (run_batch w state).w with
          state.validation_state := .ok (run_batch w state).acc_validation_state
          state.pending := .empty }
        { (run_batch w state).acc_mempool with
          known_valid := (run_batch w state).acc_mempool.known_valid.reverse }
      exact ⟨hadvertise, hclassified, hfetches'.trans hfetches, .inl (hrequests'.trans hrequests)⟩

variable {errors : List (Error Proto.error)}

/-- Without a validation state all pending operations are delayed. -/
theorem process_pending_failure (hstate : w.state.validation_state = .error errors) :
    process_pending w = { w with state :=
      { w.state.pending.bindings.foldl (fun pv b => add_branch_delay pv b.2 b.1 errors) w.state with
        pending := .empty } } := by
  unfold process_pending
  rw [hstate]
  rfl

omit [Node] in
/-- What every delay preserves holds when all pending operations are delayed. -/
theorem delays_preserve {P : Types_state Proto filter → Prop}
    {l : List (Operation_hash × Operation)}
    (hstep : ∀ b ∈ l, ∀ pv, P pv → P (add_branch_delay pv b.2 b.1 errors))
    (pv : Types_state Proto filter) (h : P pv) :
    P (l.foldl (fun pv b => add_branch_delay pv b.2 b.1 errors) pv) := by
  induction l generalizing pv with
  | nil => exact h
  | cons b l ih =>
    apply ih
    · intro b' hb'
      exact hstep b' (mem_cons_of_mem b hb')
    · exact hstep b mem_cons_self pv h

/-- Between requests nothing is pending. -/
theorem process_pending_pending (w : Worker Proto filter) :
    (process_pending w).state.pending = .empty := by
  cases hstate : w.state.validation_state with
  | ok state =>
    obtain ⟨⟨a, h⟩, _⟩ := process_pending_success hstate
    rw [h]
  | error errors => rw [process_pending_failure hstate]

/-- The number of times an operation has been classified. -/
def times_classified (w : Worker Proto filter) (op : Operation) : Nat :=
  (w.classified.map Prod.fst).count op

/-- A call classifies its batch, each operation once. -/
theorem handle_unprocessed_classified (hstate : w.state.validation_state = .ok state)
    (op : Operation) :
    times_classified (handle_unprocessed w) op = times_classified w op + (first_batch w).count op := by
  obtain ⟨_, hclassified, _⟩ := process_pending_success hstate
  unfold times_classified
  have hw : (handle_unprocessed w).classified = (process_pending w).classified := rfl
  rw [hw, hclassified, run_batch, Batch.rounds_classified, count_append, count_reverse]
  exact Nat.add_comm _ _

/-- The pending operations are bound to their own hashes. -/
def Keyed (m : OrderedMap Operation_hash Operation) : Prop :=
  ∀ oph op, (oph, op) ∈ m.bindings → Node.hash op = oph

omit [Rings] in
theorem Keyed.nodup {m : OrderedMap Operation_hash Operation} (h : Keyed m) :
    (m.bindings.map Prod.snd).Nodup := by
  have hkeys : (m.bindings.map Prod.snd).map Node.hash = m.keys := by
    rw [map_map, OrderedMap.keys]
    apply map_congr_left
    intro b hb
    exact h b.1 b.2 hb
  apply List.Nodup.of_map Node.hash
  rw [hkeys]
  exact m.keys_nodup

/-- Handle `k` requests for the operations that were left over. -/
def handle_leftovers (now : Int) : Nat → Worker Proto filter →
    Tzresult Proto.error (Worker Proto filter)
  | 0, w => .ok w
  | k + 1, w => do
    let w ← on_request w now .Leftover
    handle_leftovers now k w

/-- Once nothing is pending, requests for left over operations classify
nothing. -/
theorem handle_leftovers_success (now : Int) (k : Nat)
    (hstate : w.state.validation_state = .ok state) (hpending : w.state.pending = .empty) :
    ∃ w', handle_leftovers now k w = .ok w' ∧ ∀ op, times_classified w' op = times_classified w op := by
  induction k generalizing w state with
  | zero => exact ⟨w, rfl, fun _ => rfl⟩
  | succ k ih =>
    have hnext : ∃ next, (handle_unprocessed w).state.validation_state = .ok next := by
      obtain ⟨⟨a, h⟩, _⟩ := process_pending_success hstate
      exact ⟨_, congrArg Types_state.validation_state h⟩
    obtain ⟨next, hnext⟩ := hnext
    obtain ⟨w', hw', htimes⟩ := ih hnext (process_pending_pending w)
    refine ⟨w', hw', ?_⟩
    intro op
    rw [htimes, handle_unprocessed_classified hstate]
    simp [first_batch, hpending, OrderedMap.empty]

omit [Node] in
/-- A batch is as long as the limit allows. -/
theorem length_first_batch (w : Worker Proto filter)
    (hsize : 1 ≤ w.state.limits.operations_batch_size) :
    (first_batch w).length = min w.state.limits.operations_batch_size.toNat w.state.pending.cardinal := by
  unfold first_batch batch_length
  rw [if_neg (by omega)]
  simp [OrderedMap.cardinal]

/-- Every pending operation is in the first batch exactly when they all fit
into one. -/
theorem mem_first_batch_iff (hkeyed : Keyed w.state.pending)
    (hsize : 1 ≤ w.state.limits.operations_batch_size) :
    (∀ b ∈ w.state.pending.bindings, b.2 ∈ first_batch w) ↔
      (w.state.pending.cardinal : ℤ) ≤ w.state.limits.operations_batch_size := by
  have hlength := length_first_batch w hsize
  constructor
  · intro h
    have hsubset : w.state.pending.bindings.map Prod.snd ⊆ first_batch w := by
      intro op hop
      obtain ⟨b, hb, rfl⟩ := mem_map.mp hop
      exact h b hb
    have hle := (hkeyed.nodup.subperm hsubset).length_le
    rw [length_map, hlength] at hle
    have hcard : w.state.pending.bindings.length = w.state.pending.cardinal := rfl
    omega
  · intro h b hb
    have hall : first_batch w = w.state.pending.bindings.map Prod.snd := by
      unfold first_batch batch_length
      rw [if_neg (by omega)]
      apply take_of_length_le
      rw [length_map]
      have hcard : w.state.pending.bindings.length = w.state.pending.cardinal := rfl
      omega
    rw [hall]
    exact mem_map_of_mem hb

theorem count_first_batch_eq_one_iff (hkeyed : Keyed w.state.pending) {op : Operation} :
    (first_batch w).count op = 1 ↔ op ∈ first_batch w := by
  have hnodup : (first_batch w).Nodup := hkeyed.nodup.sublist (take_sublist _ _)
  constructor
  · intro h
    exact count_pos_iff.mp (by omega)
  · exact count_eq_one_of_mem hnodup

/-- A node whose operations are told apart by the lengths of their contents,
and that knows two blocks without operations. -/
@[reducible] def two_blocks : Node where
  hash op := op.proto.length
  length op := op.proto.length
  read h := if h = 1 then some ⟨⟨1, 60, [], 10⟩, [⟨0, 0, [], 10⟩]⟩ else none
  genesis := 0

/-- A protocol in which a block takes a single operation: the validation state
is the number of operations that were applied. -/
@[reducible] def single_operation : Registered_protocol where
  validation_state := Nat
  operation_data := List UInt8
  operation_receipt := Unit
  error := Unit
  max_operation_data_length := 100
  operation_data_of_bytes := some
  reserialize := .ok
  acceptable_passes _ _ := [3]
  classify_error _ := .Temporary
  begin_construction _ _ := .ok 0
  apply_operation state _ _ := if state = 0 then .ok (1, ()) else .error [.Proto ()]

@[reducible] def no_filter (Proto : Registered_protocol) : Filter Proto where
  config := Unit
  json := Unit
  destruct := some
  default_config := ()
  pre_filter _ _ := true
  post_filter _ _ _ _ _ := true

@[reducible] def queues : Rings := EvictionRing.queue Operation_hash

/-- The worker of a node that has just been started on the first block, with the
given operations pending. -/
def started (size : ℤ) (pending : OrderedMap Operation_hash Operation) :
    Worker single_operation (no_filter single_operation) where
  state := {
    limits := ⟨2, size, by decide⟩
    predecessor := ⟨⟨0, 0, [], 10⟩, []⟩
    live_blocks := {0}
    live_operations := ∅
    refused := EvictionRing.create 2
    refusals := .empty
    branch_refused := EvictionRing.create 2
    branch_refusals := .empty
    branch_delayed := EvictionRing.create 2
    branch_delays := .empty
    fetching := ∅
    pending := pending
    mempool := Mempool.empty
    in_mempool := ∅
    applied := []
    applied_count := 0
    validation_state := .ok ⟨(0 : Nat), [], {0}, ∅⟩
    advertisement := none
    filter_config := none }
  requests := []
  fetches := 0
  advertisers := 0
  outputs := []
  classified := []

/-- No pending operation is lost exactly when the pending operations fit into
one batch. In that case each is classified exactly once before the request
ends. Otherwise some operation is neither classified nor pending any more, and
no number of requests for left over operations classifies it. -/
theorem pending_operations_classified_iff (w : Worker Proto filter) (state : T Proto)
    (hstate : w.state.validation_state = .ok state) (hkeyed : Keyed w.state.pending)
    (hsize : 1 ≤ w.state.limits.operations_batch_size) :
    ((∀ b ∈ w.state.pending.bindings,
        times_classified (handle_unprocessed w) b.2 = times_classified w b.2 + 1 ∨
        (b ∈ (handle_unprocessed w).state.pending.bindings ∧
          .Leftover ∈ (handle_unprocessed w).requests)) ↔
      (w.state.pending.cardinal : ℤ) ≤ w.state.limits.operations_batch_size) ∧
    ∀ now k, ∃ w', handle_leftovers now k (handle_unprocessed w) = .ok w' ∧
      ((∀ b ∈ w.state.pending.bindings, times_classified w' b.2 = times_classified w b.2 + 1) ↔
        (w.state.pending.cardinal : ℤ) ≤ w.state.limits.operations_batch_size) := by
  have honce op : times_classified (handle_unprocessed w) op = times_classified w op + 1 ↔ op ∈
      first_batch w := by
    rw [handle_unprocessed_classified hstate, ← count_first_batch_eq_one_iff hkeyed]
    omega
  have hgone : (handle_unprocessed w).state.pending.bindings = [] :=
    congrArg OrderedMap.bindings (process_pending_pending w)
  constructor
  · rw [← mem_first_batch_iff hkeyed hsize]
    simp only [honce, hgone, not_mem_nil, false_and, or_false]
  · intro now k
    obtain ⟨⟨a, h⟩, _⟩ := process_pending_success hstate
    have hnext : (handle_unprocessed w).state.validation_state =
        .ok (run_batch w state).acc_validation_state := congrArg Types_state.validation_state h
    obtain ⟨w', hw', htimes⟩ := handle_leftovers_success now k hnext (process_pending_pending w)
    refine ⟨w', hw', ?_⟩
    rw [← mem_first_batch_iff hkeyed hsize]
    simp only [htimes, honce]

omit [Node] [Rings] in
theorem pending_operations_classified_iff_single :
    let _ := two_blocks
    let _ := queues
    let w := started 1 (OrderedMap.empty.add 1 ⟨0, [7]⟩)
    ∀ now k, ∃ w', handle_leftovers now k (handle_unprocessed w) = .ok w' ∧
      times_classified w' ⟨0, [7]⟩ = 1 := by
  intro _ _ w now k
  have hkeyed : Keyed w.state.pending := by
    intro oph op hop
    obtain ⟨rfl, rfl⟩ : oph = 1 ∧ op = ⟨0, [7]⟩ := by
      simpa [w, started, OrderedMap.bindings_add_empty] using hop
    rfl
  obtain ⟨_, hleftovers⟩ := pending_operations_classified_iff w _ rfl hkeyed (by decide)
  obtain ⟨w', hw', hiff⟩ := hleftovers now k
  exact ⟨w', hw', hiff.mpr (by decide) (1, ⟨0, [7]⟩) (by decide)⟩

omit [Node] [Rings] in
/-- With batches of one operation, the second of two pending operations is
forgotten. -/
theorem pending_operations_classified_iff_two :
    let _ := two_blocks
    let _ := queues
    let w := started 1 ((OrderedMap.empty.add 1 ⟨0, [7]⟩).add 2 ⟨0, [7, 7]⟩)
    (2, ⟨0, [7, 7]⟩) ∈ w.state.pending.bindings ∧
      times_classified (handle_unprocessed w) ⟨0, [7, 7]⟩ = 0 ∧
      (handle_unprocessed w).state.pending.bindings = [] := by
  decide

end prevalidator

end plexus.shell
