import Plexus.Shell.Classification

/-! The applied operations of the mempool: how they are replayed from a fresh
validation state, and how they are counted. -/

namespace plexus.shell

open List Result

namespace prevalidator

open prevalidation

variable {Proto : Registered_protocol} {filter : Filter Proto} [Node] [Rings]

/-- Apply operations one after the other, each to the state the one before it
has left. All of them must be applied. -/
def replay (s : T Proto) : List Operation → Option (T Proto)
  | [] => some s
  | op :: ops =>
    match parse Proto op with
    | .error _ => none
    | .ok parsed =>
      match apply_operation s parsed with
      | .Applied s' _ => replay s' ops
      | _ => none

omit [Rings] in
theorem replay_append (s : T Proto) (ops ops' : List Operation) :
    replay s (ops ++ ops') = (replay s ops).bind fun s' => replay s' ops' := by
  induction ops generalizing s with
  | nil => rfl
  | cons op ops ih =>
    simp only [cons_append, replay]
    split
    · rfl
    · split
      · exact ih _
      · rfl

/-- The applied operations, the first applied one first. -/
def chronological (pv : Types_state Proto filter) : List Operation :=
  pv.applied.reverse.map Prod.snd

/-- The applied operations lead from the validation state of the last flush to
the present one. -/
def Replayed (start : Except (List (Error Proto.error)) (T Proto)) (pv : Types_state Proto filter) :
    Prop :=
  ∀ s, pv.validation_state = .ok s → ∃ s0, start = .ok s0 ∧ replay s0 (chronological pv) = some s

/-- An operation of a batch is accepted: it is applied to `state`, the validation
state that the batch starts from, and passes the filter. What the batch has
validated before is `before`. -/
def Accepts (pv : Types_state Proto filter) (state before : T Proto) (op : Operation)
    (s : T Proto) : Prop :=
  ∃ parsed receipt, parse Proto op = .ok parsed ∧
    apply_operation state parsed = .Applied s receipt ∧
    (post_filter pv before.state s.state parsed.protocol_data receipt &&
      decide (pv.applied_count ≤ 2000) || is_endorsement parsed) = true

/-- No pending operation of the batch is accepted. -/
def Accepts_none (w : Worker Proto filter) : Prop :=
  ∀ state, w.state.validation_state = .ok state →
    ∀ op ∈ first_batch w, ∀ s, ¬ Accepts w.state state state op s

/-- No pending operation of the batch is accepted after another one. -/
def Accepts_one (w : Worker Proto filter) : Prop :=
  ∀ state, w.state.validation_state = .ok state →
    (first_batch w).Pairwise fun op op' => ∀ s, Accepts w.state state state op s →
      ∀ s', ¬ Accepts w.state state s op' s'

/-- What the acceptance of an operation reads of the worker. -/
def Same_filter (pv pv' : Types_state Proto filter) : Prop :=
  pv'.filter_config = pv.filter_config ∧ pv'.applied_count = pv.applied_count

variable {pv pv' : Types_state Proto filter}

theorem Same_filter.accepts (h : Same_filter pv pv') : Accepts pv' = Accepts pv := by
  unfold Accepts post_filter prevalidator.filter_config
  rw [h.1, h.2]

section Batch

variable {state s s' : T Proto} {op : Operation} {ops : List Operation} {c : Class}

theorem Classified.same_filter (h : Classified state op pv s pv' s' c) : Same_filter pv pv' := by
  cases h with
  | branch_delayed errors =>
    rw [add_branch_delay_eq]
    exact ⟨rfl, rfl⟩
  | branch_refused errors =>
    rw [add_branch_refusal_eq]
    exact ⟨rfl, rfl⟩
  | refused errors =>
    rw [add_refusal_eq]
    exact ⟨rfl, rfl⟩
  | _ => exact ⟨rfl, rfl⟩

/-- An operation that is not accepted changes neither the applied operations nor
the validation state. -/
theorem Classified.applied_cases (h : Classified state op pv s pv' s' c) :
    (pv'.applied = pv.applied ∧ s' = s) ∨
      (pv'.applied = (Node.hash op, op) :: pv.applied ∧ Accepts pv state s op s') := by
  cases h with
  | applied hparse happly haccept => exact .inr ⟨rfl, _, _, hparse, happly, haccept⟩
  | dropped _ => exact .inl ⟨rfl, rfl⟩
  | branch_delayed errors =>
    rw [add_branch_delay_eq]
    exact .inl ⟨rfl, rfl⟩
  | branch_refused errors =>
    rw [add_branch_refusal_eq]
    exact .inl ⟨rfl, rfl⟩
  | refused errors =>
    rw [add_refusal_eq]
    exact .inl ⟨rfl, rfl⟩

theorem round_of_accepts {acc : Batch Proto filter}
    (h : Accepts acc.w.state state acc.acc_validation_state op s) :
    (Batch.round state acc op).w.state.applied = (Node.hash op, op) :: acc.w.state.applied := by
  obtain ⟨parsed, receipt, hparse, happly, haccept⟩ := h
  obtain ⟨hhash, hraw⟩ := parse_success hparse
  simp only [Batch.round, hparse, happly, haccept, if_true, Worker.classify,
    notify_operation_state, hhash, hraw]

theorem rounds_same_filter (ops : List Operation) (state : T Proto) (acc : Batch Proto filter) :
    Same_filter acc.w.state (ops.foldl (Batch.round state) acc).w.state := by
  refine Batch.rounds_preserve (P := fun pv _ => Same_filter acc.w.state pv) ?_ acc ⟨rfl, rfl⟩
  intro op _ pv s pv' s' c hround hsame
  exact ⟨hround.same_filter.1.trans hsame.1, hround.same_filter.2.trans hsame.2⟩

theorem rounds_length (ops : List Operation) (state : T Proto) (acc : Batch Proto filter) :
    acc.w.state.applied.length ≤ (ops.foldl (Batch.round state) acc).w.state.applied.length := by
  refine Batch.rounds_preserve
    (P := fun pv _ => acc.w.state.applied.length ≤ pv.applied.length) ?_ acc le_rfl
  intro op _ pv s pv' s' c hround hle
  rcases hround.applied_cases with ⟨hsame, _⟩ | ⟨hmore, _⟩
  · rwa [hsame]
  · rw [hmore, length_cons]
    exact Nat.le_succ_of_le hle

/-- Operations that are not accepted leave the batch as it was. -/
theorem rounds_none (acc : Batch Proto filter)
    (hnone : ∀ op ∈ ops, ∀ s, ¬ Accepts acc.w.state state acc.acc_validation_state op s) :
    (ops.foldl (Batch.round state) acc).w.state.applied = acc.w.state.applied ∧
      (ops.foldl (Batch.round state) acc).acc_validation_state = acc.acc_validation_state := by
  induction ops generalizing acc with
  | nil => exact ⟨rfl, rfl⟩
  | cons op ops ih =>
    obtain ⟨c, _, hround⟩ := Batch.round_classified state acc op
    rcases hround.applied_cases with ⟨happlied, hstate⟩ | ⟨_, haccept⟩
    · rw [foldl_cons, ← happlied, ← hstate]
      refine ih _ ?_
      rw [hround.same_filter.accepts, hstate]
      exact fun op' hop' => hnone op' (mem_cons_of_mem op hop')
    · exact absurd haccept (hnone op mem_cons_self _)

/-- If nothing is accepted after another operation, then a batch accepts at most
one. -/
theorem rounds_one (acc : Batch Proto filter) (hstate : acc.acc_validation_state = state)
    (hone : ops.Pairwise fun op op' => ∀ s, Accepts acc.w.state state state op s →
      ∀ s', ¬ Accepts acc.w.state state s op' s') :
    let acc' := ops.foldl (Batch.round state) acc
    (acc'.w.state.applied = acc.w.state.applied ∧ acc'.acc_validation_state = state) ∨
      ∃ op, acc'.w.state.applied = (Node.hash op, op) :: acc.w.state.applied ∧
        replay state [op] = some acc'.acc_validation_state := by
  induction ops generalizing acc with
  | nil => exact .inl ⟨rfl, hstate⟩
  | cons op ops ih =>
    rw [pairwise_cons] at hone
    obtain ⟨c, _, hround⟩ := Batch.round_classified state acc op
    have hsame := hround.same_filter.accepts
    rcases hround.applied_cases with ⟨happlied, hstate'⟩ | ⟨happlied, haccept⟩
    · rw [foldl_cons, ← happlied]
      refine ih _ (hstate'.trans hstate) ?_
      rw [hsame]
      exact hone.2
    · rw [hstate] at haccept
      have hnone : ∀ op' ∈ ops, ∀ s, ¬ Accepts (Batch.round state acc op).w.state state
          (Batch.round state acc op).acc_validation_state op' s := by
        rw [hsame]
        exact fun op' hop' => hone.1 op' hop' _ haccept
      obtain ⟨hkept, hkept'⟩ := rounds_none _ hnone
      obtain ⟨parsed, receipt, hparse, happly, _⟩ := haccept
      refine .inr ⟨op, hkept.trans happlied, ?_⟩
      rw [foldl_cons, hkept']
      simp only [replay, hparse, happly]

/-- A batch that accepts nothing has no operation to accept. -/
theorem rounds_kept (acc : Batch Proto filter) (hstate : acc.acc_validation_state = state)
    (hkept : (ops.foldl (Batch.round state) acc).w.state.applied = acc.w.state.applied) :
    ∀ op ∈ ops, ∀ s, ¬ Accepts acc.w.state state state op s := by
  induction ops generalizing acc with
  | nil => exact fun op hop => absurd hop not_mem_nil
  | cons op ops ih =>
    obtain ⟨c, _, hround⟩ := Batch.round_classified state acc op
    have hlength := rounds_length ops state (Batch.round state acc op)
    rw [foldl_cons] at hkept
    rw [hkept] at hlength
    have hnone s : ¬ Accepts acc.w.state state state op s := by
      intro haccept
      have haccept : Accepts acc.w.state state acc.acc_validation_state op s := by rwa [hstate]
      rw [round_of_accepts haccept, length_cons] at hlength
      omega
    rcases hround.applied_cases with ⟨happlied, hstate'⟩ | ⟨happlied, _⟩
    · have hrest := ih _ (hstate'.trans hstate) (hkept.trans happlied.symm)
      rw [hround.same_filter.accepts] at hrest
      exact forall_mem_cons.mpr ⟨hnone, hrest⟩
    · rw [happlied, length_cons] at hlength
      omega

end Batch

variable {w : Worker Proto filter} {start : Except (List (Error Proto.error)) (T Proto)}

/-- What the handling of the pending operations does to the applied operations. -/
theorem handle_unprocessed_batch {state : T Proto} (hstate : w.state.validation_state = .ok state) :
    (handle_unprocessed w).state.applied = (run_batch w state).w.state.applied ∧
      (handle_unprocessed w).state.validation_state =
        .ok (run_batch w state).acc_validation_state := by
  obtain ⟨⟨a, hprocess⟩, _⟩ := process_pending_success hstate
  change (process_pending w).state.applied = _ ∧ (process_pending w).state.validation_state = _
  rw [hprocess]
  exact ⟨rfl, rfl⟩

/-- Without a validation state, nothing is applied. -/
theorem handle_unprocessed_failure {errors : List (Error Proto.error)}
    (hstate : w.state.validation_state = .error errors) :
    (handle_unprocessed w).state.applied = w.state.applied ∧
      (handle_unprocessed w).state.validation_state = .error errors := by
  change (process_pending w).state.applied = _ ∧ (process_pending w).state.validation_state = _
  rw [process_pending_failure hstate]
  apply delays_preserve
    (P := fun pv => pv.applied = w.state.applied ∧ pv.validation_state = .error errors)
  · intro b _ pv hpv
    rw [add_branch_delay_eq]
    exact hpv
  · exact ⟨rfl, hstate⟩

/-- Handling pending operations, at most one of which is accepted, keeps the
applied operations a way from the last flush to the validation state. -/
theorem handle_unprocessed_replayed (hone : Accepts_one w) (h : Replayed start w.state) :
    Replayed start (handle_unprocessed w).state := by
  intro s hs
  cases hstate : w.state.validation_state with
  | error errors =>
    rw [(handle_unprocessed_failure hstate).2] at hs
    cases hs
  | ok state =>
    obtain ⟨s0, hs0, hreplay⟩ := h state hstate
    obtain ⟨happlied, hvalidation⟩ := handle_unprocessed_batch hstate
    rw [hvalidation] at hs
    cases hs
    refine ⟨s0, hs0, ?_⟩
    unfold chronological at hreplay ⊢
    rw [happlied]
    rcases rounds_one ⟨w, state, Mempool.empty⟩ rfl (hone state hstate) with
      ⟨hnone, hsame⟩ | ⟨op, hop, hstep⟩
    · rw [run_batch, hnone, hsame]
      exact hreplay
    · rw [run_batch, hop, reverse_cons, map_append, replay_append, hreplay]
      exact hstep

/-- The applied operations stay the same exactly when none is accepted. -/
theorem handle_unprocessed_applied_iff (w : Worker Proto filter) :
    (handle_unprocessed w).state.applied = w.state.applied ↔ Accepts_none w := by
  cases hstate : w.state.validation_state with
  | error errors =>
    refine iff_of_true (handle_unprocessed_failure hstate).1 ?_
    intro state h
    rw [hstate] at h
    cases h
  | ok state =>
    rw [(handle_unprocessed_batch hstate).1]
    constructor
    · intro hkept state' hstate'
      rw [hstate] at hstate'
      cases hstate'
      exact rounds_kept ⟨w, state, Mempool.empty⟩ rfl hkept
    · exact fun hnone => (rounds_none ⟨w, state, Mempool.empty⟩ (hnone state hstate)).1

theorem handle_unprocessed_length (w : Worker Proto filter) :
    w.state.applied.length ≤ (handle_unprocessed w).state.applied.length := by
  cases hstate : w.state.validation_state with
  | error errors => rw [(handle_unprocessed_failure hstate).1]
  | ok state =>
    rw [(handle_unprocessed_batch hstate).1]
    exact rounds_length _ state ⟨w, state, Mempool.empty⟩

/-- The states of the worker since the last flush, or since the node has
started, when every handling of pending operations meets `condition`. The
requests that are not flushes come in any order and number, and the RPC may set
the configuration of the filter at any time. -/
inductive Since_flush (condition : Worker Proto filter → Prop) :
    Except (List (Error Proto.error)) (T Proto) → Worker Proto filter → Prop
  | launch {limits : Limits} {predecessor : Block} {mempool : Mempool}
      {live_blocks : Finset Block_hash} {live_operations : Finset Operation_hash} {now : Int}
      {w : Worker Proto filter} {start : Except (List (Error Proto.error)) (T Proto)}
      (hlaunch : on_launch limits predecessor mempool live_blocks live_operations now = .ok w)
      (hcreate : (create Proto predecessor now).attempt = .ok start) :
      Since_flush condition start w
  | flush {w w1 : Worker Proto filter} {hash : Block_hash} {block : Block} {now : Int}
      {start : Except (List (Error Proto.error)) (T Proto)}
      (hread : Node.read hash = some block)
      (hflush : request_handler w now (.Flush hash) = .ok w1)
      (hcreate : (create Proto block now).attempt = .ok start) (hcondition : condition w1) :
      Since_flush condition start (handle_unprocessed w1)
  | request {w w1 : Worker Proto filter} {request : Request} {now : Int}
      {start : Except (List (Error Proto.error)) (T Proto)}
      (hrun : Since_flush condition start w) (hrequest : ∀ hash, request ≠ .Flush hash)
      (hhandler : request_handler w now request = .ok w1) (hcondition : condition w1) :
      Since_flush condition start (handle_unprocessed w1)
  | set_filter {w : Worker Proto filter} {config : filter.json}
      {start : Except (List (Error Proto.error)) (T Proto)}
      (hrun : Since_flush condition start w) :
      Since_flush condition start { w with state.filter_config := some config }

variable {now : Int}

/-- A request that is not a flush leaves the validation state and the applied
operations to the handling of the pending operations. -/
theorem request_handler_frame {w1 : Worker Proto filter} {request : Request}
    (hrequest : ∀ hash, request ≠ .Flush hash) (h : request_handler w now request = .ok w1) :
    w1.state.validation_state = w.state.validation_state ∧ w1.state.applied = w.state.applied ∧
      w1.state.applied_count = w.state.applied_count := by
  cases request with
  | Flush hash => exact absurd rfl (hrequest hash)
  | Notify peer mempool =>
    cases h
    exact ⟨rfl, rfl, rfl⟩
  | Leftover =>
    cases h
    exact ⟨rfl, rfl, rfl⟩
  | Inject op =>
    simp only [request_handler, on_inject] at h
    split at h
    · cases h
      exact ⟨rfl, rfl, rfl⟩
    · split at h
      · cases h
      · split at h
        · cases h
        · split at h
          · cases h
            exact ⟨rfl, rfl, rfl⟩
          · cases h
  | Arrived oph op =>
    cases h
    unfold on_operation_arrived
    dsimp only
    split
    · simp only [handle_branch_refused, notify_operation_state, Worker.output]
      rw [add_branch_refusal_eq]
      exact ⟨rfl, rfl, rfl⟩
    · split
      · exact ⟨rfl, rfl, rfl⟩
      · split <;> exact ⟨rfl, rfl, rfl⟩
  | Advertise =>
    cases h
    unfold on_advertise
    split <;> exact ⟨rfl, rfl, rfl⟩

theorem on_flush_success {w1 : Worker Proto filter} {block : Block}
    (h : on_flush w block now = .ok w1) :
    (create Proto block now).attempt = .ok w1.state.validation_state ∧ w1.state.applied = [] ∧
      w1.state.applied_count = 0 := by
  obtain ⟨⟨_, _⟩, _, h⟩ := bind_inv h
  obtain ⟨_, _, h⟩ := bind_inv h
  obtain ⟨validation_state, hcreate, h⟩ := bind_inv h
  cases h
  exact ⟨hcreate, rfl, rfl⟩

theorem on_launch_success {limits : Limits} {predecessor : Block} {mempool : Mempool}
    {live_blocks : Finset Block_hash} {live_operations : Finset Operation_hash}
    (h : on_launch limits predecessor mempool live_blocks live_operations now = .ok w) :
    (create Proto predecessor now).attempt = .ok w.state.validation_state ∧ w.state.applied = [] ∧
      w.state.applied_count = 0 := by
  obtain ⟨validation_state, hcreate, h⟩ := bind_inv h
  cases h
  have hfetch : ∀ (l : List Operation_hash) (w : Worker Proto filter),
      (l.foldl fetch_operation w).state = w.state := by
    intro l
    induction l with
    | nil => exact fun _ => rfl
    | cons oph l ih => exact fun w => ih (fetch_operation w oph)
  rw [hfetch]
  exact ⟨hcreate, rfl, rfl⟩

/-- With no applied operations the validation state is the one of the flush. -/
theorem replayed_of_create {block : Block}
    {pv : Types_state Proto filter} (hstart : (create Proto block now).attempt = .ok start)
    (h : (create Proto block now).attempt = .ok pv.validation_state ∧ pv.applied = [] ∧
      pv.applied_count = 0) :
    Replayed start pv := by
  obtain ⟨hcreate, happlied, -⟩ := h
  rw [hstart] at hcreate
  cases hcreate
  intro s hs
  refine ⟨s, hs, ?_⟩
  rw [chronological, happlied]
  rfl

/-- Since a flush, as long as no batch accepts two operations: applying the
applied operations one after the other, from the validation state of the flush,
applies each of them and ends in the validation state of the worker. -/
theorem applied_operations_replayed {start : Except (List (Error Proto.error)) (T Proto)}
    {w : Worker Proto filter} (hrun : Since_flush Accepts_one start w) (s : T Proto)
    (hs : w.state.validation_state = .ok s) :
    ∃ s0 s', start = .ok s0 ∧ replay s0 (chronological w.state) = some s' ∧ s'.state = s.state := by
  have hreplayed : Replayed start w.state := by
    clear hs s
    induction hrun with
    | launch hlaunch hcreate => exact replayed_of_create hcreate (on_launch_success hlaunch)
    | flush hread hflush hcreate hcondition =>
      apply handle_unprocessed_replayed hcondition
      simp only [request_handler, hread] at hflush
      exact replayed_of_create hcreate (on_flush_success hflush)
    | request hrun hrequest hhandler hcondition ih =>
      apply handle_unprocessed_replayed hcondition
      obtain ⟨hvalidation, happlied, -⟩ := request_handler_frame hrequest hhandler
      intro s hs
      rw [chronological, happlied]
      exact ih s (hvalidation ▸ hs)
    | set_filter hrun ih => exact ih
  obtain ⟨s0, hstart, hreplay⟩ := hreplayed s hs
  exact ⟨s0, s, hstart, hreplay, rfl⟩

omit [Node] [Rings] in
theorem started_eq_on_launch (size : ℤ) :
    let _ := two_blocks
    let _ := queues
    on_launch ⟨2, size, by decide⟩ ⟨⟨0, 0, [], 10⟩, []⟩ Mempool.empty {0} ∅ 0 =
      .ok (started size .empty) := by
  rfl

omit [Node] [Rings] in
theorem applied_operations_replayed_arrived :
    let _ := two_blocks
    let _ := queues
    let w := handle_unprocessed (on_operation_arrived (started 50 .empty) 1 ⟨0, [7]⟩)
    let s0 : T single_operation := ⟨(0 : Nat), [], {0}, ∅⟩
    chronological w.state = [⟨0, [7]⟩] ∧
      ∃ s', replay s0 (chronological w.state) = some s' ∧ s'.state = (1 : Nat) := by
  intro _ _ w s0
  have harrived : request_handler (started 50 .empty) 0 (.Arrived 1 ⟨0, [7]⟩) = .ok _ := rfl
  have hrun : Since_flush Accepts_one (.ok s0) w :=
    .request (.launch (started_eq_on_launch 50) rfl) (by intro hash; simp) harrived
      fun _ _ => pairwise_singleton _ (⟨0, [7]⟩ : Operation)
  obtain ⟨s0', s', hstart, hreplay⟩ := applied_operations_replayed hrun _ rfl
  cases hstart
  exact ⟨rfl, s', hreplay⟩

omit [Node] [Rings] in
/-- Two operations that cannot both be in a block are both in the mempool after
a flush: each was applied to the validation state of the flush. Applied one
after the other they are not. -/
theorem applied_operations_replayed_conflict :
    let _ := two_blocks
    let _ := queues
    let w := handle_unprocessed (on_operation_arrived
      (handle_unprocessed (on_operation_arrived (started 50 .empty) 1 ⟨0, [7]⟩)) 2 ⟨0, [7, 7]⟩)
    ∃ w1 s0 s, request_handler w 60 (.Flush 1) = .ok w1 ∧
      Since_flush (fun _ => True) (.ok s0) (handle_unprocessed w1) ∧
      (handle_unprocessed w1).state.validation_state = .ok s ∧
      chronological (handle_unprocessed w1).state = [⟨0, [7]⟩, ⟨0, [7, 7]⟩] ∧
      replay s0 (chronological (handle_unprocessed w1).state) = none := by
  intro _ _ w
  have hreturns : (request_handler w 60 (.Flush 1)).returns (fun w1 =>
      match w1.state.validation_state, (handle_unprocessed w1).state.validation_state with
      | .ok s0, .ok _ =>
        decide (chronological (handle_unprocessed w1).state = [⟨0, [7]⟩, ⟨0, [7, 7]⟩]) &&
          (replay s0 (chronological (handle_unprocessed w1).state)).isNone
      | _, _ => false) = true := by
    decide
  rw [returns_iff] at hreturns
  obtain ⟨w1, hflush, htest⟩ := hreturns
  split at htest
  · next s0 s hs0 hs =>
    rw [Bool.and_eq_true, decide_eq_true_eq, Option.isNone_iff_eq_none] at htest
    refine ⟨w1, s0, s, hflush, ?_, hs, htest.1, htest.2⟩
    rw [← hs0]
    exact .flush rfl hflush (on_flush_success hflush).1 trivial
  · cases htest

/-! The count of the applied operations. -/

theorem handle_unprocessed_applied_count (w : Worker Proto filter) :
    (handle_unprocessed w).state.applied_count = w.state.applied_count := by
  change (process_pending w).state.applied_count = _
  cases hstate : w.state.validation_state with
  | error errors =>
    rw [process_pending_failure hstate]
    apply delays_preserve (P := fun pv => pv.applied_count = w.state.applied_count)
    · intro b _ pv hpv
      rw [add_branch_delay_eq]
      exact hpv
    · rfl
  | ok state =>
    obtain ⟨⟨a, hprocess⟩, _⟩ := process_pending_success hstate
    rw [hprocess]
    exact (rounds_same_filter (first_batch w) state ⟨w, state, Mempool.empty⟩).2

variable {condition : Worker Proto filter → Prop}
  {start : Except (List (Error Proto.error)) (T Proto)}

/-- The counter is reset by a flush and never incremented. -/
theorem Since_flush.applied_count (hrun : Since_flush condition start w) :
    w.state.applied_count = 0 := by
  induction hrun with
  | launch hlaunch _ => exact (on_launch_success hlaunch).2.2
  | flush hread hflush _ _ =>
    simp only [request_handler, hread] at hflush
    rw [handle_unprocessed_applied_count, (on_flush_success hflush).2.2]
  | request _ hrequest hhandler _ ih =>
    rw [handle_unprocessed_applied_count, (request_handler_frame hrequest hhandler).2.2, ih]
  | set_filter _ ih => exact ih

/-- Nothing was applied exactly in those states that are reached without an
operation being accepted. -/
theorem Since_flush.applied_eq_nil_iff (hrun : Since_flush condition start w) :
    w.state.applied = [] ↔ Since_flush Accepts_none start w := by
  constructor
  · intro hnil
    induction hrun with
    | launch hlaunch hcreate => exact .launch hlaunch hcreate
    | @flush _ w1 _ _ _ _ hread hflush hcreate _ =>
      have hflushed := hflush
      simp only [request_handler, hread] at hflushed
      rw [← (on_flush_success hflushed).2.1, handle_unprocessed_applied_iff] at hnil
      exact .flush hread hflush hcreate hnil
    | @request _ w1 _ _ _ _ hrequest hhandler _ ih =>
      have happlied := (request_handler_frame hrequest hhandler).2.1
      have hlength := handle_unprocessed_length w1
      rw [hnil, length_nil, Nat.le_zero, length_eq_zero_iff] at hlength
      rw [← hlength, handle_unprocessed_applied_iff] at hnil
      exact .request (ih (happlied ▸ hlength)) hrequest hhandler hnil
    | set_filter _ ih => exact .set_filter (ih hnil)
  · clear hrun
    intro hrun
    induction hrun with
    | launch hlaunch _ => exact (on_launch_success hlaunch).2.1
    | flush hread hflush _ hnone =>
      simp only [request_handler, hread] at hflush
      rw [(handle_unprocessed_applied_iff _).mpr hnone, (on_flush_success hflush).2.1]
    | request _ hrequest hhandler hnone ih =>
      rw [(handle_unprocessed_applied_iff _).mpr hnone,
        (request_handler_frame hrequest hhandler).2.1, ih]
    | set_filter _ ih => exact ih

/-- The counter is exact, and bounds the operations other than endorsements, only as long as
no operation that was handled since the flush is accepted. -/
theorem applied_count_exact_iff {w : Worker Proto filter} (hrun : Since_flush condition start w) :
    w.state.applied_count = w.state.applied.length ∧
        (w.state.applied.filter fun b => !is_endorsement_raw Proto b.2).length ≤ 2001 ↔
      Since_flush Accepts_none start w := by
  rw [hrun.applied_count, ← hrun.applied_eq_nil_iff]
  constructor
  · rintro ⟨_, -⟩
    exact eq_nil_of_length_eq_zero (by omega)
  · intro hnil
    simp [hnil]

omit [Node] [Rings] in
/-- An operation that is too long is refused. -/
theorem applied_count_exact_refused :
    let _ := two_blocks
    let _ := queues
    let op : Operation := ⟨0, replicate 101 7⟩
    let w := handle_unprocessed (on_operation_arrived (started 50 .empty) 101 op)
    w.classified = [(op, .Refused)] ∧ w.state.applied_count = w.state.applied.length := by
  intro _ _ op w
  have harrived : request_handler (started 50 .empty) 0 (.Arrived 101 op) = .ok _ := rfl
  have hnone : Accepts_none (on_operation_arrived (started 50 .empty) 101 op) := by
    rintro state - op' hop' s ⟨parsed, _, hparse, -⟩
    obtain rfl : op' = op := mem_singleton.mp hop'
    cases hparse
  have hrun : Since_flush Accepts_none _ w :=
    .request (.launch (started_eq_on_launch 50) rfl) (by simp) harrived hnone
  exact ⟨rfl, ((applied_count_exact_iff hrun).mpr hrun).1⟩

omit [Node] [Rings] in
/-- One operation was applied and the counter is 0. -/
theorem applied_count_not_incremented :
    let _ := two_blocks
    let _ := queues
    let w := handle_unprocessed (on_operation_arrived (started 50 .empty) 1 ⟨0, [7]⟩)
    (∃ start, Since_flush (fun _ => True) start w) ∧ w.state.applied.length = 1 ∧
      w.state.applied_count = 0 := by
  intro _ _ w
  have harrived : request_handler (started 50 .empty) 0 (.Arrived 1 ⟨0, [7]⟩) = .ok _ := rfl
  exact ⟨⟨_, .request (.launch (started_eq_on_launch 50) rfl) (by simp) harrived trivial⟩, rfl, rfl⟩

end prevalidator

end plexus.shell
