import Plexus.Batches

/-! Batches are applied as a whole or not at all, and their results say so. -/

namespace plexus

open List Traced raw_context

namespace Manager_operation_result

/-- The kind of operation a result is about. -/
def kind : Manager_operation_result → Manager_kind
  | .Applied result => result.kind
  | .Backtracked result _ => result.kind
  | .Failed kind _ => kind
  | .Skipped kind => kind

/-- The errors a result carries. -/
def errors : Manager_operation_result → Option Trace
  | .Applied _ => none
  | .Backtracked _ errors => errors
  | .Failed _ errors => some errors
  | .Skipped _ => none

/-- The operation was applied and is undone; a reveal needs no undoing. -/
def Undone (r : Manager_operation_result) : Prop :=
  (∃ result, r = .Backtracked result none) ∨ ∃ consumed_gas, r = .Applied (.Reveal_result consumed_gas)

/-- The operation was not tried; a reveal needs no trying. -/
def Untried (r : Manager_operation_result) : Prop :=
  (∃ kind, r = .Skipped kind) ∨ ∃ consumed_gas, r = .Applied (.Reveal_result consumed_gas)

end Manager_operation_result

/-- The result of a content, followed by those of its internal operations. -/
def Manager_contents_result.all (r : Manager_contents_result) : List Manager_operation_result :=
  r.operation_result :: r.internal_operation_results.map (·.result)

/-- Every operation of the contents is applied. -/
def Fully_applied (results : List Manager_contents_result) : Prop :=
  ∀ r ∈ results, ∀ result ∈ r.all, ∃ applied, result = .Applied applied

/-- The results of a batch that is given up: one operation failed, those before
it are undone, those after it were not tried. -/
structure Rolled_back (results : List Manager_contents_result) : Prop where
  contents : ∀ r ∈ results, ∀ applied, r.operation_result = .Applied applied →
    applied.kind = .Reveal_manager_kind
  internal : ∀ r ∈ results, ∀ i ∈ r.internal_operation_results, ∀ applied, i.result ≠ .Applied applied
  failure : ∃ earlier failed later, results = earlier ++ failed :: later ∧
    (∀ r ∈ earlier, ∀ result ∈ r.all, result.Undone) ∧
    (∀ r ∈ later, r.operation_result.Untried ∧ r.internal_operation_results = []) ∧
    ∃ before result after, failed.all = before ++ result :: after ∧
      (∀ result ∈ before, result.Undone) ∧ result.errors.isSome ∧
      ∀ result ∈ after, result.errors = none

namespace apply

variable [Environment] {c c' : Context} {mode : Unparsing_mode} {chain_id : Chain_id}

/-! The results before they are marked. -/

variable {results : List Internal_operation_result}

/-- A content that was applied. -/
structure Content_applied (r : Manager_contents_result) : Prop where
  content : ∃ applied, r.operation_result = .Applied applied
  internal : ∀ i ∈ r.internal_operation_results, Done i

/-- The three ways in which a content fails: by itself, by one of its internal
operations, or because its storage fees cannot be paid. -/
inductive Content_failed (r : Manager_contents_result) : Prop where
  | failed (kind : Manager_kind) (errors : Trace) (h : r.operation_result = .Failed kind errors)
      (hinternal : r.internal_operation_results = [])
  | interrupted (applied : Successful_manager_operation_result)
      (h : r.operation_result = .Applied applied)
      (hinternal : Interrupted r.internal_operation_results)
  | unpaid (applied : Successful_manager_operation_result) (errors : Trace)
      (h : r.operation_result = .Backtracked applied (some errors))
      (hinternal : ∀ i ∈ r.internal_operation_results, Done i)

variable {op : Manager_contents} {baker : Public_key_hash} {contents_list : List Manager_contents}
  {ctxt_result : Option Context}

/-- A content is applied with all of its internal operations, or fails and
returns no context. -/
theorem apply_manager_contents_results (henv : Lawful_environment)
    (hclosed : c.storage_space_to_pay = none) {result : Manager_operation_result}
    {internal : List Internal_operation_result}
    (h : (apply_manager_contents c mode chain_id op).outcome = .ok (ctxt_result, result, internal))
    (balance_updates : delegate_storage.Balance_updates) :
    result.kind = manager_kind op.operation ∧
      Fresh_nonces c ctxt_result (applied_nonces internal) ∧
      (ctxt_result.isSome ∧ Content_applied ⟨balance_updates, result, internal⟩ ∨
        ctxt_result = none ∧ Content_failed ⟨balance_updates, result, internal⟩) := by
  unfold apply_manager_contents at h
  rw [monadLift_bind_ok (start_counting_of_closed hclosed), outcome_bind_eq_ok_iff] at h
  obtain ⟨outcome, hcontent, h⟩ := h
  cases outcome with
  | error errors =>
    cases h
    exact ⟨rfl, .nil (by simp), .inr ⟨rfl, .failed _ errors rfl rfl⟩⟩
  | ok r =>
    obtain ⟨c1, applied, _⟩ := r
    rw [outcome_attempt, Result.attempt_eq_ok_ok_iff] at hcontent
    obtain ⟨-, hspec, hsame⟩ := (apply_manager_operation_content_spec henv
      (opened_counting c op.gas_limit) _ _ _ _ _ _ fun _ _ => trivial).part.of_ok hcontent
    obtain ⟨_, hemitted, hkind, hnonces⟩ := hspec fun hfalse => by cases hfalse
    obtain ⟨⟨loop_result, results⟩, hloop, h⟩ := outcome_inv h
    obtain ⟨hfresh, hcase⟩ := (apply_internal_manager_operations_worked hloop).effect henv
        ((opened_counting c op.gas_limit).of_same_operation (hsame c1 rfl)) hemitted
    have hfresh : Fresh_nonces c loop_result (applied_nonces results) :=
      (Fresh_nonces.nil fun _ hc' => by cases hc'; exact hnonces).append hfresh
    rcases hcase with ⟨c2, rfl, _, hdone⟩ | ⟨rfl, hinterrupted⟩
    · dsimp only at h
      obtain ⟨burned, hburned, h⟩ := outcome_inv h
      cases burned with
      | error errors =>
        cases h
        exact ⟨hkind, ⟨hfresh.nodup, hfresh.fresh, by simp⟩, .inr ⟨rfl, .unpaid applied errors rfl hdone⟩⟩
      | ok c3 =>
        cases h
        rw [outcome_attempt, Result.attempt_eq_ok_ok_iff] at hburned
        have hburn_fresh : Fresh_nonces c2 (some c3) [] :=
          .nil fun _ hc' => by cases hc'; exact fees_storage.burn_storage_fees_nonces hburned
        exact ⟨hkind, by simpa using hfresh.append hburn_fresh, .inl ⟨rfl, ⟨applied, rfl⟩, hdone⟩⟩
    · cases h
      exact ⟨hkind, hfresh, .inr ⟨rfl, .interrupted applied rfl hinterrupted⟩⟩

omit [Environment] in
theorem skipped_operation_result_untried (operation : Manager_operation) :
    (skipped_operation_result operation).Untried := by
  cases operation with
  | Reveal pk => exact .inr ⟨0, rfl⟩
  | _ => exact .inl ⟨_, rfl⟩

omit [Environment] in
theorem skipped_operation_result_kind (operation : Manager_operation) :
    (skipped_operation_result operation).kind = manager_kind operation := by
  cases operation <;> rfl

/-- A batch is applied up to the first content that fails; the later ones are
not tried. -/
theorem apply_manager_contents_list_rec_results (henv : Lawful_environment)
    (hclosed : c.storage_space_to_pay = none) {results : List Manager_contents_result}
    (h : (apply_manager_contents_list_rec c mode baker chain_id contents_list).outcome =
      .ok (ctxt_result, results)) :
    results.map (·.operation_result.kind) = contents_list.map (manager_kind ·.operation) ∧
      Fresh_nonces c ctxt_result
        (results.flatMap fun r => applied_nonces r.internal_operation_results) ∧
      (ctxt_result.isSome ∧ (∀ r ∈ results, Content_applied r) ∨
        ctxt_result = none ∧ ∃ earlier failed later, results = earlier ++ failed :: later ∧
          (∀ r ∈ earlier, Content_applied r) ∧ Content_failed failed ∧
          ∀ r ∈ later, r.operation_result.Untried ∧ r.internal_operation_results = []) := by
  induction contents_list generalizing c ctxt_result results with
  | nil =>
    cases h
    exact ⟨rfl, .nil fun _ hc' => by cases hc'; rfl, .inl ⟨rfl, by simp⟩⟩
  | cons op rest ih =>
    obtain ⟨⟨ctxt_result1, result, internal⟩, hcontents, h⟩ := outcome_inv h
    obtain ⟨hkind, hfresh, hresult⟩ := apply_manager_contents_results henv hclosed hcontents
      (fee_balance_updates baker (current_level c) op)
    cases ctxt_result1 with
    | none =>
      cases h
      rcases hresult with ⟨hsome, _⟩ | ⟨_, hfailed⟩
      · cases hsome
      · refine ⟨?_, ?_, .inr ⟨rfl, [], _, _, rfl, by simp, hfailed, ?_⟩⟩
        · simp [mark_skipped, hkind, skipped_operation_result_kind]
        · have hnone : (mark_skipped baker (current_level c) rest).flatMap
              (fun r => applied_nonces r.internal_operation_results) = [] := by
            simp [mark_skipped, flatMap_eq_nil_iff, applied_nonces]
          rw [flatMap_cons, hnone, append_nil]
          exact hfresh
        · rw [mark_skipped, forall_mem_map]
          intro op' _
          exact ⟨skipped_operation_result_untried _, rfl⟩
    | some c1 =>
      rcases hresult with ⟨_, happlied⟩ | ⟨hnone, _⟩
      · obtain ⟨hclosed1, _⟩ := apply_manager_contents_effect henv hclosed hcontents
        obtain ⟨⟨_, _⟩, hrest, h⟩ := outcome_inv h
        cases h
        obtain ⟨hkinds, hfresh', hresults⟩ := ih hclosed1 hrest
        refine ⟨?_, hfresh.append hfresh', ?_⟩
        · simp [hkind, hkinds]
        · rcases hresults with ⟨hsome, hall⟩ | ⟨hnone, earlier, failed, later, heq, hearlier, hlater⟩
          · exact .inl ⟨hsome, forall_mem_cons.mpr ⟨happlied, hall⟩⟩
          · refine .inr ⟨hnone, ⟨_, result, internal⟩ :: earlier, failed, later, ?_,
              forall_mem_cons.mpr ⟨happlied, hearlier⟩, hlater⟩
            rw [heq]
            rfl
      · cases hnone

/-! Marking. -/

section Marking

omit [Environment]

theorem mark_manager_operation_result_kind (r : Manager_operation_result) :
    (mark_manager_operation_result r).kind = r.kind := by
  cases r with
  | Applied applied => cases applied <;> rfl
  | _ => rfl

/-- A result that was applied is marked as taken back. -/
theorem mark_applied_undone (applied : Successful_manager_operation_result) :
    (mark_manager_operation_result (.Applied applied)).Undone := by
  cases applied with
  | Reveal_result consumed_gas => exact .inr ⟨consumed_gas, rfl⟩
  | _ => exact .inl ⟨_, rfl⟩

theorem mark_done {i : Internal_operation_result} (h : Done i) :
    ∃ applied, mark_manager_operation_result i.result = .Backtracked applied none := by
  obtain ⟨applied, hresult, hkind⟩ := h
  rw [hresult]
  cases applied with
  | Reveal_result consumed_gas => exact absurd rfl hkind
  | _ => exact ⟨_, rfl⟩

/-- What was not tried stays so. -/
theorem mark_untried {r : Manager_operation_result} (h : r.Untried) :
    (mark_manager_operation_result r).Untried := by
  rcases h with ⟨kind, rfl⟩ | ⟨consumed_gas, rfl⟩
  · exact .inl ⟨kind, rfl⟩
  · exact .inr ⟨consumed_gas, rfl⟩

/-- A content after it is marked. -/
def marked (r : Manager_contents_result) : Manager_contents_result :=
  { balance_updates := r.balance_updates
    operation_result := mark_manager_operation_result r.operation_result
    internal_operation_results := r.internal_operation_results.map mark_internal_operation_results }

theorem mark_backtracked_eq (results : List Manager_contents_result) :
    mark_backtracked results = results.map marked := rfl

/-- Every result of a content is marked. -/
theorem marked_all (r : Manager_contents_result) :
    (marked r).all = r.all.map mark_manager_operation_result := by
  simp [marked, Manager_contents_result.all, mark_internal_operation_results]

variable {r : Manager_contents_result}

/-- All of an applied content is taken back. -/
theorem Content_applied.marked_undone (h : Content_applied r) :
    ∀ result ∈ (marked r).all, result.Undone := by
  rw [marked_all, forall_mem_map, Manager_contents_result.all, forall_mem_cons, forall_mem_map]
  constructor
  · obtain ⟨applied, happlied⟩ := h.content
    rw [happlied]
    exact mark_applied_undone applied
  · intro i hi
    exact .inl (mark_done (h.internal i hi))

/-- What is still applied after the marking is a reveal. -/
theorem mark_eq_applied {r : Manager_operation_result} {applied : Successful_manager_operation_result}
    (h : mark_manager_operation_result r = .Applied applied) :
    applied.kind = .Reveal_manager_kind := by
  cases r with
  | Applied result =>
    cases result with
    | Reveal_result consumed_gas =>
      cases h
      rfl
    | _ => cases h
  | _ => cases h

/-- Nothing an internal operation did is left after the marking. -/
def Internal_undone (results : List Internal_operation_result) : Prop :=
  ∀ i ∈ results.map mark_internal_operation_results, ∀ applied, i.result ≠ .Applied applied

/-- Internal operations that were applied are taken back. -/
theorem Internal_undone.of_done (h : ∀ i ∈ results, Done i) : Internal_undone results := by
  rw [Internal_undone, forall_mem_map]
  intro i hi applied
  obtain ⟨result, hresult⟩ := mark_done (h i hi)
  change mark_manager_operation_result i.result ≠ _
  rw [hresult]
  simp

/-- So are those before the one that failed. -/
theorem Internal_undone.of_interrupted (h : Interrupted results) : Internal_undone results := by
  obtain ⟨_, op, _, _, rfl, hdone, hskipped⟩ := h
  intro i hi applied
  rw [map_append, map_cons, mem_append, mem_cons] at hi
  rcases hi with hi | rfl | hi
  · exact Internal_undone.of_done hdone i hi applied
  · simp [mark_internal_operation_results, mark_manager_operation_result]
  · rw [mem_map] at hi
    obtain ⟨i, hi, rfl⟩ := hi
    obtain ⟨_, hkind⟩ := hskipped i hi
    change mark_manager_operation_result i.result ≠ _
    rw [hkind]
    simp [mark_manager_operation_result]

theorem Content_failed.internal_undone (h : Content_failed r) :
    Internal_undone r.internal_operation_results := by
  cases h with
  | failed kind errors h hinternal =>
    rw [hinternal]
    exact .of_done (by simp)
  | interrupted applied h hinternal => exact .of_interrupted hinternal
  | unpaid applied errors h hinternal => exact .of_done hinternal

/-- The failure stands between operations that are undone and operations
without errors. -/
theorem Content_failed.marked_all (h : Content_failed r) :
    ∃ before result after, (marked r).all = before ++ result :: after ∧
      (∀ result ∈ before, result.Undone) ∧ result.errors.isSome ∧
      ∀ result ∈ after, result.errors = none := by
  rw [apply.marked_all, Manager_contents_result.all, map_cons, map_map]
  cases h with
  | failed kind errors h hinternal =>
    rw [h, hinternal]
    exact ⟨[], _, [], rfl, by simp, rfl, by simp⟩
  | interrupted applied h hinternal =>
    obtain ⟨done, op, errors, _, heq, hdone, hskipped⟩ := hinternal
    rw [h, heq, map_append, map_cons]
    refine ⟨mark_manager_operation_result (.Applied applied) ::
      done.map (mark_manager_operation_result ∘ (·.result)), _, _, rfl, ?_, rfl, ?_⟩
    · refine forall_mem_cons.mpr ⟨mark_applied_undone applied, ?_⟩
      rw [forall_mem_map]
      exact fun i hi => .inl (mark_done (hdone i hi))
    · rw [forall_mem_map]
      intro i hi
      obtain ⟨kind, hkind⟩ := hskipped i hi
      rw [Function.comp_apply, hkind]
      rfl
  | unpaid applied errors h hinternal =>
    rw [h]
    refine ⟨[], _, _, rfl, by simp, rfl, ?_⟩
    rw [forall_mem_map]
    intro i hi
    obtain ⟨_, hresult'⟩ := mark_done (hinternal i hi)
    rw [Function.comp_apply, hresult']
    rfl

/-- The receipts of a batch that failed report nothing as applied. -/
theorem rolled_back_of_failed {earlier later : List Manager_contents_result}
    {failed : Manager_contents_result} (hearlier : ∀ r ∈ earlier, Content_applied r)
    (hfailed : Content_failed failed)
    (hlater : ∀ r ∈ later, r.operation_result.Untried ∧ r.internal_operation_results = []) :
    Rolled_back (mark_backtracked (earlier ++ failed :: later)) where
  contents := by
    rw [mark_backtracked_eq, forall_mem_map]
    exact fun r _ applied happlied => mark_eq_applied happlied
  internal := by
    rw [mark_backtracked_eq, forall_mem_map]
    intro r hr
    change Internal_undone r.internal_operation_results
    rw [mem_append, mem_cons] at hr
    rcases hr with hr | rfl | hr
    · exact .of_done (hearlier r hr).internal
    · exact hfailed.internal_undone
    · rw [(hlater r hr).2]
      exact .of_done (by simp)
  failure := by
    refine ⟨earlier.map marked, marked failed, later.map marked, ?_, ?_, ?_, hfailed.marked_all⟩
    · rw [mark_backtracked_eq, map_append, map_cons]
    · rw [forall_mem_map]
      exact fun r hr => (hearlier r hr).marked_undone
    · rw [forall_mem_map]
      intro r hr
      obtain ⟨huntried, hinternal⟩ := hlater r hr
      refine ⟨mark_untried huntried, ?_⟩
      change r.internal_operation_results.map _ = []
      rw [hinternal]
      rfl

end Marking

variable {results : List Manager_contents_result}

/-- What the results of a batch say about it. -/
theorem apply_manager_contents_list_results (henv : Lawful_environment)
    (hclosed : c.storage_space_to_pay = none)
    (h : (apply_manager_contents_list c mode baker chain_id contents_list).outcome =
      .ok (c', results)) :
    results.map (·.operation_result.kind) = contents_list.map (manager_kind ·.operation) ∧
      ((∃ c1, (apply_manager_contents_list_rec c mode baker chain_id contents_list).outcome =
          .ok (some c1, results) ∧ c' = big_map.cleanup_temporary c1 ∧ Fully_applied results) ∨
        c' = c ∧ Rolled_back results) := by
  rcases apply_manager_contents_list_cases h with ⟨c1, hrec, rfl⟩ | ⟨results', hrec, rfl, rfl⟩
  · obtain ⟨hkinds, _, hresults⟩ := apply_manager_contents_list_rec_results henv hclosed hrec
    refine ⟨hkinds, .inl ⟨c1, hrec, rfl, ?_⟩⟩
    rcases hresults with ⟨_, happlied⟩ | ⟨hnone, _⟩
    · intro r hr
      rw [Manager_contents_result.all, forall_mem_cons, forall_mem_map]
      refine ⟨(happlied r hr).content, fun i hi => ?_⟩
      · obtain ⟨applied, hi, _⟩ := (happlied r hr).internal i hi
        exact ⟨applied, hi⟩
    · cases hnone
  · obtain ⟨hkinds, _, hresults⟩ := apply_manager_contents_list_rec_results henv hclosed hrec
    rcases hresults with ⟨hsome, _⟩ | ⟨_, earlier, failed, later, rfl, hearlier, hfailed, hlater⟩
    · cases hsome
    · refine ⟨?_, .inr ⟨rfl, rolled_back_of_failed hearlier hfailed hlater⟩⟩
      rw [← hkinds, mark_backtracked_eq, map_map]
      apply map_congr_left
      intro r _
      exact mark_manager_operation_result_kind r.operation_result

/-- A batch with contents is only run when no storage fees are being counted. -/
theorem apply_manager_contents_closed {c : Context} {mode : Unparsing_mode} {chain_id : Chain_id}
    {op : Manager_contents}
    {r : Option Context × Manager_operation_result × List Internal_operation_result}
    (h : (apply_manager_contents c mode chain_id op).outcome = .ok r) :
    c.storage_space_to_pay = none := by
  obtain ⟨_, hstart, _⟩ := outcome_inv h
  rw [outcome_monadLift] at hstart
  unfold fees_storage.start_counting_storage_fees init_storage_space_to_pay at hstart
  split at hstart
  · cases hstart
  · next hclosed => exact hclosed

/-- The internal operations of a batch. Those of a worklist are applied in the order in which they
were emitted, up to the first that fails, and under a gas limit the worklist comes to an end. No two
operations that a batch applies share a nonce. However often nonces are handed out, there are at
most 65535 of them. -/
theorem internal_operations (henv : Lawful_environment) :
    (∀ c mode payer chain_id ops ctxt_result results,
      (apply_internal_manager_operations c mode payer chain_id ops).outcome =
        .ok (ctxt_result, results) →
      ∃ done left c', Breadth_first mode payer chain_id c ops ctxt_result results done left c') ∧
    (∀ c mode payer chain_id ops remaining, Counting c → 0 ≤ c.internal_gas →
      c.operation_gas = .Limited remaining →
      (apply_internal_manager_operations c mode payer chain_id ops).outcome ≠ .div) ∧
    (∀ c c' mode baker chain_id contents_list results,
      (apply_manager_contents_list c mode baker chain_id contents_list).outcome =
        .ok (c', results) →
      (results.flatMap fun r => applied_nonces r.internal_operation_results).Nodup) ∧
    ∀ calls : List (Context × Context × Nat),
      (∀ call ∈ calls, fresh_internal_nonce call.1 = .ok call.2) →
      (calls.map (·.2.2)).toFinset.card ≤ 65535 := by
  refine ⟨?_, ?_, ?_, ?_⟩
  · intro c mode payer chain_id ops ctxt_result results h
    exact (apply_internal_manager_operations_worked h).breadth_first
  · intro c mode payer chain_id ops remaining hcounting hinternal hremaining
    exact (apply_internal_manager_operations_metered (P := True) henv mode payer chain_id hcounting
      hinternal hremaining ops).not_div rfl ⟨remaining, hremaining⟩
  · intro c c' mode baker chain_id contents_list results h
    have hclosed : contents_list = [] ∨ c.storage_space_to_pay = none := by
      cases contents_list with
      | nil => exact .inl rfl
      | cons op rest =>
        obtain ⟨_, hrec, _⟩ := outcome_inv h
        obtain ⟨_, hcontents, _⟩ := outcome_inv hrec
        exact .inr (apply_manager_contents_closed hcontents)
    rcases hclosed with rfl | hclosed
    · cases h
      exact .nil
    rcases (apply_manager_contents_list_results henv hclosed h).2 with ⟨c1, hrec, _⟩ | ⟨_, hback⟩
    · exact (apply_manager_contents_list_rec_results henv hclosed hrec).2.1.nodup
    · have hnone : (results.flatMap fun r => applied_nonces r.internal_operation_results) = [] := by
        refine flatMap_eq_nil_iff.mpr fun r hr => filterMap_eq_nil_iff.mpr fun i hi => ?_
        split
        · next happlied => exact absurd happlied (hback.internal r hr i hi _)
        · rfl
      rw [hnone]
      exact .nil
  · intro calls hcalls
    have hsubset : (calls.map (·.2.2)).toFinset ⊆ Finset.range 65535 := by
      intro n hn
      rw [mem_toFinset, mem_map] at hn
      obtain ⟨call, hcall, rfl⟩ := hn
      have hfresh := hcalls call hcall
      unfold fresh_internal_nonce at hfresh
      split at hfresh
      · exact absurd hfresh fail_ne_ok
      · next hlt =>
        rw [← Result.ok.inj hfresh, Finset.mem_range]
        exact not_le.mp hlt
    exact (Finset.card_le_card hsubset).trans_eq (Finset.card_range 65535)

omit [Environment] in
/-- A worklist that holds one operation twice: the second time its nonce has been used. -/
theorem internal_operations_replay :
    let _ := unscripted_environment
    let source := contract_repr.implicit_contract (.Ed25519 0)
    let op : Internal_operation := ⟨source, .Reveal (.Ed25519 0), 0⟩
    let c := opened (raw_context.prepare_first_block default_parameters.constants_mainnet 1 0 0)
      100000
    let results : List Internal_operation_result :=
      [⟨op, .Applied (.Reveal_result 10000)⟩,
        ⟨op, .Failed .Reveal_manager_kind [.Internal_operation_replay op]⟩]
    (apply_internal_manager_operations c .Readable source ⟨0⟩ [op, op]).outcome =
      .ok (none, results) ∧
    ∃ done left c', Breadth_first .Readable source ⟨0⟩ c [op, op] none results done left c' := by
  intro _ source op c results
  have hresults : (apply_internal_manager_operations c .Readable source ⟨0⟩ [op, op]).outcome =
      .ok (none, results) := rfl
  exact ⟨hresults, (internal_operations unscripted_environment_lawful).1 c .Readable source ⟨0⟩
    [op, op] none results hresults⟩

end apply

end plexus
