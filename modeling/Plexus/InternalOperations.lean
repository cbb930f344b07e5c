import Plexus.ManagerEffects

/-! The worklist of internal operations: those a script emits are run after
those that were emitted before, and each nonce is used once. -/

namespace plexus

open List Traced


namespace apply

variable [Environment] {c c' : Context} {payer : Contract} {mode : Unparsing_mode}
  {chain_id : Chain_id}

/-- An internal operation that was applied. Scripts reveal no keys. -/
def Done (i : Internal_operation_result) : Prop :=
  ∃ applied, i.result = .Applied applied ∧ applied.kind ≠ .Reveal_manager_kind

/-- The results of a worklist that was interrupted by a failure. -/
def Interrupted (results : List Internal_operation_result) : Prop :=
  ∃ done op errors skipped,
    results = done ++ ⟨op, .Failed (manager_kind op.operation) errors⟩ :: skipped ∧
    (∀ i ∈ done, Done i) ∧ ∀ i ∈ skipped, ∃ kind, i.result = .Skipped kind

omit [Environment] in
/-- Scripts reveal no key. -/
theorem Emitted.kind_ne {operation : Manager_operation} (h : operation.Emitted) :
    manager_kind operation ≠ .Reveal_manager_kind := by
  cases operation with
  | Reveal pk => exact h.elim
  | _ => simp [manager_kind]

/-- How a worklist is worked through: one operation after the other, those that
are emitted at the end, until one fails. -/
inductive Worked (mode : Unparsing_mode) (payer : Contract) (chain_id : Chain_id) :
    Context → List Internal_operation → Option Context → List Internal_operation_result → Prop where
  | done (c : Context) : Worked mode payer chain_id c [] (some c) []
  | failed {c : Context} {op : Internal_operation} {errors : Trace}
      (rest : List Internal_operation)
      (h : (apply_internal_operation c mode payer chain_id op).outcome = .error errors) :
      Worked mode payer chain_id c (op :: rest) none
        (⟨op, .Failed (manager_kind op.operation) errors⟩ ::
          rest.map fun op => ⟨op, .Skipped (manager_kind op.operation)⟩)
  | applied {c c1 : Context} {op : Internal_operation}
      {result : Successful_manager_operation_result} {rest emitted : List Internal_operation}
      {ctxt_result : Option Context} {results : List Internal_operation_result}
      (h : (apply_internal_operation c mode payer chain_id op).outcome = .ok (c1, result, emitted))
      (hrest : Worked mode payer chain_id c1 (rest ++ emitted) ctxt_result results) :
      Worked mode payer chain_id c (op :: rest) ctxt_result (⟨op, .Applied result⟩ :: results)

variable {ctxt_result : Option Context} {ops : List Internal_operation}
  {results : List Internal_operation_result}

/-- The loop works through the operations that are left. -/
theorem apply_internal_loop_worked {fuel : Nat} {applied : List Internal_operation_result}
    (h : (apply_internal_loop mode payer chain_id fuel c applied ops).outcome =
      .ok (ctxt_result, results)) :
    ∃ new, results = applied.reverse ++ new ∧ Worked mode payer chain_id c ops ctxt_result new := by
  induction fuel generalizing c applied ops with
  | zero =>
    cases ops with
    | nil =>
      cases h
      exact ⟨[], by simp, .done c⟩
    | cons op rest => cases h
  | succ fuel ih =>
    cases ops with
    | nil =>
      cases h
      exact ⟨[], by simp, .done c⟩
    | cons op rest =>
      obtain ⟨outcome, houtcome, h⟩ := outcome_inv h
      rw [outcome_attempt] at houtcome
      cases outcome with
      | error errors =>
        cases h
        rw [Result.attempt_eq_ok_error_iff] at houtcome
        exact ⟨_, by simp, .failed rest houtcome⟩
      | ok r =>
        obtain ⟨c1, _, _⟩ := r
        rw [Result.attempt_eq_ok_ok_iff] at houtcome
        obtain ⟨new, rfl, hworked⟩ := ih h
        exact ⟨_, by simp, .applied houtcome hworked⟩

/-- So does the whole call. -/
theorem apply_internal_manager_operations_worked
    (h : (apply_internal_manager_operations c mode payer chain_id ops).outcome =
      .ok (ctxt_result, results)) : Worked mode payer chain_id c ops ctxt_result results := by
  obtain ⟨new, rfl, hworked⟩ := apply_internal_loop_worked h
  exact hworked

/-! The gas of a worklist. -/

variable {P : Prop} {remaining : ℤ}

/-- Every operation that returns has consumed at least the gas of a manager
operation. -/
theorem apply_internal_operation_consumes (henv : Lawful_environment) (hcounting : Counting c)
    (hinternal : 0 ≤ c.internal_gas) (hremaining : c.operation_gas = .Limited remaining)
    {mode : Unparsing_mode} {chain_id : Chain_id} {op : Internal_operation}
    {result : Successful_manager_operation_result} {operations : List Internal_operation}
    (h : (apply_internal_operation c mode payer chain_id op).outcome =
      .ok (c', result, operations)) :
    ∃ remaining', c'.operation_gas = .Limited remaining' ∧ 0 ≤ c'.internal_gas ∧
      remaining'.toNat < remaining.toNat := by
  have hmetered :=
    (apply_internal_operation_spec (P := True) henv hcounting mode payer chain_id op).within
  have hspent := hmetered.returned _ c' h rfl
  have hgas := hspent.operation_gas rfl
  rw [hremaining] at hgas
  refine ⟨_, hgas, hspent.internal_gas rfl hinternal, ?_⟩
  have hconsumed : 10000 ≤ consumed (apply_internal_operation c mode payer chain_id op).events ∧
      10000 ≤ remaining := by
    have hallowed := hmetered.events
    unfold apply_internal_operation at h hallowed ⊢
    split at h
    · exact absurd h fail_ne_ok
    · next hnew =>
      rw [if_neg hnew] at hallowed ⊢
      unfold apply_manager_operation_content at h hallowed ⊢
      obtain ⟨_, hexist, h⟩ := outcome_inv h
      rw [outcome_monadLift] at hexist
      rw [monadLift_bind_ok hexist] at hallowed ⊢
      obtain ⟨c1, hconsume, _⟩ := outcome_inv h
      have htaken := raw_context.consume_gas_manager_operation
        (c := raw_context.record_internal_nonce c op.nonce) hinternal hremaining hconsume
      have hpart := consumed_le_bind hallowed hconsume
      omega
  omega

/-- There are more rounds than gas, so that the worklist is worked through. -/
theorem apply_internal_loop_metered (henv : Lawful_environment) (mode : Unparsing_mode)
    (payer : Contract) (chain_id : Chain_id) {fuel : Nat} (hcounting : Counting c)
    (hinternal : 0 ≤ c.internal_gas) (hremaining : c.operation_gas = .Limited remaining)
    (hfuel : remaining.toNat < fuel) (applied : List Internal_operation_result)
    (ops : List Internal_operation) :
    Metered .content (Raised P) c (apply_internal_loop mode payer chain_id fuel c applied ops)
      fun r => r.1 := by
  induction fuel generalizing c remaining applied ops with
  | zero => omega
  | succ fuel ih =>
    cases ops with
    | nil => exact .pure_of rfl (.refl c)
    | cons op rest =>
      have hop :=
        (apply_internal_operation_spec (P := P) henv hcounting mode payer chain_id op).within
      refine hop.bind_attempt ?_ ?_
      · rintro ⟨c1, _, _⟩ h1
        obtain ⟨_, hremaining', hinternal', _⟩ :=
          apply_internal_operation_consumes henv hcounting hinternal hremaining h1
        refine ⟨c1, rfl, ih (hcounting.of_same_operation (hop.same_operation h1 rfl)) hinternal'
          hremaining' (by omega) _ _⟩
      · intro errors _
        exact ⟨_, rfl, rfl⟩

theorem apply_internal_manager_operations_metered (henv : Lawful_environment)
    (mode : Unparsing_mode) (payer : Contract) (chain_id : Chain_id) (hcounting : Counting c)
    (hinternal : 0 ≤ c.internal_gas) (hremaining : c.operation_gas = .Limited remaining)
    (ops : List Internal_operation) :
    Metered .content (Raised P) c (apply_internal_manager_operations c mode payer chain_id ops)
      fun r => r.1 := by
  have hfuel : remaining.toNat < worklist_fuel c.operation_gas + 1 := by
    rw [hremaining]
    exact Nat.lt_succ_self _
  exact apply_internal_loop_metered henv mode payer chain_id hcounting hinternal hremaining hfuel
    [] ops

/-! What a worklist does. -/

/-- The nonces of the operations that were applied. -/
def applied_nonces (results : List Internal_operation_result) : List Nat :=
  results.filterMap fun i =>
    match i.result with
    | .Applied _ => some i.op.nonce
    | _ => none

/-- The nonces are new, differ from each other and are used from then on. -/
structure Fresh_nonces (c : Context) (ctxt_result : Option Context) (nonces : List Nat) : Prop where
  nodup : nonces.Nodup
  fresh : ∀ n ∈ nonces, n ∉ c.internal_nonces_used
  used : ∀ c', ctxt_result = some c' →
    c.internal_nonces_used ⊆ c'.internal_nonces_used ∧ ∀ n ∈ nonces, n ∈ c'.internal_nonces_used

omit [Environment] in
theorem Fresh_nonces.nil (h : ∀ c', ctxt_result = some c' →
    c'.internal_nonces_used = c.internal_nonces_used) : Fresh_nonces c ctxt_result [] :=
  ⟨.nil, by simp, fun c' hc' => ⟨(h c' hc').superset, by simp⟩⟩

omit [Environment] in
/-- Nonces that are used one batch after the other. -/
theorem Fresh_nonces.append {c1 : Context} {nonces nonces' : List Nat}
    (h : Fresh_nonces c (some c1) nonces) (h' : Fresh_nonces c1 ctxt_result nonces') :
    Fresh_nonces c ctxt_result (nonces ++ nonces') where
  nodup := by
    refine nodup_append.mpr ⟨h.nodup, h'.nodup, ?_⟩
    rintro n hn _ hn' rfl
    exact h'.fresh n hn' ((h.used c1 rfl).2 n hn)
  fresh := forall_mem_append.mpr
    ⟨h.fresh, fun n hn hused => h'.fresh n hn ((h.used c1 rfl).1 hused)⟩
  used c' hc' := by
    obtain ⟨hsubset, hnew⟩ := h'.used c' hc'
    exact ⟨(h.used c1 rfl).1.trans hsubset,
      forall_mem_append.mpr ⟨fun n hn => hsubset ((h.used c1 rfl).2 n hn), hnew⟩⟩

/-- A worklist that is worked through has every operation applied, and does
what the results report. -/
theorem Worked.effect (h : Worked mode payer chain_id c ops ctxt_result results)
    (henv : Lawful_environment) (hcounting : Counting c) (hops : ∀ op ∈ ops, op.operation.Emitted) :
    Fresh_nonces c ctxt_result (applied_nonces results) ∧
      ((∃ c', ctxt_result = some c' ∧
          Content_effect payer (results.flatMap (·.result.applied_updates)) c c' ∧
          ∀ i ∈ results, Done i) ∨ ctxt_result = none ∧ Interrupted results) := by
  induction h with
  | done c =>
    exact ⟨.nil fun c' hc' => by cases hc'; rfl, .inl ⟨c, rfl, .of_ledger_eq rfl, by simp⟩⟩
  | failed rest h =>
    refine ⟨?_, .inr ⟨rfl, [], _, _, _, rfl, by simp, ?_⟩⟩
    · have hnone : applied_nonces (rest.map fun op =>
          ⟨op, .Skipped (manager_kind op.operation)⟩) = [] := by
        simp [applied_nonces]
      exact hnone ▸ .nil fun c' hc' => by cases hc'
    · rw [forall_mem_map]
      exact fun op _ => ⟨_, rfl⟩
  | @applied c c1 op result rest emitted ctxt_result results h hrest ih =>
    have hop := hops op mem_cons_self
    obtain ⟨-, hspec, hsame⟩ :=
      (apply_internal_operation_spec (P := True) henv hcounting _ _ _ op).part.of_ok h
    obtain ⟨heffect, hemitted, hkind, hnew, hused⟩ := hspec hop
    dsimp only at hkind hused
    have hfirst : Fresh_nonces c (some c1) [op.nonce] := by
      refine ⟨nodup_singleton _, by simpa using hnew, ?_⟩
      rintro c' ⟨⟩
      simp [hused]
    have hdone : Done ⟨op, .Applied result⟩ := ⟨result, rfl, by rw [hkind]; exact Emitted.kind_ne hop⟩
    have hops' : ∀ op' ∈ rest ++ emitted, op'.operation.Emitted :=
      forall_mem_append.mpr ⟨(forall_mem_cons.mp hops).2, hemitted⟩
    obtain ⟨hfresh, hcase⟩ := ih (hcounting.of_same_operation (hsame c1 rfl)) hops'
    refine ⟨hfirst.append hfresh, ?_⟩
    rcases hcase with ⟨c', rfl, heffect', hrest'⟩ | ⟨rfl, done, op', errors, skipped, rfl, h1, h2⟩
    · refine .inl ⟨c', rfl, ?_, forall_mem_cons.mpr ⟨hdone, hrest'⟩⟩
      rw [flatMap_cons]
      exact heffect.trans heffect'
    · exact .inr ⟨rfl, _ :: done, op', errors, skipped, rfl, forall_mem_cons.mpr ⟨hdone, h1⟩, h2⟩

/-! The order in which the operations are run. -/

/-- An internal operation that was applied, with the context it left and the
operations it emitted. -/
structure Applied_operation where
  op : Internal_operation
  ctxt : Context
  result : Successful_manager_operation_result
  emitted : List Internal_operation

/-- Operations are applied one after the other. -/
def Chained (mode : Unparsing_mode) (payer : Contract) (chain_id : Chain_id) :
    Context → List Applied_operation → Context → Prop
  | c, [], c' => c' = c
  | c, a :: done, c' =>
    (apply_internal_operation c mode payer chain_id a.op).outcome =
        .ok (a.ctxt, a.result, a.emitted) ∧
      Chained mode payer chain_id a.ctxt done c'

/-- The results of a worklist. The operations in `done` were applied, and those
in `left` were not: there are none, or the first of them failed. -/
structure Breadth_first (mode : Unparsing_mode) (payer : Contract) (chain_id : Chain_id)
    (c : Context) (ops : List Internal_operation) (ctxt_result : Option Context)
    (results : List Internal_operation_result) (done : List Applied_operation)
    (left : List Internal_operation) (c' : Context) : Prop where
  chained : Chained mode payer chain_id c done c'
  order : done.map (·.op) ++ left = ops ++ done.flatMap (·.emitted)
  results : left = [] ∧ ctxt_result = some c' ∧
      results = done.map (fun a => ⟨a.op, .Applied a.result⟩) ∨
    ∃ op skipped errors, left = op :: skipped ∧ ctxt_result = none ∧
      (apply_internal_operation c' mode payer chain_id op).outcome = .error errors ∧
      results = done.map (fun a => ⟨a.op, .Applied a.result⟩) ++
        ⟨op, .Failed (manager_kind op.operation) errors⟩ ::
          skipped.map fun op => ⟨op, .Skipped (manager_kind op.operation)⟩

/-- The operations are worked through breadth first. -/
theorem Worked.breadth_first (h : Worked mode payer chain_id c ops ctxt_result results) :
    ∃ done left c', Breadth_first mode payer chain_id c ops ctxt_result results done left c' := by
  induction h with
  | done c => exact ⟨[], [], c, rfl, rfl, .inl ⟨rfl, rfl, rfl⟩⟩
  | @failed c op errors rest h =>
    exact ⟨[], op :: rest, c, rfl, by simp, .inr ⟨op, rest, errors, rfl, rfl, h, rfl⟩⟩
  | @applied c c1 op result rest emitted ctxt_result results h hrest ih =>
    obtain ⟨done, left, c', hchained, horder, hresults⟩ := ih
    refine ⟨⟨op, c1, result, emitted⟩ :: done, left, c', ⟨h, hchained⟩, ?_, ?_⟩
    · simp [horder]
    · rcases hresults with ⟨rfl, rfl, rfl⟩ | ⟨op', skipped, errors, rfl, rfl, herror, rfl⟩
      · exact .inl ⟨rfl, rfl, rfl⟩
      · exact .inr ⟨op', skipped, errors, rfl, rfl, herror, rfl⟩

end apply

end plexus
