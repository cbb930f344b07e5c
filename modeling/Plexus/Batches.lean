import Plexus.InternalOperations
import Plexus.Precheck

/-! Batches of manager operations: the contents are applied one after the other,
and the storage fees of each are burned at its end. -/

namespace plexus

open contract_storage fees_storage raw_context List Traced


open contract_repr (implicit_contract)
open delegate_storage

/-! Storage fees. -/

variable {size : ℤ} {allocated : Nat}

theorem Counting.exists_eq_some {c : Context} (h : Counting c) : ∃ size allocated,
    c.storage_space_to_pay = some size ∧ c.allocated_contracts = some allocated := by
  obtain ⟨size, hsize⟩ := Option.isSome_iff_exists.mp h.space
  obtain ⟨allocated, hallocated⟩ := Option.isSome_iff_exists.mp h.contracts
  exact ⟨size, allocated, hsize, hallocated⟩

namespace fees_storage

variable {c c' : Context} {payer : Contract} {storage_limit : ℤ}

/-- The end of `burn_storage_fees`, after the counters are closed. -/
def burn_consumed (c : Context) (storage_limit consumed : ℤ) (payer : Contract) :
    Carbonated Context :=
  if storage_limit - consumed < 0 then fail .Storage_quota_exceeded
  else do
    let consumed_int64 ← z_to_int64 consumed
    let to_burn ← (constants_storage.cost_per_byte c).mul consumed_int64
    if to_burn = Qty.zero then pure c
    else
      trace_carbonated .Cannot_pay_storage_fee do
        contract_storage.must_exist c payer
        let c ← contract_storage.mine_spend c payer to_burn
        Traced.emit (.burn to_burn)
        pure c

/-- The storage fees are those of the counted bytes and contracts. -/
theorem burn_storage_fees_eq (hsize : c.storage_space_to_pay = some size)
    (hallocated : c.allocated_contracts = some allocated) :
    burn_storage_fees c storage_limit payer =
      burn_consumed { c with storage_space_to_pay := none, allocated_contracts := none }
        storage_limit (size + allocated * c.constants.origination_size) payer := by
  unfold burn_storage_fees clear_storage_space_to_pay
  rw [hsize, hallocated, monadLift_bind_ok rfl]
  rfl

/-- Burning is seen by a batch, and not by its contents. -/
theorem burn_consumed_metered [Environment] {P : Prop} (c : Context) (storage_limit consumed : ℤ)
    (payer : Contract) :
    Metered .batch (Raised P) c (burn_consumed c storage_limit consumed payer) some := by
  unfold burn_consumed
  split
  · exact .fail
  · have hint64 : Metered .batch (Raised P) c (liftM (z_to_int64 consumed) : Carbonated Int64)
        fun _ => some c := by
      refine .lift_within (z_to_int64_within consumed) ?_
      intro _ _ _ hc'
      cases hc'
      exact .refl c
    refine hint64.bind fun consumed_int64 _ => ⟨c, rfl, ?_⟩
    refine .check_bind (Qty.total_mul _ _).meets fun to_burn _ => ?_
    split
    · exact .pure_of rfl (.refl c)
    · refine .trace ?_
      refine .check_bind (total_must_exist _ _).meets fun _ _ => ?_
      refine .bind_context mine_spend_spec.metered fun c1 _ => ?_
      refine .emit_bind trivial rfl (fun hscope => by cases hscope) ?_
      exact .pure_of rfl (.refl c1)

theorem burn_storage_fees_metered [Environment] {P : Prop} (hcounting : Counting c) :
    Metered .batch (Raised P) c (burn_storage_fees c storage_limit payer) some := by
  obtain ⟨_, _, hsize, hallocated⟩ := hcounting.exists_eq_some
  rw [burn_storage_fees_eq hsize hallocated]
  exact .of_same_block (c := { c with storage_space_to_pay := none, allocated_contracts := none })
    rfl rfl (burn_consumed_metered _ _ _ _)

/-- What is burned is spent by the payer. -/
theorem burn_consumed_success [Environment] {consumed : ℤ}
    (h : (burn_consumed c storage_limit consumed payer).outcome = .ok c') :
    ∃ to_burn : Mine, to_burn.amount = c.constants.cost_per_byte.amount * consumed ∧
      consumed < 2 ^ 63 ∧
      burned (burn_consumed c storage_limit consumed payer).events = to_burn.amount ∧
      (to_burn = Qty.zero ∧ c' = c ∨
        (mine_spend c payer to_burn).outcome = .ok c') := by
  unfold burn_consumed at h ⊢
  split at h
  · exact absurd h fail_ne_ok
  · next hlimit =>
    rw [if_neg hlimit]
    obtain ⟨_, hint64, h⟩ := outcome_inv h
    obtain ⟨to_burn, hmul, h⟩ := outcome_inv h
    rw [outcome_monadLift] at hint64 hmul
    rw [monadLift_bind_ok hint64, monadLift_bind_ok hmul]
    obtain ⟨hvalue, _, hlt⟩ := z_to_int64_eq_ok hint64
    have hamount := Qty.mul_eq_ok hmul
    rw [hvalue] at hamount
    refine ⟨to_burn, hamount, hlt, ?_⟩
    split at h
    · next hzero =>
      cases h
      rw [if_pos hzero, hzero]
      exact ⟨rfl, .inl ⟨rfl, rfl⟩⟩
    · next hpos =>
      rw [if_neg hpos]
      have h := trace_eq_ok_iff.mp h
      obtain ⟨_, hexist, h⟩ := outcome_inv h
      obtain ⟨c1, hspend, h⟩ := outcome_inv h
      cases h
      refine ⟨?_, .inr hspend⟩
      have hunburned : burned (mine_spend c payer to_burn).events = 0 :=
        mine_spend_spec.within.unburned rfl
      change burned ((liftM (must_exist c payer) : Carbonated Unit) >>= _).events = _
      rw [outcome_monadLift] at hexist
      rw [monadLift_bind_ok hexist, events_bind_ok hspend, burned_append,
        hunburned, zero_add, events_bind_ok (outcome_emit _)]
      simp [burned, Event.burned]

end fees_storage

/-! One content. -/

/-- What contents do, with the storage fees `paid`: a run of calls that changes
balances as the results report. -/
structure Batch_effect [Environment] (updates : Balance_updates) (paid : ℤ) (c c' : Context) :
    Prop where
  run : Block_run c c'
  conserved : constants_repr.removing_empty_address ≤ c.level.level → Conserved 0 (-paid) c c'
  reported : constants_repr.removing_empty_address ≤ c.level.level → Unscripted c →
    Moved (updated_tez updates) (updated_mine updates) c c'

namespace Batch_effect

variable [Environment] {updates updates' : Balance_updates} {paid paid' : ℤ} {c c' c'' : Context}

theorem of_books_eq (h : c'.books = c.books) : Batch_effect [] 0 c c' where
  run := .of_books_eq h
  conserved _ := .of_books_eq h
  reported _ _ := .of_books_eq h

/-- Contents of a batch add up what they burn. -/
theorem trans (h : Batch_effect updates paid c c') (h' : Batch_effect updates' paid' c' c'') :
    Batch_effect (updates ++ updates') (paid + paid') c c'' where
  run := h.run.trans h'.run
  conserved hgate := by
    have hconserved := h.conserved hgate
    rw [← hconserved.level] at hgate
    exact (hconserved.trans (h'.conserved hgate)).eq (by simp) (by ring)
  reported hgate hunscripted := by
    have hmoved := h.reported hgate hunscripted
    rw [← hmoved.level] at hgate
    exact (hmoved.trans (h'.reported hgate (block_run_unscripted h.run hunscripted))).eq
      (updated_append _ _ _).symm (updated_append _ _ _).symm

end Batch_effect

namespace fees_storage

variable [Environment] {c c' : Context} {payer : Contract} {storage_limit : ℤ}

omit [Environment] in
/-- The size of a new account is small, unless no account is allocated. -/
theorem storage_cost_eq (hsize : 0 ≤ size)
    (hlt : size + allocated * c.constants.origination_size < 2 ^ 63) :
    storage_cost c size allocated =
      c.constants.cost_per_byte.amount * (size + allocated * c.constants.origination_size) := by
  unfold storage_cost
  by_cases hzero : allocated = 0
  · simp [hzero]
  · have hle : (c.constants.origination_size : ℤ) ≤ allocated * c.constants.origination_size :=
      le_mul_of_one_le_left (by omega) (by omega)
    rw [Int64.toInt_ofNat_of_lt (by omega)]

/-- The fees of what was counted are taken from the payer. -/
theorem burn_storage_fees_success (hsize : c.storage_space_to_pay = some size)
    (hallocated : c.allocated_contracts = some allocated)
    (h : (burn_storage_fees c storage_limit payer).outcome = .ok c') :
    Block_run c c' ∧ c'.storage_space_to_pay = none ∧
      (constants_repr.removing_empty_address ≤ c.level.level →
        Conserved 0 (-burned (burn_storage_fees c storage_limit payer).events) c c') ∧
      (constants_repr.removing_empty_address ≤ c.level.level → 0 ≤ size →
        Moved 0 (Pi.single payer (-storage_cost c size allocated)) c c') := by
  rw [burn_storage_fees_eq hsize hallocated] at h ⊢
  generalize hc1 : ({ c with storage_space_to_pay := none, allocated_contracts := none } : Context) =
    c1 at h ⊢
  have hbooks : c1.books = c.books := by
    rw [← hc1]
    rfl
  have hclosed : c1.storage_space_to_pay = none := by rw [← hc1]
  have hconstants : c1.constants = c.constants := by rw [← hc1]
  obtain ⟨to_burn, hamount, hlt, hburned, hcase⟩ := burn_consumed_success h
  have hmoved : constants_repr.removing_empty_address ≤ c.level.level →
      Moved 0 (Pi.single payer (-to_burn.amount)) c c' := by
    intro hgate
    have hmoved1 : Moved 0 0 c c1 := .of_books_eq hbooks
    rcases hcase with ⟨rfl, rfl⟩ | hspend
    · exact hmoved1.eq rfl (by simp)
    · rw [← hmoved1.level] at hgate
      exact (hmoved1.trans (mine_spend_moved hgate hspend)).eq (by simp) (by simp)
  refine ⟨?_, ?_, ?_, ?_⟩
  · rcases hcase with ⟨_, rfl⟩ | hspend
    · exact .of_books_eq hbooks
    · exact (Block_run.of_books_eq hbooks).tail (.mine_spend _ _ hspend)
  · rcases hcase with ⟨_, rfl⟩ | hspend
    · exact hclosed
    · have hspace : c'.storage_space_to_pay = c1.storage_space_to_pay :=
        congrArg (·.storage_space_to_pay) (mine_spend_rest hspend)
      rw [hspace, hclosed]
  · intro hgate
    rw [hburned]
    have hsingle : Moved (Pi.single payer 0) (Pi.single payer (-to_burn.amount)) c c' :=
      (hmoved hgate).eq (by simp) rfl
    exact .of_moved hsingle
  · intro hgate hnonneg
    refine (hmoved hgate).eq rfl ?_
    rw [storage_cost_eq hnonneg hlt, hamount, hconstants]

/-- Burning uses no nonce. -/
theorem burn_storage_fees_nonces (h : (burn_storage_fees c storage_limit payer).outcome = .ok c') :
    c'.internal_nonces_used = c.internal_nonces_used := by
  have hclear := h
  obtain ⟨_, hclear, _⟩ := outcome_inv hclear
  rw [outcome_monadLift] at hclear
  unfold clear_storage_space_to_pay at hclear
  split at hclear
  · next hsize hallocated =>
    rw [burn_storage_fees_eq hsize hallocated] at h
    obtain ⟨_, _, _, _, ⟨_, rfl⟩ | hspend⟩ := burn_consumed_success h
    · rfl
    · exact congrArg (·.internal_nonces_used) (mine_spend_rest hspend)
  · cases hclear

end fees_storage

namespace apply

variable [Environment] {c c' : Context} {mode : Unparsing_mode} {chain_id : Chain_id}
  {op : Manager_contents}

/-- The context in which a content is applied. -/
def opened (c : Context) (gas_limit : ℤ) : Context :=
  { raw_context.set_gas_limit c gas_limit with
    storage_space_to_pay := some 0
    allocated_contracts := some 0 }

omit [Environment] in
theorem opened_counting (c : Context) (gas_limit : ℤ) : Counting (opened c gas_limit) := ⟨rfl, rfl⟩

omit [Environment] in
/-- Counting starts if it has not started yet. -/
theorem start_counting_of_closed {gas_limit : ℤ} (hclosed : c.storage_space_to_pay = none) :
    start_counting_storage_fees (set_gas_limit c gas_limit) = .ok (opened c gas_limit) := by
  unfold start_counting_storage_fees init_storage_space_to_pay
  rw [show (set_gas_limit c gas_limit).storage_space_to_pay = none from hclosed]
  rfl

/-- A content runs under its own gas limit. -/
theorem apply_manager_contents_metered (henv : Lawful_environment)
    (hclosed : c.storage_space_to_pay = none) :
    Metered .batch (Raised (Preoriginated op.operation)) c
      (apply_manager_contents c mode chain_id op) fun r => r.1 := by
  unfold apply_manager_contents
  rw [monadLift_bind_ok (start_counting_of_closed hclosed)]
  refine .of_same_block (c := opened c op.gas_limit) rfl rfl ?_
  have hcontent_metered := (apply_manager_operation_content_spec henv
    (opened_counting c op.gas_limit) mode (implicit_contract op.source)
    (implicit_contract op.source) chain_id false op.operation fun _ h => h).within
  refine hcontent_metered.of_content.bind_attempt ?_ ?_
  · rintro ⟨c1, _, emitted⟩ h1
    refine ⟨c1, rfl, ?_⟩
    have hspent := hcontent_metered.returned _ c1 h1 rfl
    have hcounting1 := (opened_counting c op.gas_limit).of_same_operation (hspent.same_operation rfl)
    have hgas : c1.operation_gas = .Limited _ := hspent.operation_gas rfl
    have hinternal : 0 ≤ c1.internal_gas := hspent.internal_gas rfl (le_refl 0)
    have hloop_metered := apply_internal_manager_operations_metered
      (P := Preoriginated op.operation) henv mode (implicit_contract op.source)
      chain_id hcounting1 hinternal hgas emitted
    refine hloop_metered.of_content.bind_option ?_ ?_
    · intro c2 results h2
      have hcounting2 := hcounting1.of_same_operation (hloop_metered.same_operation h2 rfl)
      refine (burn_storage_fees_metered hcounting2).bind_attempt ?_ ?_
      · intro c3 _
        exact ⟨c3, rfl, .pure_of rfl (.refl c3)⟩
      · intro errors _
        exact ⟨_, rfl, rfl⟩
    · intro results _
      exact ⟨_, rfl, rfl⟩
  · intro errors _
    exact ⟨_, rfl, rfl⟩

/-- A content that is applied moves what its receipts report. -/
theorem apply_manager_contents_effect (henv : Lawful_environment)
    (hclosed : c.storage_space_to_pay = none) {result : Manager_operation_result}
    {internal : List Internal_operation_result}
    (h : (apply_manager_contents c mode chain_id op).outcome = .ok (some c', result, internal)) :
    c'.storage_space_to_pay = none ∧
      Batch_effect (result.applied_updates ++ internal.flatMap (·.result.applied_updates))
        (burned (apply_manager_contents c mode chain_id op).events) c c' := by
  unfold apply_manager_contents at h ⊢
  rw [monadLift_bind_ok (start_counting_of_closed hclosed)] at h ⊢
  generalize implicit_contract op.source = source at h ⊢
  have hopened : (opened c op.gas_limit).books = c.books := rfl
  obtain ⟨outcome, hcontent, h⟩ := outcome_inv h
  rw [events_bind_ok hcontent]
  rw [outcome_attempt] at hcontent
  have hcontent_spec := apply_manager_operation_content_spec henv
    (opened_counting c op.gas_limit) mode source source chain_id false op.operation
    fun _ _ => trivial
  obtain _ | ⟨c1, _, emitted⟩ := outcome
  · cases h
  rw [Result.attempt_eq_ok_ok_iff] at hcontent
  have hspent := hcontent_spec.within.returned _ c1 hcontent rfl
  have hcounting1 := (opened_counting c op.gas_limit).of_same_operation (hspent.same_operation rfl)
  have hloop_metered := apply_internal_manager_operations_metered (P := True) henv mode source
    chain_id hcounting1 (hspent.internal_gas rfl (le_refl 0)) (hspent.operation_gas rfl) emitted
  obtain ⟨⟨_ | c2, _⟩, hloop, h⟩ := outcome_inv h
  · cases h
  rw [events_bind_ok hloop]
  have hcounting2 := hcounting1.of_same_operation (hloop_metered.same_operation hloop rfl)
  obtain ⟨size, allocated, hsize, hallocated⟩ := hcounting2.exists_eq_some
  obtain ⟨outcome, hburn, h⟩ := outcome_inv h
  rw [events_bind_ok hburn]
  rw [outcome_attempt] at hburn
  obtain _ | c3 := outcome
  · cases h
  rw [Result.attempt_eq_ok_ok_iff] at hburn
  cases h
  obtain ⟨heffect1, hemitted, _⟩ := hcontent_spec.of_ok hcontent fun hfalse => by cases hfalse
  obtain ⟨_, ⟨_, ⟨⟩, heffect2, _⟩ | ⟨⟨⟩, _⟩⟩ :=
    (apply_internal_manager_operations_worked hloop).effect henv hcounting1 hemitted
  have heffect := heffect1.trans heffect2
  obtain ⟨hrun, hspace, hconserved, hmoved⟩ := burn_storage_fees_success hsize hallocated hburn
  have hburned : burned ((apply_manager_operation_content (opened c op.gas_limit) mode source source
      chain_id false op.operation).events ++
      ((apply_internal_manager_operations c1 mode source chain_id emitted).events ++
      ((burn_storage_fees c2 op.storage_limit source).events ++ []))) =
      burned (burn_storage_fees c2 op.storage_limit source).events := by
    rw [burned_append, burned_append, hcontent_spec.within.unburned rfl, hloop_metered.unburned rfl,
      zero_add, zero_add, append_nil]
  refine ⟨hspace, hburned ▸ ?_⟩
  refine ⟨?_, ?_, ?_⟩
  · exact ((Block_run.of_books_eq hopened).trans heffect.run).trans hrun
  · intro hgate
    have hconserved0 : Conserved 0 0 c (opened c op.gas_limit) := .of_books_eq hopened
    have hconserved1 := heffect.conserved hgate
    have hgate2 := heffect.gate hgate
    exact ((hconserved0.trans hconserved1).trans (hconserved hgate2)).eq (by simp) (by simp)
  · intro hgate hunscripted
    have hmoved0 : Moved 0 0 c (opened c op.gas_limit) := .of_books_eq hopened
    obtain ⟨size', allocated', hnonneg, howes, hmoved1⟩ :=
      heffect.charged hgate (hunscripted.of_books_eq hopened)
    have hsize' : size = size' := by
      have hspace := howes.storage_space_to_pay
      rw [hsize] at hspace
      simpa [opened] using hspace
    have hallocated' : allocated = allocated' := by
      have hcontracts := howes.allocated_contracts
      rw [hallocated] at hcontracts
      simpa [opened] using hcontracts
    subst hsize' hallocated'
    have hmoved2 := hmoved (heffect.gate hgate) hnonneg
    rw [storage_cost_congr hmoved1.constants] at hmoved2
    refine ((hmoved0.trans hmoved1).trans hmoved2).eq ?_ ?_
    · simp [Manager_operation_result.applied_updates]
    · rw [zero_add, add_assoc, ← Pi.single_add, add_neg_cancel, Pi.single_zero, add_zero]
      rfl

/-! Several contents. -/

variable {baker : Public_key_hash} {contents_list : List Manager_contents}

/-- What a result reports besides the fee. -/
def reported (r : Manager_contents_result) : Balance_updates :=
  r.operation_result.applied_updates ++
    r.internal_operation_results.flatMap (·.result.applied_updates)

/-- The author of some content chose the address of a new contract. -/
def Any_preoriginated (contents_list : List Manager_contents) : Prop :=
  ∃ op ∈ contents_list, Preoriginated op.operation

/-- The contents of a batch, one after the other. -/
theorem apply_manager_contents_list_rec_metered (henv : Lawful_environment)
    (hclosed : c.storage_space_to_pay = none) (contents_list : List Manager_contents) :
    Metered .batch (Raised (Any_preoriginated contents_list)) c
      (apply_manager_contents_list_rec c mode baker chain_id contents_list) fun r => r.1 := by
  induction contents_list generalizing c with
  | nil => exact .pure_of rfl (.refl c)
  | cons op rest ih =>
    have hcontents_metered : Metered .batch (Raised (Any_preoriginated (op :: rest))) c
        (apply_manager_contents c mode chain_id op) fun r => r.1 :=
      (apply_manager_contents_metered henv hclosed).mono fun _ hraised =>
        Raised.mono (fun h => ⟨op, mem_cons_self, h⟩) hraised
    refine hcontents_metered.bind_option ?_ ?_
    · rintro c1 ⟨result, internal⟩ h1
      obtain ⟨hclosed1, _⟩ := apply_manager_contents_effect henv hclosed h1
      have hrest_metered : Metered .batch (Raised (Any_preoriginated (op :: rest))) c1
          (apply_manager_contents_list_rec c1 mode baker chain_id rest) fun r => r.1 := by
        refine (ih hclosed1).mono fun _ hraised => Raised.mono ?_ hraised
        rintro ⟨op', hop', hpreoriginated⟩
        exact ⟨op', mem_cons_of_mem op hop', hpreoriginated⟩
      refine hrest_metered.bind_option ?_ ?_
      · intro c2 results _
        exact .pure_of rfl (.refl c2)
      · intro results _
        exact ⟨_, rfl, rfl⟩
    · rintro ⟨result, internal⟩ _
      exact ⟨_, rfl, rfl⟩

/-- Contents that are all applied do what their results report. -/
theorem apply_manager_contents_list_rec_effect (henv : Lawful_environment)
    (hclosed : c.storage_space_to_pay = none) {results : List Manager_contents_result}
    (h : (apply_manager_contents_list_rec c mode baker chain_id contents_list).outcome =
      .ok (some c', results)) :
    c'.storage_space_to_pay = none ∧
      Batch_effect (results.flatMap reported)
        (burned (apply_manager_contents_list_rec c mode baker chain_id contents_list).events) c
        c' := by
  induction contents_list generalizing c results with
  | nil =>
    cases h
    exact ⟨hclosed, .of_books_eq rfl⟩
  | cons op rest ih =>
    unfold apply_manager_contents_list_rec at h ⊢
    obtain ⟨⟨ctxt_result, _, _⟩, hcontents, h⟩ := outcome_inv h
    rw [events_bind_ok hcontents]
    cases ctxt_result with
    | none => cases h
    | some c1 =>
      obtain ⟨hclosed1, heffect1⟩ := apply_manager_contents_effect henv hclosed hcontents
      obtain ⟨⟨ctxt_result, _⟩, hrest, h⟩ := outcome_inv h
      rw [events_bind_ok hrest]
      cases h
      obtain ⟨hclosed2, heffect2⟩ := ih hclosed1 hrest
      refine ⟨hclosed2, ?_⟩
      rw [burned_append, burned_append, events_pure, burned_nil, add_zero, flatMap_cons]
      exact heffect1.trans heffect2

end apply

/-! Temporary big maps. -/

namespace big_map

theorem foldl_remove_rec (ids : List ℤ) (c : Context) : ∃ big_maps,
    ids.foldl Storage.Big_map.remove_rec c = c.with_big_maps big_maps := by
  induction ids generalizing c with
  | nil => exact ⟨c.big_maps, rfl⟩
  | cons id ids ih =>
    rw [foldl_cons]
    obtain ⟨big_maps, hfoldl⟩ := ih (Storage.Big_map.remove_rec c id)
    refine ⟨big_maps, ?_⟩
    rw [hfoldl]
    rfl

/-- Temporary big maps are gone after a batch. -/
theorem cleanup_temporary_eq (c : Context) : ∃ big_maps,
    cleanup_temporary c = { c with big_maps, temporary_big_map := -1 } := by
  obtain ⟨big_maps, hfoldl⟩ := foldl_remove_rec (temporary_big_maps c) c
  refine ⟨big_maps, ?_⟩
  unfold cleanup_temporary
  rw [hfoldl]
  rfl

end big_map

namespace apply

variable [Environment] {c c' : Context} {mode : Unparsing_mode} {chain_id : Chain_id}
  {baker : Public_key_hash} {contents_list : List Manager_contents}
  {results : List Manager_contents_result}

/-- A batch is applied as a whole, or its context is given back as it was. -/
theorem apply_manager_contents_list_cases
    (h : (apply_manager_contents_list c mode baker chain_id contents_list).outcome =
      .ok (c', results)) :
    (∃ c1, (apply_manager_contents_list_rec c mode baker chain_id contents_list).outcome =
        .ok (some c1, results) ∧ c' = big_map.cleanup_temporary c1) ∨
      ∃ results', (apply_manager_contents_list_rec c mode baker chain_id contents_list).outcome =
        .ok (none, results') ∧ c' = c ∧ results = mark_backtracked results' := by
  obtain ⟨⟨ctxt_result, results'⟩, hrec, h⟩ := outcome_inv h
  cases ctxt_result with
  | none =>
    cases h
    exact .inr ⟨results', hrec, rfl, rfl⟩
  | some c1 =>
    cases h
    exact .inl ⟨c1, hrec, rfl⟩

variable (henv : Lawful_environment) (hclosed : c.storage_space_to_pay = none)

include henv hclosed

/-- What a batch does that is not rolled back. -/
theorem apply_manager_contents_list_applied {c1 : Context}
    (h : (apply_manager_contents_list_rec c mode baker chain_id contents_list).outcome =
      .ok (some c1, results)) :
    (big_map.cleanup_temporary c1).storage_space_to_pay = none ∧
      Spent .batch
        (consumed (apply_manager_contents_list_rec c mode baker chain_id contents_list).events) c
        (big_map.cleanup_temporary c1) ∧
      Batch_effect (results.flatMap reported)
        (burned (apply_manager_contents_list_rec c mode baker chain_id contents_list).events) c
        (big_map.cleanup_temporary c1) := by
  obtain ⟨hclosed1, heffect⟩ := apply_manager_contents_list_rec_effect henv hclosed h
  have hspent := (apply_manager_contents_list_rec_metered henv hclosed contents_list).returned _ c1
    h rfl
  obtain ⟨big_maps, hcleanup⟩ := big_map.cleanup_temporary_eq c1
  rw [hcleanup]
  refine ⟨hclosed1, ⟨hspent.block_gas, ?_, ?_, ?_, hspent.surroundings⟩, ?_⟩
  · intro hscope
    cases hscope
  · intro hscope
    cases hscope
  · intro hscope
    cases hscope
  · have hbooks : ({ c1 with big_maps, temporary_big_map := -1 } : Context).books = c1.books := rfl
    have hlast := heffect.trans (.of_books_eq hbooks)
    rwa [append_nil, add_zero] at hlast

/-- A batch is a run of calls that leaves its surroundings alone, and closes
the counters of storage fees. -/
theorem apply_manager_contents_list_run
    (h : (apply_manager_contents_list c mode baker chain_id contents_list).outcome =
      .ok (c', results)) :
    Block_run c c' ∧ c'.surroundings = c.surroundings ∧ c'.storage_space_to_pay = none := by
  rcases apply_manager_contents_list_cases h with ⟨c1, hrec, rfl⟩ | ⟨_, _, rfl, _⟩
  · obtain ⟨hclosed', hspent, heffect⟩ := apply_manager_contents_list_applied henv hclosed hrec
    exact ⟨heffect.run, hspent.surroundings, hclosed'⟩
  · exact ⟨.refl, rfl, hclosed⟩

/-- A batch is a run of the steps of a block. -/
theorem apply_manager_operations_run {operation : Operation}
    (h : (apply_manager_operations c chain_id mode baker operation contents_list).outcome =
      .ok (c', results)) :
    Block_run c c' ∧ c'.surroundings = c.surroundings ∧ c'.storage_space_to_pay = none := by
  obtain ⟨c1, hprecheck, h⟩ := outcome_inv h
  have heffect := precheck_manager_contents_list_effect baker c.level hprecheck
  obtain ⟨hrun, hsurroundings, hclosed'⟩ :=
    apply_manager_contents_list_run henv (heffect.space.trans hclosed) h
  exact ⟨heffect.run.trans hrun, hsurroundings.trans heffect.surroundings, hclosed'⟩

end apply

end plexus
