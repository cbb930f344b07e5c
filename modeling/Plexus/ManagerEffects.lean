import Plexus.StorageFees

/-! What one manager operation does to the ledger, next to what its receipt
says. Whatever its outcome, it is charged correctly and raises only a few
exceptions. -/

namespace plexus

open fees_storage

open contract_storage contract_repr constants_repr raw_context delegate_storage script_repr

open Result (total_bind total_ok meets_ok)

open Traced (outcome_inv)

/-! Operations. -/

variable {c c' : Context}

variable {script : Script}

/-- A script that is found has its code in the store. -/
theorem contract_storage.get_script_code [Environment] {contract : Contract}
    (h : (get_script c contract).outcome = .ok (c', some script)) :
    c.scripts.code.lookup contract ≠ none := by
  intro hnone
  obtain ⟨⟨c1, code⟩, hcode, h⟩ := outcome_inv h
  obtain ⟨⟨c2, storage⟩, _, h⟩ := outcome_inv h
  have hcode_none : code = none := by
    obtain ⟨c3, hgas, hcode⟩ := outcome_inv hcode
    have hlookup : (Storage.Contract.Code.store c3).lookup contract = none := by
      have hledger := congrArg (·.scripts.code) (consume_gas_ledger hgas)
      rw [Storage.Contract.Code_store, show c3.scripts.code = _ from hledger]
      exact hnone
    rw [hlookup] at hcode
    cases hcode
    rfl
  rw [hcode_none] at h
  cases storage <;> cases h

theorem Block_run.of_books_eq [Environment] (h : c'.books = c.books) :
    Block_run c c' :=
  .single (.same (.of_books_eq h))

namespace apply

variable [Environment] {c c' : Context} {payer source destination : Contract} {P : Prop}

omit [Environment] in
/-- The payer is charged for an implicit account that does not exist. -/
theorem allocate_destination_spec (hcounting : Counting c) :
    (allocate_destination c payer destination).Meets fun r => Same_meter c r.1 ∧
      ∃ allocated, Counted 0 allocated c r.1 ∧ updated_tez r.2.1 = 0 ∧
        updated_mine r.2.1 + Pi.single payer (storage_cost c 0 allocated) = 0 ∧
        (allocated ≠ 0 → ∃ pkh, destination = implicit_contract pkh) := by
  have hnone : ∀ b, (pure (c, [], b) : Tzresult (Context × Balance_updates × Bool)).Meets fun r =>
      Same_meter c r.1 ∧ ∃ allocated, Counted 0 allocated c r.1 ∧ updated_tez r.2.1 = 0 ∧
        updated_mine r.2.1 + Pi.single payer (storage_cost c 0 allocated) = 0 ∧
        (allocated ≠ 0 → ∃ pkh, destination = implicit_contract pkh) := fun b =>
    meets_ok ⟨.refl c, 0, .of_ledger_eq rfl, by simp, by simp [storage_cost], by simp⟩
  unfold allocate_destination
  split
  · exact hnone false
  · next pkh himplicit =>
    split
    · exact hnone false
    · refine .bind (origination_burn_spec hcounting) ?_
      rintro ⟨c1, _⟩ ⟨hamount, hcounted, hsame⟩
      refine meets_ok ⟨hsame, 1, hcounted, by simp [Balance_update.tez], ?_, fun _ =>
        ⟨pkh, is_implicit_eq_some_iff.mp himplicit⟩⟩
      simp [Balance_update.mine, ← hamount, ← Pi.single_add]

/-- The nonces of one operation have the same hash. -/
theorem total_originated_from_current_nonce (h : Same_operation c c') :
    (originated_from_current_nonce c c').Total := by
  have htotal (ctxt : Context) : (origination_nonce ctxt).Total := by
    unfold origination_nonce
    split
    · exact total_fail _
    · exact total_ok _
  refine total_bind (htotal c) ?_
  intro since hsince
  refine total_bind (htotal c') ?_
  intro until_ huntil
  refine total_bind ?_ fun _ _ => total_ok _
  have hhash := h.operation_hash
  unfold origination_nonce at hsince huntil
  split at hsince
  · exact absurd hsince fail_ne_ok
  · next nonce hnonce =>
    split at huntil
    · exact absurd huntil fail_ne_ok
    · next nonce' hnonce' =>
      cases hsince
      cases huntil
      rw [hnonce, hnonce', Option.map_some, Option.map_some, Option.some.injEq] at hhash
      unfold originated_contracts
      rw [if_pos hhash.symm]
      exact total_ok _

variable {parameters : Lazy_expr} {entrypoint : String}

/-- A call of an account without code writes nothing. -/
theorem call_unscripted_off_ledger (c : Context) (parameters : Lazy_expr) (entrypoint : String)
    (destination : Contract) :
    Off_ledger c (call_unscripted c parameters entrypoint destination) some := by
  refine .check_bind fail_unless_spec fun _ _ => ?_
  refine .bind_snd (script.force_decode_off_ledger c parameters) fun arg c1 => ?_
  refine .bind_context (.consume_gas c1 (deserialized_cost_nonneg arg)) fun c2 => ?_
  refine .check_bind fail_unless_spec fun _ _ => ?_
  exact .pure_of rfl (.refl c2) rfl

/-- What a call does besides crediting the destination: it may have the payer
charged for storage, and the receipt says so. -/
structure Call_effect (payer destination : Contract) (amount : Tez) (mine_amount : Mine)
    (transfer updates : Balance_updates) (c c' : Context) : Prop where
  run : Block_run c c'
  moved : Moved (Pi.single destination amount.amount) (Pi.single destination mine_amount.amount)
    c c'
  charged : Unscripted c → ∃ size allocated, 0 ≤ size ∧ Owes size allocated c c' ∧
    updated_tez updates = updated_tez transfer ∧
    updated_mine updates + Pi.single payer (storage_cost c size allocated) = updated_mine transfer

omit [Environment] in
/-- The price of storage is in the constants. -/
theorem storage_cost_congr (h : c'.constants = c.constants) (size : ℤ) (allocated : Nat) :
    storage_cost c' size allocated = storage_cost c size allocated := by
  simp only [storage_cost, h]

omit [Environment] in
/-- Prices add up. -/
theorem storage_cost_add (c : Context) (size size' : ℤ) (allocated allocated' : Nat) :
    storage_cost c (size + size') (allocated + allocated') =
      storage_cost c size allocated + storage_cost c size' allocated' := by
  simp only [storage_cost]
  push_cast
  ring

omit [Environment] in
@[simp] theorem storage_cost_zero (c : Context) : storage_cost c 0 0 = 0 := by
  simp [storage_cost]

variable {before_operation : Context} {mode : Unparsing_mode} {chain_id : Chain_id} {amount : Tez}

/-- A transfer credits the destination, runs its script and pays for storage;
the accounts change by the credit alone. -/
theorem credit_and_call_spec (henv : Lawful_environment) (hcounting : Counting c)
    (hoperation : Same_operation before_operation c) {mine_amount : Mine}
    {transfer : Balance_updates} :
    Charged (Raised P) (fun r =>
      Call_effect payer destination amount mine_amount transfer r.2.1.balance_updates c r.1 ∧
      (∀ op ∈ r.2.2, op.operation.Emitted) ∧
      r.1.internal_nonces_used = c.internal_nonces_used) c
      (credit_and_call before_operation c mode payer source chain_id amount mine_amount parameters
        entrypoint destination transfer) fun r => some r.1 := by
  refine .check_bind (allocate_destination_spec hcounting) ?_
  rintro ⟨c1, _, _⟩ ⟨hsame1, allocated, hcounted1, htez, hmine, himplicit⟩
  refine .of_same_meter hsame1 ?_
  refine .bind_context credit_spec.weaken.part fun c2 ⟨hcredit, _, hsame2⟩ => ?_
  refine .bind_fst (get_script_off_ledger c2 destination).weaken.part
    fun c3 script ⟨hscript, hledger3, hsame3⟩ => ?_
  have hrest2 := credit_rest hcredit
  have hrun2 : Block_run c c2 :=
    (Block_run.of_books_eq hcounted1.books).tail (.credit _ _ _ hcredit)
  have hmoved2 := (Moved.of_books_eq hcounted1.books).trans (credit_moved hcredit)
  -- What follows the credit leaves the accounts alone.
  have hafter {size : ℤ} {c' : Context} (hcounted : Counted size 0 c2 c') : Block_run c c' ∧ Moved
      (Pi.single destination amount.amount) (Pi.single destination mine_amount.amount) c c' ∧ Owes
      size allocated c c' ∧ c'.internal_nonces_used = c.internal_nonces_used := by
    have howes := (hcounted1.owes.trans (.of_rest_eq hrest2)).trans hcounted.owes
    simp only [zero_add, add_zero] at howes
    exact ⟨hrun2.trans (Block_run.of_books_eq hcounted.books),
      (hmoved2.trans (.of_books_eq hcounted.books)).eq (by simp) (by simp), howes,
      (hcounted.nonces.trans (congrArg (·.internal_nonces_used) hrest2)).trans hcounted1.nonces⟩
  have hcounted3 : Counted 0 0 c2 c3 := .of_ledger_eq (hledger3 c3 rfl)
  cases script with
  | none =>
    refine .bind_context (call_unscripted_off_ledger c3 _ _ _).weaken fun c4 hcall => ?_
    obtain ⟨hrun, hmoved, howes, hnonces⟩ := hafter (hcounted3.trans (.of_ledger_eq (hcall c4 rfl)))
    refine .pure_of rfl (.refl c4) ⟨⟨hrun, hmoved, fun _ => ?_⟩, by simp, hnonces⟩
    refine ⟨0, allocated, le_refl 0, howes, by simp [htez], ?_⟩
    rw [updated_mine, updated_mine_cleanup, updated_append, add_assoc, hmine, add_zero]
  | some script =>
    refine .bind_snd (plexus.script.force_decode_off_ledger c3 parameters).weaken.part
      fun parameter c4 ⟨_, hledger4, hsame4⟩ => ?_
    refine .bind_context (Off_ledger.consume_gas c4
      (deserialized_cost_nonneg parameter)).weaken.part
      fun c5 ⟨_, hledger5, hsame5⟩ => ?_
    have hexecute : Charged Script_raised _ c5 _ _ := ⟨henv.execute_metered c5 mode
      { source, payer, self := destination, amount, mine_amount, chain_id } script parameter
      entrypoint, fun h => And.intro (henv.execute_run h) (henv.execute_emits h)⟩
    refine (hexecute.mono fun _ => Script_raised.raised).part.bind
      fun result ⟨_, ⟨hrun6, hemitted⟩, hsame6⟩ => ⟨result.ctxt, rfl, ?_⟩
    refine .bind_context (update_script_storage_off_ledger result.ctxt destination
      result.storage result.big_map_diff).weaken.part fun c7 ⟨_, hledger7, hsame7⟩ => ?_
    have hsame : Same_operation c c7 := (((((hsame1.same_operation.trans (hsame2 c2 rfl)).trans
      (hsame3 c3 rfl)).trans (hsame4 c4 rfl)).trans (hsame5 c5 rfl)).trans (hsame6 _ rfl)).trans
      (hsame7 c7 rfl)
    have hcounted7 : Counted 0 0 c2 c7 := (((hcounted3.trans (.of_ledger_eq (hledger4 c4 rfl))).trans
      (.of_ledger_eq (hledger5 c5 rfl))).trans (.of_script_run hrun6)).trans
      (.of_ledger_eq (hledger7 c7 rfl))
    refine .bind_fst (record_paid_storage_space_spec (hcounting.of_same_operation hsame)).part ?_
    rintro c8 ⟨_, paid, _⟩ ⟨_, ⟨hpaid, hfees, hcounted8⟩, hsame8⟩
    refine .check_bind (total_originated_from_current_nonce
      ((hoperation.trans hsame).trans (hsame8 c8 rfl))).meets fun _ _ => ?_
    obtain ⟨hrun, hmoved, howes, hnonces⟩ := hafter (hcounted7.trans hcounted8)
    refine .pure_of rfl (.refl c8) ⟨⟨hrun, hmoved, fun hunscripted => ?_⟩, hemitted, hnonces⟩
    have hcode := get_script_code hscript
    have hunscripted2 : Unscripted c2 := (hunscripted.of_books_eq hcounted1.books).credit hcredit
    by_cases hallocated : allocated = 0
    · subst hallocated
      refine ⟨paid, 0, hpaid, howes, by simp [Balance_update.tez], ?_⟩
      have hconstants : c7.constants = c.constants :=
        (congrArg (·.constants) hcounted7.books).trans hmoved2.constants
      simp only [updated_mine_cleanup, updated_cons, at_contract_contract, Balance_update.mine,
        hfees, storage_cost_congr hconstants, Pi.single_neg]
      abel
    · obtain ⟨pkh, rfl⟩ := himplicit hallocated
      exact absurd (hunscripted2 pkh) hcode

/-- What an operation, with everything it was charged for, does: a run of calls
that changes balances as the receipt says, up to the storage fees, which are
taken from the payer later. -/
structure Content_effect (payer : Contract) (updates : Balance_updates) (c c' : Context) :
    Prop where
  run : Block_run c c'
  conserved : constants_repr.removing_empty_address ≤ c.level.level → Conserved 0 0 c c'
  charged : constants_repr.removing_empty_address ≤ c.level.level → Unscripted c →
    ∃ size allocated, 0 ≤ size ∧ Owes size allocated c c' ∧
      Moved (updated_tez updates)
        (updated_mine updates + Pi.single payer (storage_cost c size allocated)) c c'

namespace Content_effect

variable {c'' : Context} {updates updates' : Balance_updates}

/-- Nothing is done and nothing is reported. -/
theorem of_books_eq (hbooks : c'.books = c.books) (howes : Owes 0 0 c c') :
    Content_effect payer [] c c' where
  run := .of_books_eq hbooks
  conserved _ := .of_books_eq hbooks
  charged _ _ := ⟨0, 0, le_refl 0, howes, (Moved.of_books_eq hbooks).eq (by simp) (by simp)⟩

theorem of_ledger_eq (hledger : c'.ledger = c.ledger) : Content_effect payer [] c c' :=
  of_books_eq (Context.books_eq_of_ledger_eq hledger) (.of_ledger_eq hledger)

theorem gate (h : Content_effect payer updates c c')
    (hgate : removing_empty_address ≤ c.level.level) :
    removing_empty_address ≤ c'.level.level := by
  rw [(h.conserved hgate).level]
  exact hgate

/-- Contents add up their receipts. -/
theorem trans (h : Content_effect payer updates c c') (h' : Content_effect payer updates' c' c'') :
    Content_effect payer (updates ++ updates') c c'' where
  run := h.run.trans h'.run
  conserved hgate := by
    exact ((h.conserved hgate).trans (h'.conserved (h.gate hgate))).eq (by simp) (by simp)
  charged hgate hunscripted := by
    obtain ⟨size, allocated, _, howes, hmoved⟩ := h.charged hgate hunscripted
    obtain ⟨size', allocated', _, howes', hmoved'⟩ :=
      h'.charged (h.gate hgate) (block_run_unscripted h.run hunscripted)
    refine ⟨size + size', allocated + allocated', by omega, howes.trans howes',
      (hmoved.trans hmoved').eq (updated_append _ _ _).symm ?_⟩
    rw [storage_cost_congr hmoved.constants, storage_cost_add, Pi.single_add, updated_mine,
      updated_append]
    abel

/-- A transfer: a spending followed by a call. -/
theorem of_call (source : Contract) {c1 : Context} {mine_amount : Mine} {transfer : Balance_updates}
    (hrun : Block_run c c1) (howes : Owes 0 0 c c1)
    (hspent : removing_empty_address ≤ c.level.level →
      Moved (Pi.single source (-amount.amount)) (Pi.single source (-mine_amount.amount)) c c1)
    (hcall : Call_effect payer destination amount mine_amount transfer updates c1 c')
    (htez : updated_tez transfer =
      Pi.single source (-amount.amount) + Pi.single destination amount.amount)
    (hmine : updated_mine transfer =
      Pi.single source (-mine_amount.amount) + Pi.single destination mine_amount.amount) :
    Content_effect payer updates c c' where
  run := hrun.trans hcall.run
  conserved hgate := by
    exact ((Conserved.of_moved (hspent hgate)).trans (.of_moved hcall.moved)).eq (by simp) (by simp)
  charged hgate hunscripted := by
    obtain ⟨size, allocated, hsize, howes1, htez1, hmine1⟩ :=
      hcall.charged (block_run_unscripted hrun hunscripted)
    have hspent := hspent hgate
    have howes' := howes.trans howes1
    rw [zero_add, zero_add] at howes'
    refine ⟨size, allocated, hsize, howes', (hspent.trans hcall.moved).eq ?_ ?_⟩
    · rw [htez1, htez]
    · rw [← storage_cost_congr hspent.constants, hmine1, hmine]

end Content_effect

/-- A transfer of tez conserves them. -/
theorem apply_transaction_spec (henv : Lawful_environment) (hcounting : Counting c)
    (hoperation : Same_operation before_operation c) :
    Charged (Raised P) (fun r => Content_effect payer r.2.1.balance_updates c r.1 ∧
      (∀ op ∈ r.2.2, op.operation.Emitted) ∧
      r.1.internal_nonces_used = c.internal_nonces_used) c
      (apply_transaction before_operation c mode payer source chain_id amount parameters entrypoint
        destination) fun r => some r.1 := by
  refine .bind_context spend_spec.weaken.part fun c1 ⟨hspend, _, hsame⟩ => ?_
  have hsame := hsame c1 rfl
  have hrest := spend_rest hspend
  refine (credit_and_call_spec henv (hcounting.of_same_operation hsame)
    (hoperation.trans hsame)).imp ?_
  rintro ⟨c', _, _⟩ ⟨hcall, hemitted, hnonces⟩
  refine ⟨.of_call source (.single (.spend _ _ hspend)) (.of_rest_eq hrest) ?_ hcall ?_ ?_, hemitted,
    hnonces.trans (congrArg (·.internal_nonces_used) hrest)⟩
  · intro hgate
    exact (spend_moved hgate hspend).eq rfl (by simp)
  · simp [Balance_update.tez]
  · simp [Balance_update.mine]

/-- A transfer of MINE conserves them. -/
theorem apply_mine_transaction_spec (henv : Lawful_environment) (hcounting : Counting c)
    (hoperation : Same_operation before_operation c) {amount : Mine} :
    Charged (Raised P) (fun r => Content_effect payer r.2.1.balance_updates c r.1 ∧
      (∀ op ∈ r.2.2, op.operation.Emitted) ∧
      r.1.internal_nonces_used = c.internal_nonces_used) c
      (apply_mine_transaction before_operation c mode payer source chain_id amount parameters
        entrypoint destination) fun r => some r.1 := by
  refine .bind_context mine_spend_spec.weaken.part fun c1 ⟨hspend, _, hsame⟩ => ?_
  have hsame := hsame c1 rfl
  have hrest := mine_spend_rest hspend
  refine (credit_and_call_spec henv (hcounting.of_same_operation hsame)
    (hoperation.trans hsame)).imp ?_
  rintro ⟨c', _, _⟩ ⟨hcall, hemitted, hnonces⟩
  refine ⟨.of_call source (.single (.mine_spend _ _ hspend)) (.of_rest_eq hrest) ?_ hcall ?_ ?_,
    hemitted, hnonces.trans (congrArg (·.internal_nonces_used) hrest)⟩
  · intro hgate
    exact (mine_spend_moved hgate hspend).eq (by simp) rfl
  · simp [Balance_update.tez]
  · simp [Balance_update.mine]

/-! Origination. -/

/-- Typechecking a script counts no storage. -/
theorem prepare_script_spec (henv : Lawful_environment) {script : Script} :
    Charged Script_raised (fun r => Counted 0 0 c r.2.2) c (prepare_script c script)
      fun r => some r.2.2 := by
  refine .bind_snd (plexus.script.force_decode_off_ledger c _).weaken fun storage c1 hledger1 => ?_
  refine .bind_context (Off_ledger.consume_gas c1
    (deserialized_cost_nonneg storage)).weaken fun c2 hledger2 => ?_
  refine .bind_snd (plexus.script.force_decode_off_ledger c2 _).weaken fun code c3 hledger3 => ?_
  refine .bind_context (Off_ledger.consume_gas c3
    (deserialized_cost_nonneg code)).weaken fun c4 hledger4 => ?_
  refine .bind_snd ⟨henv.parse_script_metered c4 script, henv.parse_script_run⟩
    fun parsed c5 hrun5 => ?_
  refine .bind_snd ⟨henv.collect_big_maps_metered c5 parsed, henv.collect_big_maps_run⟩
    fun ids c6 hrun6 => ?_
  have hextract : Charged Script_raised _ c6 _ _ :=
    ⟨henv.extract_big_map_diff_metered c6 .Optimized parsed ids, henv.extract_big_map_diff_run⟩
  refine hextract.bind fun ⟨data, diff, c7⟩ hrun7 => ⟨c7, rfl, ?_⟩
  refine .bind_snd ⟨henv.unparse_data_metered c7 .Optimized data, henv.unparse_data_run⟩
    fun storage' c8 hrun8 => .pure_of rfl (.refl c8) ?_
  have hledger : c4.ledger = c.ledger :=
    (((hledger4 c4 rfl).trans (hledger3 c3 rfl)).trans (hledger2 c2 rfl)).trans (hledger1 c1 rfl)
  exact (Counted.of_ledger_eq hledger).trans
    (.of_script_run (((hrun5.trans hrun6).trans hrun7).trans hrun8))

variable {internal : Bool} {preorigination : Option Contract}

/-- A new address is not that of an implicit account. -/
theorem originated_address_spec
    (hP : ∀ contract, internal = false → preorigination = some contract → P) :
    Charged (Raised P) (fun r => Counted 0 0 c r.1 ∧
      ((∀ contract, internal = true → preorigination = some contract →
        is_implicit contract = none) → is_implicit r.2 = none)) c
      (liftM (originated_address c internal preorigination)) fun r => some r.1 := by
  cases preorigination with
  | none =>
    refine (Charged.lift fresh_contract_from_current_nonce_spec ?_).imp ?_
    · rintro _ _ ⟨nonce, hnonce, rfl⟩ ⟨⟩
      exact ⟨by
        simp [Context.meter, Context.surroundings, hnonce, incr_origination_nonce]⟩
    · rintro _ ⟨nonce, hnonce, rfl⟩
      exact ⟨⟨rfl, .of_eq rfl rfl, rfl⟩, fun _ => rfl⟩
  | some contract =>
    cases hinternal : internal with
    | true => exact .pure_of rfl (.refl c) ⟨.of_ledger_eq rfl, fun h => h contract rfl rfl⟩
    | false => exact .raise (.Assert_internal (hP contract hinternal rfl))

/-- An origination moves the credit to the new contract and pays for its
storage. -/
theorem apply_origination_spec (henv : Lawful_environment) (hcounting : Counting c)
    (hP : ∀ contract, internal = false → preorigination = some contract → P)
    {delegate : Option Public_key_hash} {script : Script} {credit : Tez} :
    Charged (Raised P) (fun r => (∀ contract, internal = true → preorigination = some contract →
        is_implicit contract = none) →
      Content_effect payer r.2.balance_updates c r.1 ∧
        r.1.internal_nonces_used = c.internal_nonces_used) c
      (apply_origination before_operation c payer source internal delegate script credit
        preorigination) fun r => some r.1 := by
  refine ((prepare_script_spec henv).mono fun _ => Script_raised.raised).part.bind
    fun ⟨script', diff, c1⟩ hprepare => ⟨c1, rfl, ?_⟩
  obtain ⟨_, hcounted1, hsame1⟩ := hprepare
  refine .bind_context spend_spec.weaken.part fun c2 ⟨hspend, _, hsame2⟩ => ?_
  refine .bind_fst (originated_address_spec hP).part
    fun c3 contract ⟨_, ⟨hcounted3, hcontract⟩, hsame3⟩ => ?_
  refine .bind_context ((originate_spec.mono ?_).part) fun c4 ⟨horiginate, _, hsame4⟩ => ?_
  · rintro _ rfl
    exact .Assert_total_size
  have hcounting4 := hcounting.of_same_operation ((((hsame1 c1 rfl).trans (hsame2 c2 rfl)).trans
    (hsame3 c3 rfl)).trans (hsame4 c4 rfl))
  refine .check_bind (origination_burn_spec hcounting4) ?_
  rintro ⟨c5, burn⟩ ⟨hburn, hcounted5, hsame5⟩
  refine .of_same_meter hsame5 ?_
  refine .bind_fst (record_paid_storage_space_spec
    (hcounting4.of_same_operation hsame5.same_operation)) ?_
  rintro c6 ⟨_, paid, fees⟩ ⟨hpaid, hfees, hcounted6⟩
  refine .pure_of rfl (.refl c6) fun hpreorigination => ?_
  have hrest2 := spend_rest hspend
  have hrest4 := originate_rest horiginate
  have hnonces2 : c2.internal_nonces_used = c1.internal_nonces_used :=
    congrArg (·.internal_nonces_used) hrest2
  have hnonces4 : c4.internal_nonces_used = c3.internal_nonces_used :=
    congrArg (·.internal_nonces_used) hrest4
  have hnonces : c6.internal_nonces_used = c.internal_nonces_used := by
    rw [hcounted6.nonces, hcounted5.nonces, hnonces4, hcounted3.nonces, hnonces2, hcounted1.nonces]
  have hrun2 : Block_run c c2 := (Block_run.of_books_eq hcounted1.books).tail (.spend _ _ hspend)
  have hrun4 : Block_run c c4 := (hrun2.trans (Block_run.of_books_eq hcounted3.books)).tail
    (.originate _ _ _ _ _ (hcontract hpreorigination) horiginate)
  have hbooks : c6.books = c4.books := hcounted6.books.trans hcounted5.books
  have hspent : removing_empty_address ≤ c.level.level →
      Moved (Pi.single source (-credit.amount)) 0 c c2 := by
    intro hgate
    have hmoved1 : Moved 0 0 c c1 := .of_books_eq hcounted1.books
    have hgate1 : removing_empty_address ≤ c1.level.level := by
      rw [hmoved1.level]
      exact hgate
    exact (hmoved1.trans (spend_moved hgate1 hspend)).eq (zero_add _) (zero_add _)
  have hcredited : Moved (Pi.single contract credit.amount) 0 c2 c6 :=
    (((Moved.of_books_eq hcounted3.books).trans
      (originate_moved horiginate)).trans (.of_books_eq hbooks)).eq (by simp)
      (by simp)
  refine ⟨⟨hrun4.trans (Block_run.of_books_eq hbooks), ?_, ?_⟩, hnonces⟩
  · intro hgate
    have hspent' := (hspent hgate).eq rfl (Pi.single_zero source).symm
    have hcredited' := hcredited.eq rfl (Pi.single_zero contract).symm
    exact ((Conserved.of_moved hspent').trans (.of_moved hcredited')).eq (by simp) (by simp)
  · intro hgate _
    have howes4 := ((hcounted1.owes.trans (.of_rest_eq hrest2)).trans hcounted3.owes).trans
      (.of_rest_eq hrest4)
    have howes := (howes4.trans hcounted5.owes).trans hcounted6.owes
    simp only [zero_add, add_zero] at howes
    have hmoved := (hspent hgate).trans hcredited
    have hconstants4 : c4.constants = c.constants :=
      (congrArg (·.constants) hbooks).symm.trans hmoved.constants
    have hconstants5 : c5.constants = c4.constants := congrArg (·.constants) hcounted5.books
    have hcost : storage_cost c paid 1 = fees.amount + burn.amount := by
      rw [hfees, hburn, storage_cost_congr hconstants5, storage_cost_congr hconstants4,
        storage_cost_congr hconstants4, ← storage_cost_add]
      simp
    refine ⟨paid, 1, hpaid, howes, hmoved.eq ?_ ?_⟩
    · simp [Balance_update.tez]
    · simp only [updated_mine_cleanup, updated_cons, updated_nil, at_contract_contract,
        Balance_update.mine, hcost, Pi.single_add, Pi.single_neg, Pi.single_zero]
      abel

/-! One operation. -/

/-- A delegation moves nothing. -/
theorem delegation_effect {o : Option Public_key_hash} (h : set c source o = .ok c') :
    Content_effect payer [] c c' ∧ c'.internal_nonces_used = c.internal_nonces_used := by
  have hset := set_undelegated h
  have hmoved := undelegated_moved hset
  refine ⟨⟨.single (.set _ _ h), fun _ => .of_moved_zero hmoved, fun _ _ => ?_⟩,
    congrArg (·.internal_nonces_used) hset.rest⟩
  exact ⟨0, 0, le_refl 0, .of_rest_eq hset.rest, hmoved.eq (by simp) (by simp)⟩

/-- The address of a new contract is chosen by the author of the operation. -/
def Preoriginated : Manager_operation → Prop
  | .Origination _ _ _ (some _) => True
  | _ => False

/-- An operation, from outside or from a script, does what its receipt says. -/
theorem apply_manager_operation_content_spec (henv : Lawful_environment) (hcounting : Counting c)
    (mode : Unparsing_mode) (payer source : Contract) (chain_id : Chain_id) (internal : Bool)
    (operation : Manager_operation) (hP : internal = false → Preoriginated operation → P) :
    Charged (Raised P) (fun r => (internal = true → operation.Emitted) →
      Content_effect payer r.2.1.balance_updates c r.1 ∧
        (∀ op ∈ r.2.2, op.operation.Emitted) ∧ r.2.1.kind = manager_kind operation ∧
        r.1.internal_nonces_used = c.internal_nonces_used) c
      (apply_manager_operation_content c mode payer source chain_id internal operation)
      fun r => some r.1 := by
  refine .check_bind (total_must_exist _ _).meets fun _ _ => ?_
  refine .bind_context (Off_ledger.consume_gas c
    gas_limit_repr.manager_operation_nonneg).weaken.part fun c1 ⟨_, hledger, hsame⟩ => ?_
  have hledger := hledger c1 rfl
  have hsame := hsame c1 rfl
  have hcounting1 := hcounting.of_same_operation hsame
  have hgas_effect : Content_effect payer [] c c1 := .of_ledger_eq hledger
  have hnonces1 : c1.internal_nonces_used = c.internal_nonces_used :=
    congrArg (·.internal_nonces_used) hledger
  cases operation with
  | Reveal pk => exact .pure_of rfl (.refl c1) fun _ => ⟨hgas_effect, by simp, rfl, hnonces1⟩
  | Transaction amount parameters entrypoint destination =>
    refine .bind_fst (apply_transaction_spec henv hcounting1 hsame) ?_
    rintro c2 ⟨receipt, emitted⟩ ⟨heffect, hemitted, hnonces⟩
    exact .pure_of rfl (.refl c2) fun _ =>
      ⟨hgas_effect.trans heffect, hemitted, rfl, hnonces.trans hnonces1⟩
  | MineTransaction amount parameters entrypoint destination =>
    refine .bind_fst (apply_mine_transaction_spec henv hcounting1 hsame) ?_
    rintro c2 ⟨receipt, emitted⟩ ⟨heffect, hemitted, hnonces⟩
    exact .pure_of rfl (.refl c2) fun _ =>
      ⟨hgas_effect.trans heffect, hemitted, rfl, hnonces.trans hnonces1⟩
  | Origination delegate script credit preorigination =>
    refine .bind_fst (apply_origination_spec henv hcounting1 ?_) fun c2 receipt horigination => ?_
    · rintro contract hinternal rfl
      exact hP hinternal trivial
    refine .pure_of rfl (.refl c2) fun hemitted => ?_
    obtain ⟨heffect, hnonces⟩ := horigination fun contract hinternal hsome => by
      subst hsome
      exact hemitted hinternal
    exact ⟨hgas_effect.trans heffect, by simp, rfl, hnonces.trans hnonces1⟩
  | Delegation delegate =>
    refine .check_bind (total_set _ _ _).meets fun c2 hset => ?_
    obtain ⟨heffect, hnonces⟩ := delegation_effect hset
    exact .pure_of rfl (set_undelegated hset).same_meter fun _ =>
      ⟨hgas_effect.trans heffect, by simp, rfl, hnonces.trans hnonces1⟩

/-! Internal operations. -/

/-- An internal operation that is applied has a new nonce, which is used from
then on. -/
theorem apply_internal_operation_spec (henv : Lawful_environment) (hcounting : Counting c)
    (mode : Unparsing_mode) (payer : Contract) (chain_id : Chain_id) (op : Internal_operation) :
    Charged (Raised P) (fun r => op.operation.Emitted →
      Content_effect payer r.2.1.balance_updates c r.1 ∧
        (∀ op ∈ r.2.2, op.operation.Emitted) ∧ r.2.1.kind = manager_kind op.operation ∧
        op.nonce ∉ c.internal_nonces_used ∧
        r.1.internal_nonces_used = insert op.nonce c.internal_nonces_used) c
      (apply_internal_operation c mode payer chain_id op) fun r => some r.1 := by
  unfold apply_internal_operation
  split
  · exact .fail
  · next hnew =>
    have hsame : Same_meter c (record_internal_nonce c op.nonce) := ⟨rfl⟩
    have hnonce : Content_effect payer [] c (record_internal_nonce c op.nonce) :=
      .of_books_eq rfl (.of_eq rfl rfl)
    refine .of_same_meter hsame ((apply_manager_operation_content_spec henv
      (hcounting.of_same_operation hsame.same_operation) _ _ _ _ _ _
      fun hfalse _ => by cases hfalse).imp ?_)
    intro r hspec hop
    obtain ⟨heffect, hoperations, hkind, hnonces⟩ := hspec fun _ => hop
    exact ⟨hnonce.trans heffect, hoperations, hkind, of_decide_eq_false (Bool.not_eq_true _ ▸ hnew),
      hnonces⟩

end apply

end plexus
