import Plexus.ManagerEffects

/-! The precheck of manager operations: it takes the fee and moves the counter
of the source. -/

namespace plexus

open contract_storage raw_context contract_repr Result fees_storage

open Traced (outcome_inv)

open delegate_storage

namespace contract_storage

variable {c c' : Context}

theorem total_must_be_allocated (c : Context) (contract : Contract) :
    (must_be_allocated c contract).Total := by
  unfold must_be_allocated
  split
  · exact total_ok _
  · split <;> exact total_fail _

/-- The counter of the operation is the next one of its source. -/
theorem check_counter_increment_spec {manager : Public_key_hash} {counter : ℤ} :
    (check_counter_increment c manager counter).Meets fun _ =>
      c.contracts.counter.lookup (implicit_contract manager) = some (counter - 1) := by
  refine .bind Indexed_data_storage.get_spec fun contract_counter hcounter => ?_
  dsimp only
  split
  · next hexpected =>
    have heq : contract_counter = counter - 1 := by omega
    rw [← heq]
    exact meets_ok hcounter
  · split <;> exact meets_fail

theorem total_get_manager_key (c : Context) (manager : Public_key_hash) :
    (get_manager_key c manager).Total := by
  unfold get_manager_key
  dsimp only
  split
  · exact total_fail _
  · exact total_fail _
  · exact total_ok _

end contract_storage

namespace raw_context

variable {c c' : Context}

theorem total_consume_gas (c : Context) (cost : Cost) : (consume_gas c cost).outcome.Total := by
  unfold consume_gas
  rw [Traced.outcome_bind, Traced.outcome_monadLift]
  refine total_bind (gas_limit_repr.total_consume _ _ _ _) ?_
  intro _ _
  exact total_ok _

theorem total_check_gas_limit (c : Context) (remaining : ℤ) :
    (check_gas_limit c remaining).Total := by
  unfold check_gas_limit
  split
  · exact total_fail _
  · exact total_ok _

/-- Fees are added to those of the block. -/
theorem add_mine_fees_spec {fees : Mine} :
    (add_mine_fees c fees).Meets fun c' => ∃ mine_fees : Mine,
      mine_fees.amount = c.mine_fees.amount + fees.amount ∧ c' = { c with mine_fees } := by
  refine .bind Qty.add_spec fun mine_fees hadd => ?_
  exact meets_ok ⟨mine_fees, hadd, rfl⟩

end raw_context

theorem fees_storage.total_check_storage_limit (c : Context) (storage_limit : ℤ) :
    (check_storage_limit c storage_limit).Total := by
  unfold check_storage_limit
  split
  · exact total_fail _
  · exact total_ok _

namespace apply

variable [Environment] {c c' : Context} {raw_operation : Operation} {op : Manager_contents}

theorem total_check_signature (key : Public_key) (operation : Operation) :
    (check_signature key operation).Total := by
  unfold check_signature
  split
  · exact total_fail _
  · split
    · exact total_ok _
    · exact total_fail _

/-- Decoding the parameters takes gas only. -/
theorem precheck_parameters_off_ledger (c : Context) (parameters : Lazy_expr) :
    Off_ledger c (precheck_parameters c parameters) some := by
  refine .check_bind (total_trace _ (total_check_enough_gas _ _)).meets fun _ _ => ?_
  refine .bind_snd (.trace (script.force_decode_off_ledger c parameters)) fun _ c1 => ?_
  exact .pure_of rfl (.refl c1) rfl

/-- Decoding a script takes gas only. -/
theorem precheck_script_off_ledger (c : Context) (script : Script) :
    Off_ledger c (precheck_script c script) some := by
  refine .check_bind (total_trace _ ?_).meets fun _ _ => ?_
  · refine total_bind (total_consume_gas _ _) fun c1 _ => ?_
    exact total_check_enough_gas _ _
  refine .bind_snd (.trace (plexus.script.force_decode_off_ledger c _)) fun _ c1 => ?_
  refine .bind_snd (.trace (plexus.script.force_decode_off_ledger c1 _)) fun _ c2 => ?_
  exact .pure_of rfl (.refl c2) rfl

/-- Only a reveal writes accounts. -/
theorem precheck_manager_operation_spec {source : Public_key_hash} {operation : Manager_operation} :
    Charged Never (fun c' => c'.ledger = c.ledger ∨
      ∃ pk, reveal_manager_key c source pk = .ok c') c
      (precheck_manager_operation c source operation) some := by
  have hoff : ∀ {m : Carbonated Context}, Off_ledger c m some →
      Charged Never (fun c' => c'.ledger = c.ledger ∨
        ∃ pk, reveal_manager_key c source pk = .ok c') c m some :=
    fun h => h.imp fun c' hledger => .inl (hledger c' rfl)
  cases operation with
  | Reveal pk =>
    refine (Charged.lift reveal_manager_key_spec.total.meets ?_).imp
      fun _ hreveal => .inr ⟨pk, hreveal⟩
    rintro c' _ hreveal ⟨⟩
    obtain ⟨_, rfl⟩ := reveal_manager_key_spec.of_ok hreveal
    exact ⟨rfl⟩
  | Transaction amount parameters entrypoint destination =>
    exact hoff (precheck_parameters_off_ledger c parameters)
  | MineTransaction amount parameters entrypoint destination =>
    exact hoff (precheck_parameters_off_ledger c parameters)
  | Origination delegate script credit preorigination =>
    exact hoff (precheck_script_off_ledger c script)
  | Delegation delegate => exact hoff (.pure_of rfl (.refl c) rfl)

/-- The precheck of a content is charged to the gas limit of the content. The
counter of the content is the successor of the one of its source. -/
theorem precheck_manager_contents_spec : Charged Never (fun c' => ∃ c1 c2 c3,
    c.contracts.counter.lookup (implicit_contract op.source) = some (op.counter - 1) ∧
    (c1.ledger = (set_gas_limit c op.gas_limit).ledger ∨
      ∃ pk, reveal_manager_key (set_gas_limit c op.gas_limit) op.source pk = .ok c1) ∧
    increment_counter c1 op.source = .ok c2 ∧
    (mine_spend c2 (implicit_contract op.source) op.fee).outcome = .ok c3 ∧
    add_mine_fees c3 op.fee = .ok c') (set_gas_limit c op.gas_limit)
      (precheck_manager_contents c raw_operation op) some := by
  refine .check_bind (total_check_gas_limit _ _).meets fun _ _ => ?_
  refine .check_bind (total_check_storage_limit _ _).meets fun _ _ => ?_
  refine .check_bind (total_must_be_allocated _ _).meets fun _ _ => ?_
  refine .check_bind check_counter_increment_spec fun _ hcounter => ?_
  refine .bind_context precheck_manager_operation_spec fun c1 hprecheck => ?_
  refine .check_bind (total_get_manager_key _ _).meets fun _ _ => ?_
  refine .check_bind (total_check_signature _ _).meets fun _ _ => ?_
  refine .check_bind increment_counter_spec.total.meets fun c2 hincrement => ?_
  have hsame : Same_meter c1 c2 := by
    obtain ⟨_, _, _, _, rfl⟩ := increment_counter_spec.of_ok hincrement
    exact ⟨rfl⟩
  refine .of_same_meter hsame ?_
  refine .bind_context mine_spend_spec.part fun c3 ⟨hspend, _⟩ => ?_
  refine (Charged.lift add_mine_fees_spec.total.meets ?_).imp fun c' hfees =>
    ⟨c1, c2, c3, hcounter, hprecheck, hincrement, hspend, hfees⟩
  rintro c' _ hfees ⟨⟩
  obtain ⟨_, _, rfl⟩ := add_mine_fees_spec.of_ok hfees
  exact ⟨rfl⟩

/-! What the precheck does. -/

/-- What is done when fees are taken: they move from the accounts to the fees
of the block, as the receipts say. -/
structure Precheck_effect (updates : Balance_updates) (c c' : Context) : Prop where
  run : Block_run c c'
  surroundings : c'.surroundings = c.surroundings
  space : c'.storage_space_to_pay = c.storage_space_to_pay
  tez_eq : constants_repr.removing_empty_address ≤ c.level.level →
    tez_of c' = tez_of c + updated_tez updates
  mine_eq : constants_repr.removing_empty_address ≤ c.level.level →
    mine_of c' = mine_of c + updated_mine updates
  total_tez : constants_repr.removing_empty_address ≤ c.level.level →
    total c'.contracts.balance = total c.contracts.balance
  total_mine : constants_repr.removing_empty_address ≤ c.level.level →
    total c'.contracts.mine_balance + c'.mine_fees.amount =
      total c.contracts.mine_balance + c.mine_fees.amount

namespace Precheck_effect

variable {c'' : Context} {updates updates' : Balance_updates}

theorem refl (c : Context) : Precheck_effect [] c c where
  run := .refl
  surroundings := rfl
  space := rfl
  tez_eq _ := (add_zero _).symm
  mine_eq _ := (add_zero _).symm
  total_tez _ := rfl
  total_mine _ := rfl

theorem level (h : Precheck_effect updates c c') : c'.level = c.level :=
  congrArg (·.level) h.surroundings

/-- Prechecks of several contents add up their fees. -/
theorem trans (h : Precheck_effect updates c c') (h' : Precheck_effect updates' c' c'') :
    Precheck_effect (updates ++ updates') c c'' where
  run := h.run.trans h'.run
  surroundings := h'.surroundings.trans h.surroundings
  space := h'.space.trans h.space
  tez_eq hgate := by
    have hgate' := hgate
    rw [← h.level] at hgate'
    rw [h'.tez_eq hgate', h.tez_eq hgate, add_assoc, updated_tez, updated_append]
  mine_eq hgate := by
    have hgate' := hgate
    rw [← h.level] at hgate'
    rw [h'.mine_eq hgate', h.mine_eq hgate, add_assoc, updated_mine, updated_append]
  total_tez hgate := by
    have hgate' := hgate
    rw [← h.level] at hgate'
    rw [h'.total_tez hgate', h.total_tez hgate]
  total_mine hgate := by
    have hgate' := hgate
    rw [← h.level] at hgate'
    rw [h'.total_mine hgate', h.total_mine hgate]

end Precheck_effect

omit [Environment] in
/-- The two balances a fee is reported at are the account of the source and the
fees frozen for the baker. -/
theorem updated_fee_balance_updates (baker : Public_key_hash) (level : Level)
    (op : Manager_contents) :
    updated_tez (fee_balance_updates baker level op) = 0 ∧
      updated_mine (fee_balance_updates baker level op) =
        Pi.single (implicit_contract op.source) (-op.fee.amount) := by
  unfold fee_balance_updates
  constructor
  · simp [Balance_update.tez]
  · simp [Balance_update.mine, at_contract]

/-- A precheck takes the fee and counts the operation. -/
theorem precheck_manager_contents_effect (baker : Public_key_hash) (level : Level)
    (h : (precheck_manager_contents c raw_operation op).outcome = .ok c') :
    Precheck_effect (fee_balance_updates baker level op) c c' := by
  have hspent := precheck_manager_contents_spec.within.returned _ _ h rfl
  obtain ⟨htez, hmine⟩ := updated_fee_balance_updates baker level op
  obtain ⟨c1, c2, c3, _, hprecheck, hincrement, hspend, hadd⟩ :=
    precheck_manager_contents_spec.of_ok h
  obtain ⟨mine_fees, hfees, rfl⟩ := add_mine_fees_spec.of_ok hadd
  have hbooks : (set_gas_limit c op.gas_limit).books = c.books := rfl
  have hmoved1 : Moved 0 0 c c1 := by
    have hmoved0 : Moved 0 0 c (set_gas_limit c op.gas_limit) := .of_books_eq hbooks
    rcases hprecheck with hledger | ⟨pk, hreveal⟩
    · exact (hmoved0.trans (.of_ledger_eq hledger)).eq (by simp) (by simp)
    · exact (hmoved0.trans (reveal_manager_key_moved hreveal)).eq (by simp) (by simp)
  have hrun1 : Block_run c c1 := by
    rcases hprecheck with hledger | ⟨pk, hreveal⟩
    · exact .of_books_eq ((Context.books_eq_of_ledger_eq hledger).trans hbooks)
    · exact (Block_run.of_books_eq hbooks).tail (.reveal_manager_key _ _ hreveal)
  have hmoved2 := hmoved1.trans (increment_counter_moved hincrement)
  have hmoved3 : constants_repr.removing_empty_address ≤ c.level.level →
      Moved 0 (Pi.single (implicit_contract op.source) (-op.fee.amount)) c c3 := by
    intro hgate
    rw [← hmoved2.level] at hgate
    exact (hmoved2.trans (mine_spend_moved hgate hspend)).eq (by simp) (by simp)
  have hconserved3 : constants_repr.removing_empty_address ≤ c.level.level →
      Conserved 0 (-op.fee.amount) c c3 := by
    intro hgate
    have hsingle : Moved (Pi.single (implicit_contract op.source) 0)
        (Pi.single (implicit_contract op.source) (-op.fee.amount)) c c3 :=
      (hmoved3 hgate).eq (by simp) rfl
    exact .of_moved hsingle
  have hrest : c3.rest = (set_gas_limit c op.gas_limit).rest := by
    rw [mine_spend_rest hspend]
    obtain ⟨_, _, _, _, rfl⟩ := increment_counter_spec.of_ok hincrement
    rw [Context.rest_with_contracts]
    rcases hprecheck with hledger | ⟨pk, hreveal⟩
    · exact Context.rest_eq_of_ledger_eq hledger
    · obtain ⟨_, rfl⟩ := reveal_manager_key_spec.of_ok hreveal
      exact Context.rest_with_contracts _ _
  refine ⟨?_, hspent.surroundings, congrArg (·.storage_space_to_pay) hrest, ?_, ?_, ?_, ?_⟩
  · refine ((hrun1.tail (.increment_counter _ hincrement)).tail (.mine_spend _ _ hspend)).tail ?_
    exact .same ⟨rfl, rfl, rfl, rfl, rfl, rfl, rfl⟩
  · intro hgate
    rw [htez]
    exact (hmoved3 hgate).tez_eq
  · intro hgate
    rw [hmine]
    exact (hmoved3 hgate).mine_eq
  · intro hgate
    have htotal := (hconserved3 hgate).tez_eq
    rw [add_zero] at htotal
    exact htotal
  · intro hgate
    have hconserved := hconserved3 hgate
    have htotal := hconserved.mine_eq
    rw [hfees, htotal, hconserved.mine_fees]
    ring

/-! Several contents. -/

/-- Prechecks are charged correctly, by induction on the batch. -/
theorem precheck_manager_contents_list_metered {R : Exn → Prop} (c : Context)
    (raw_operation : Operation) (contents_list : List Manager_contents) :
    Metered .batch R c (precheck_manager_contents_list c raw_operation contents_list) some := by
  induction contents_list generalizing c with
  | nil => exact .pure_of rfl (.refl c)
  | cons op rest ih =>
    have hfirst : Metered .batch R c (precheck_manager_contents c raw_operation op) some :=
      .of_same_block (c := set_gas_limit c op.gas_limit) rfl rfl
        precheck_manager_contents_spec.metered
    exact hfirst.bind_context fun c1 _ => ih c1

/-- The prechecks of a batch take the fees of its contents. -/
theorem precheck_manager_contents_list_effect (baker : Public_key_hash) (level : Level)
    {contents_list : List Manager_contents}
    (h : (precheck_manager_contents_list c raw_operation contents_list).outcome = .ok c') :
    Precheck_effect (contents_list.flatMap (fee_balance_updates baker level)) c c' := by
  induction contents_list generalizing c with
  | nil =>
    cases h
    exact .refl _
  | cons op rest ih =>
    obtain ⟨c1, hfirst, h⟩ := outcome_inv h
    rw [List.flatMap_cons]
    exact (precheck_manager_contents_effect baker level hfirst).trans (ih h)

end apply

end plexus
