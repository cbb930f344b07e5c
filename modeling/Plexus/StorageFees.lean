import Plexus.Unscripted

/-! What a manager operation is charged for storage, and what its receipt says
about balances. -/

namespace plexus

open raw_context Qty

open Result (total_ok bind_inv meets_ok within_bind)

/-- The exceptions a manager operation may raise. `Assert_internal` needs an
origination from outside with an address chosen by its author. -/
inductive Raised (preoriginated : Prop) : Exn → Prop where
  | Z_overflow : Raised preoriginated .Z_overflow
  | Assert_total_size : Raised preoriginated .Assert_total_size
  | Assert_internal (h : preoriginated) : Raised preoriginated .Assert_internal
  | Assert_script : Raised preoriginated .Assert_script

/-- Fewer preoriginations raise less. -/
theorem Raised.mono {P Q : Prop} (hPQ : P → Q) {x : Exn} (h : Raised P x) : Raised Q x := by
  cases h with
  | Z_overflow => exact .Z_overflow
  | Assert_total_size => exact .Assert_total_size
  | Assert_internal h => exact .Assert_internal (hPQ h)
  | Assert_script => exact .Assert_script

/-- What a script raises, its operation raises. -/
theorem Script_raised.raised {P : Prop} {x : Exn} (h : Script_raised x) : Raised P x := by
  cases h
  exact .Assert_script

/-- The storage fees of an operation are being counted. -/
structure Counting (c : Context) : Prop where
  space : c.storage_space_to_pay.isSome = true
  contracts : c.allocated_contracts.isSome = true

/-- Counting goes on within an operation. -/
theorem Counting.of_same_operation {c c' : Context} (h : Counting c) (hsame : Same_operation c c') :
    Counting c' where
  space := hsame.counts_space.trans h.space
  contracts := hsame.counts_contracts.trans h.contracts

namespace delegate_storage

/-! Sums of balance updates. -/

/-- What an update adds to a tez balance. -/
def Balance_update.tez : Balance_update → ℤ
  | .Debited amount => -amount.amount
  | .Credited amount => amount.amount
  | .MineDebited _ => 0
  | .MineCredited _ => 0

/-- What an update adds to a MINE balance. -/
def Balance_update.mine : Balance_update → ℤ
  | .Debited _ => 0
  | .Credited _ => 0
  | .MineDebited amount => -amount.amount
  | .MineCredited amount => amount.amount

/-- An amount for the contract a balance belongs to, if to any. -/
def at_contract (balance : Balance) (δ : ℤ) : Contract → ℤ :=
  match balance with
  | .Contract contract => Pi.single contract δ
  | _ => 0

@[simp] theorem at_contract_contract (contract : Contract) (δ : ℤ) :
    at_contract (.Contract contract) δ = Pi.single contract δ := rfl

@[simp] theorem at_contract_zero (balance : Balance) : at_contract balance 0 = 0 := by
  cases balance <;> simp [at_contract]

/-- What the updates of a receipt add to the balance of each contract, in the
token that `amount` selects. -/
def updated (amount : Balance_update → ℤ) (updates : Balance_updates) : Contract → ℤ :=
  (updates.map fun u => at_contract u.1 (amount u.2)).sum

abbrev updated_tez : Balance_updates → Contract → ℤ := updated Balance_update.tez

abbrev updated_mine : Balance_updates → Contract → ℤ := updated Balance_update.mine

section Sums

variable (amount : Balance_update → ℤ)

@[simp] theorem updated_nil : updated amount [] = 0 := rfl

@[simp] theorem updated_cons (u : Balance × Balance_update) (updates : Balance_updates) :
    updated amount (u :: updates) = at_contract u.1 (amount u.2) + updated amount updates := by
  simp [updated]

/-- Updates of a receipt add up. -/
@[simp] theorem updated_append (updates updates' : Balance_updates) :
    updated amount (updates ++ updates') = updated amount updates + updated amount updates' := by
  simp [updated]

/-- Updates that say nothing can be left out. -/
theorem updated_filter (p : Balance × Balance_update → Bool)
    (hp : ∀ u, p u = false → amount u.2 = 0) (updates : Balance_updates) :
    updated amount (updates.filter p) = updated amount updates := by
  induction updates with
  | nil => rfl
  | cons u updates ih =>
    rw [List.filter_cons]
    cases hu : p u with
    | true => simp [ih]
    | false => simp [ih, hp u hu]

end Sums

/-- Leaving out the updates by zero changes no sum. -/
@[simp] theorem updated_tez_cleanup (updates : Balance_updates) :
    updated Balance_update.tez (cleanup_balance_updates updates) =
      updated Balance_update.tez updates := by
  apply updated_filter
  rintro ⟨_, update⟩ hp
  cases update <;> simp_all [Balance_update.tez]

@[simp] theorem updated_mine_cleanup (updates : Balance_updates) :
    updated Balance_update.mine (cleanup_balance_updates updates) =
      updated Balance_update.mine updates := by
  apply updated_filter
  rintro ⟨_, update⟩ hp
  cases update <;> simp_all [Balance_update.mine]

end delegate_storage

open delegate_storage

def Successful_manager_operation_result.kind : Successful_manager_operation_result → Manager_kind
  | .Reveal_result _ => .Reveal_manager_kind
  | .Transaction_result _ => .Transaction_manager_kind
  | .MineTransaction_result _ => .MineTransaction_manager_kind
  | .Origination_result _ => .Origination_manager_kind
  | .Delegation_result _ => .Delegation_manager_kind

/-- The balance updates in the receipt of an operation. -/
def Successful_manager_operation_result.balance_updates :
    Successful_manager_operation_result → Balance_updates
  | .Reveal_result _ => []
  | .Transaction_result receipt => receipt.balance_updates
  | .MineTransaction_result receipt => receipt.balance_updates
  | .Origination_result receipt => receipt.balance_updates
  | .Delegation_result _ => []

/-- What a result reports as done. -/
def Manager_operation_result.applied_updates : Manager_operation_result → Balance_updates
  | .Applied result => result.balance_updates
  | _ => []

/-! Storage fees. -/

/-- What storage of a size and a number of new accounts cost. -/
def storage_cost (c : Context) (size : ℤ) (allocated : Nat) : ℤ :=
  c.constants.cost_per_byte.amount *
    (size + allocated * (Int64.ofNat c.constants.origination_size).toInt)

/-- The conversion is exact where it returns. -/
theorem z_to_int64_eq_ok {z : ℤ} {n : Int64} (h : z_to_int64 z = .ok n) :
    n.toInt = z ∧ -2 ^ 63 ≤ z ∧ z < 2 ^ 63 := by
  unfold z_to_int64 at h
  split at h
  · next hz =>
    cases h
    exact ⟨Int64.toInt_ofInt_of_le hz.1 hz.2, hz⟩
  · cases h

theorem z_to_int64_within {P : Prop} (z : ℤ) : (z_to_int64 z).Within (Raised P) := by
  unfold z_to_int64
  split
  · exact (total_ok _).within
  · exact Result.within_raise .Z_overflow

/-- Storage is counted, the accounts stay as they are and no nonce is used. -/
structure Counted (size : ℤ) (allocated : Nat) (c c' : Context) : Prop where
  books : c'.books = c.books
  owes : Owes size allocated c c'
  nonces : c'.internal_nonces_used = c.internal_nonces_used

namespace Counted

variable {c c' c'' : Context} {size : ℤ} {allocated : Nat}

/-- Nothing is counted while the ledger stays as it is. -/
theorem of_ledger_eq (h : c'.ledger = c.ledger) : Counted 0 0 c c' where
  books := Context.books_eq_of_ledger_eq h
  owes := .of_ledger_eq h
  nonces := congrArg (·.internal_nonces_used) h

/-- A script counts no storage by itself. -/
theorem of_script_run (h : Script_run c c') : Counted 0 0 c c' where
  books := Context.books_eq_of_script_run h
  owes := .of_script_run h
  nonces := congrArg (·.internal_nonces_used) h.ledger

/-- Counts add up. -/
theorem trans (h : Counted 0 0 c c') (h' : Counted size allocated c' c'') :
    Counted size allocated c c'' where
  books := h'.books.trans h.books
  owes := by
    have howes := h.owes.trans h'.owes
    rwa [zero_add, zero_add] at howes
  nonces := h'.nonces.trans h.nonces

end Counted

namespace fees_storage

variable {c c' : Context} {contract : Contract}

/-- A new contract is counted and paid for once. -/
theorem origination_burn_spec (hcounting : Counting c) : (origination_burn c).Meets fun r =>
    r.2.amount = storage_cost c 0 1 ∧ Counted 0 1 c r.1 ∧ Same_meter c r.1 := by
  refine .bind (total_mul _ _).meets fun to_be_paid hmul => ?_
  obtain ⟨n, hn⟩ := Option.isSome_iff_exists.mp hcounting.contracts
  have hupdate : update_allocated_contracts_count c =
      .ok { c with allocated_contracts := some (n + 1) } := by
    simp [update_allocated_contracts_count, hn]
  rw [hupdate]
  refine meets_ok ⟨?_, ⟨rfl, ⟨by simp, by simp [hn]⟩, rfl⟩,
    ⟨by simp [Context.meter, Context.surroundings, hn]⟩⟩
  rw [mul_eq_ok hmul]
  simp [storage_cost, constants_storage.cost_per_byte, constants_storage.origination_size]

/-- What is to be paid for is never negative. -/
theorem set_paid_storage_space_spec {size : ℤ} :
    (contract_storage.set_paid_storage_space_and_return_fees_to_pay c contract size).Meets fun r =>
      0 ≤ r.1 ∧ r.2.ledger = c.ledger ∧ Same_meter c r.2 := by
  refine .bind Indexed_data_storage.get_spec fun already_paid_space _ => ?_
  split
  · exact meets_ok ⟨le_refl 0, rfl, .refl c⟩
  · refine .seq Indexed_data_storage.set_spec ?_
    exact meets_ok ⟨by omega, by simp, ⟨rfl⟩⟩

/-- Recording storage can overflow, while storage is being counted. -/
theorem record_paid_storage_space_within {P : Prop} (hcounting : Counting c) :
    (record_paid_storage_space c contract).Within (Raised P) := by
  refine within_bind set_paid_storage_space_spec.total.within fun ⟨paid, c1⟩ hset => ?_
  refine within_bind ?_ fun c2 _ => ?_
  · unfold update_storage_space_to_pay
    split
    · next hnone =>
      obtain ⟨_, _, hsame⟩ := set_paid_storage_space_spec.of_ok hset
      have hsome := (hcounting.of_same_operation hsame.same_operation).space
      rw [hnone] at hsome
      cases hsome
    · exact (total_ok _).within
  · refine within_bind (z_to_int64_within paid) fun n _ => ?_
    refine within_bind (total_mul _ _).within fun _ _ => ?_
    exact (total_ok _).within

/-- The storage recorded is counted and priced. -/
theorem record_paid_storage_space_success {size paid : ℤ} {burn : Mine}
    (h : record_paid_storage_space c contract = .ok (c', size, paid, burn)) :
    (0 ≤ paid ∧ burn.amount = storage_cost c paid 0 ∧ Counted paid 0 c c') ∧ Same_meter c c' := by
  obtain ⟨⟨_, c1⟩, hset, h⟩ := bind_inv h
  obtain ⟨c2, hupdate, h⟩ := bind_inv h
  obtain ⟨n, hn, h⟩ := bind_inv h
  obtain ⟨_, hmul, h⟩ := bind_inv h
  cases h
  obtain ⟨hpaid, hledger, hsame⟩ := set_paid_storage_space_spec.of_ok hset
  unfold update_storage_space_to_pay at hupdate
  split at hupdate
  · cases hupdate
  · next space hspace =>
    cases hupdate
    have hconstants : c1.constants = c.constants := congrArg (·.constants) hledger
    refine ⟨⟨hpaid, ?_, (Counted.of_ledger_eq hledger).trans ?_⟩, hsame.trans ?_⟩
    · rw [mul_eq_ok hmul, (z_to_int64_eq_ok hn).1]
      simp [storage_cost, constants_storage.cost_per_byte, hconstants]
    · exact ⟨rfl, ⟨by simp [hspace, add_comm], by simp⟩, rfl⟩
    · exact ⟨by simp [Context.meter, Context.surroundings, hspace]⟩

/-- Both, as a part of an operation. -/
theorem record_paid_storage_space_spec {P : Prop} (hcounting : Counting c) :
    Charged (Raised P) (fun r => 0 ≤ r.2.2.1 ∧ r.2.2.2.amount = storage_cost c r.2.2.1 0 ∧
      Counted r.2.2.1 0 c r.1) c (liftM (record_paid_storage_space c contract))
      fun r => some r.1 := by
  refine .lift_within (record_paid_storage_space_within hcounting) ?_ ?_
  · intro r hr
    exact (record_paid_storage_space_success hr).1
  · rintro r _ hr ⟨⟩
    exact (record_paid_storage_space_success hr).2

end fees_storage

end plexus
