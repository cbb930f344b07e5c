import Plexus.DelegateStorage

/-! What the functions of `Delegate_storage` do. -/

namespace plexus

open contract_repr Qty

open roll_storage.Delegate (Booked add_amount_spec remove_amount_spec set_active_spec)
open Result (meets_ok)
open Indexed_data_storage (get_spec init_spec set_spec)

/-- The accounts without who delegates to whom. -/
def Contracts.undelegated (contracts : Contracts) : Contracts :=
  { contracts with delegate := Store.empty, delegated := ∅, delegates := ∅ }

namespace delegate_storage

variable {c c' : Context} {contract : Contract} {d : Public_key_hash}

/-! Delegation. -/

def with_delegate (c : Context) (contract : Contract) (delegate : Option Public_key_hash) :
    Context :=
  c.with_contracts { c.contracts with
    delegate := c.contracts.delegate.put contract delegate }

def with_delegated (c : Context) (delegated : Finset (Contract × Contract)) : Context :=
  c.with_contracts { c.contracts with delegated }

/-- Linking books the balance of a contract for its delegate and lists the
contract. -/
theorem link_spec :
    (link c contract d).Meets fun c' => ∃ balance c1,
      c.contracts.mine_balance.lookup contract = some balance ∧
      Booked d balance.amount c c1 ∧
      c' = with_delegated c1 (insert (implicit_contract d, contract) c1.contracts.delegated) := by
  refine .bind get_spec fun balance hbalance => ?_
  refine .bind add_amount_spec fun c1 hadd => ?_
  exact meets_ok ⟨balance, c1, hbalance, hadd, rfl⟩

/-- Unlinking does the reverse, if there is a delegate. -/
theorem unlink_spec :
    (unlink c contract).Meets fun c' => ∃ balance,
      c.contracts.mine_balance.lookup contract = some balance ∧
      (c.contracts.delegate.lookup contract = none ∧ c' = c ∨
        ∃ d c1, c.contracts.delegate.lookup contract = some d ∧
          Booked d (-balance.amount) c c1 ∧
          c' = with_delegated c1
            (c1.contracts.delegated.erase (implicit_contract d, contract))) := by
  refine .bind get_spec fun balance hbalance => ?_
  split
  · next hdelegate => exact meets_ok ⟨balance, hbalance, .inl ⟨hdelegate, rfl⟩⟩
  · next d hdelegate =>
    refine .bind remove_amount_spec fun c1 hremove => ?_
    exact meets_ok ⟨balance, hbalance, .inr ⟨d, c1, hdelegate, hremove, rfl⟩⟩

/-- A first delegate is known and registered. -/
theorem init_spec :
    (init c contract d).Meets fun c' =>
      known c d = true ∧ registered c d = true ∧ c.contracts.delegate.lookup contract = none ∧
      link (with_delegate c contract (some d)) contract d = .ok c' := by
  refine .bind fail_unless_spec fun _ hknown => ?_
  refine .bind fail_unless_spec fun _ hregistered => ?_
  refine .bind Indexed_data_storage.init_spec ?_
  rintro _ ⟨hnone, rfl⟩
  exact link_spec.total.meets.imp fun _ hlink => ⟨hknown, hregistered, hnone, hlink⟩

/-- A delegate is registered when it delegates to itself. -/
theorem registered_iff :
    registered c d = true ↔
      c.contracts.delegate.lookup (implicit_contract d) = some d := by
  unfold registered
  simp only [Indexed_data_storage.get_option, Storage.Contract.Delegate_store]
  cases c.contracts.delegate.lookup (implicit_contract d) with
  | none => simp
  | some d' => simp [eq_comm]

theorem self_delegation_iff :
    self_delegation contract d = true ↔ contract = implicit_contract d := by
  unfold self_delegation
  cases contract with
  | Implicit pkh => simp [is_implicit, implicit_contract]
  | Originated hash => simp [is_implicit, implicit_contract]

/-- `set` without a delegate removes the entry; a registered delegate keeps
its own. -/
theorem set_none_spec :
    (set c contract none).Meets fun c' =>
      (∀ pkh, contract = implicit_contract pkh → registered c pkh = false) ∧
      ∃ c1, unlink c contract = .ok c1 ∧ c' = with_delegate c1 contract none := by
  have hdelete : (do
      let c ← unlink c contract
      pure (Storage.Contract.Delegate.remove c contract) : Tzresult Context).Meets fun c' =>
      ∃ c1, unlink c contract = .ok c1 ∧ c' = with_delegate c1 contract none :=
    .bind unlink_spec.total.meets fun c1 hunlink => meets_ok ⟨c1, hunlink, rfl⟩
  simp only [set]
  split
  · next pkh himplicit =>
    rw [is_implicit_eq_some_iff] at himplicit
    subst himplicit
    split
    · exact meets_fail
    · next hregistered =>
      refine hdelete.imp fun _ h => ⟨?_, h⟩
      intro pkh' hpkh
      rw [← implicit_contract_injective hpkh]
      exact Bool.not_eq_true _ ▸ hregistered
  · next himplicit =>
    refine hdelete.imp fun _ h => ⟨?_, h⟩
    rintro pkh rfl
    cases himplicit

/-- An active delegate cannot register again. -/
theorem check_current_delegate_spec :
    (check_current_delegate c contract d).Meets fun _ => contract = implicit_contract d →
      c.contracts.delegate.lookup contract = some d →
        roll_storage.Delegate.is_inactive c d = true := by
  unfold check_current_delegate
  split
  · next hnone => exact meets_ok fun _ hsome => by cases hnone.symm.trans hsome
  · next current hcurrent =>
    split
    · split
      · split
        · next hinactive => exact meets_ok fun _ _ => hinactive
        · exact meets_fail
      · exact meets_fail
    · next hne =>
      exact meets_ok fun _ hsome => absurd (Option.some.inj (hsome.symm.trans hcurrent)) hne

/-- A registered delegate cannot delegate to another one. -/
theorem check_not_registered_spec :
    (check_not_registered c contract d).Meets fun _ =>
      ∀ pkh, contract = implicit_contract pkh → pkh ≠ d → registered c pkh = false := by
  unfold check_not_registered
  split
  · next himplicit =>
    refine meets_ok ?_
    rintro pkh rfl
    cases himplicit
  · next pkh himplicit =>
    rw [is_implicit_eq_some_iff] at himplicit
    subst himplicit
    split
    · exact meets_fail
    · next hreg =>
      refine meets_ok fun pkh' hpkh hne => ?_
      rw [← implicit_contract_injective hpkh] at hne ⊢
      have hself : self_delegation (implicit_contract pkh) d = false := by
        rw [Bool.eq_false_iff, Ne, self_delegation_iff]
        exact fun heq => hne (implicit_contract_injective heq)
      simpa [hself] using hreg

/-- `set` with a delegate moves the MINE balance of the contract from one
delegate to the other, and activates a delegate that registers. -/
theorem set_some_spec :
    (set c contract (some d)).Meets fun c' => known c d = true ∧
      (registered c d = true ∨ contract = implicit_contract d) ∧
      (∀ pkh, contract = implicit_contract pkh → pkh ≠ d →
        registered c pkh = false) ∧
      (contract = implicit_contract d →
        c.contracts.delegate.lookup contract = some d →
          roll_storage.Delegate.is_inactive c d = true) ∧
      ∃ c1 c2, unlink c contract = .ok c1 ∧
        link (with_delegate c1 contract (some d)) contract d = .ok c2 ∧
        (contract ≠ implicit_contract d ∧ c' = c2 ∨
          contract = implicit_contract d ∧ Booked d 0 (Storage.Delegates.add c2 d) c') := by
  simp only [set]
  split
  · exact meets_fail
  · next hallowed =>
    simp only [Bool.or_eq_true, Bool.not_eq_true', Bool.or_eq_false_iff, not_or,
      Bool.not_eq_false, not_and] at hallowed
    obtain ⟨hknown, hregistered⟩ := hallowed
    have hregistered' : registered c d = true ∨ contract = implicit_contract d := by
      rw [← self_delegation_iff]
      by_cases hreg : registered c d = true
      · exact .inl hreg
      · exact .inr (hregistered (Bool.not_eq_true _ ▸ hreg))
    refine .bind check_current_delegate_spec fun _ hcurrent => ?_
    refine .bind check_not_registered_spec fun _ hother => ?_
    refine .bind fail_when_spec fun _ _ => ?_
    refine .bind unlink_spec.total.meets fun c1 hunlink => ?_
    refine .bind link_spec.total.meets fun c2 hlink => ?_
    split
    · next hself =>
      refine set_active_spec.imp fun c' hactive => ?_
      exact ⟨hknown, hregistered', hother, hcurrent, c1, c2, hunlink, hlink,
        .inr ⟨self_delegation_iff.mp hself, hactive⟩⟩
    · next hself =>
      exact meets_ok ⟨hknown, hregistered', hother, hcurrent, c1, c2, hunlink, hlink,
        .inl ⟨fun heq => hself (self_delegation_iff.mpr heq), rfl⟩⟩

/-- Contexts that differ in who delegates to whom and in the rolls. -/
structure Redelegated (c c' : Context) : Prop where
  frame : c' = (c.with_contracts c'.contracts).with_rolls c'.rolls
  contracts : c'.contracts.undelegated = c.contracts.undelegated

/-- Scripts are not among the accounts. -/
theorem Redelegated.scripts (h : Redelegated c c') : c'.scripts = c.scripts := by
  rw [h.frame]
  rfl

/-- Changes of delegates compose. -/
theorem Redelegated.trans {c1 : Context} (h : Redelegated c c1) (h' : Redelegated c1 c') :
    Redelegated c c' where
  frame := h'.frame.trans
    (congrArg (fun c => (c.with_contracts c'.contracts).with_rolls c'.rolls) h.frame)
  contracts := h'.contracts.trans h.contracts

theorem Redelegated.of_with_rolls {rolls : Rolls} (h : c' = c.with_rolls rolls) :
    Redelegated c c' := by
  rw [h]
  exact ⟨rfl, rfl⟩

theorem with_delegate_undelegated (c : Context) (contract : Contract) (o : Option Public_key_hash) :
    Redelegated c (with_delegate c contract o) := ⟨rfl, rfl⟩

/-- Linking changes delegations and rolls. -/
theorem link_undelegated (h : link c contract d = .ok c') : Redelegated c c' := by
  obtain ⟨_, c1, _, hadd, rfl⟩ := link_spec.of_ok h
  exact (Redelegated.of_with_rolls hadd.with_rolls).trans ⟨rfl, rfl⟩

/-- Unlinking changes delegations and rolls. -/
theorem unlink_undelegated (h : unlink c contract = .ok c') : Redelegated c c' := by
  obtain ⟨_, _, ⟨_, rfl⟩ | ⟨d, c1, _, hremove, rfl⟩⟩ := unlink_spec.of_ok h
  · exact ⟨rfl, rfl⟩
  · exact (Redelegated.of_with_rolls hremove.with_rolls).trans ⟨rfl, rfl⟩

/-- A first delegate changes delegations and rolls. -/
theorem init_undelegated (h : init c contract d = .ok c') : Redelegated c c' := by
  obtain ⟨_, _, _, hlink⟩ := init_spec.of_ok h
  exact (with_delegate_undelegated _ _ _).trans (link_undelegated hlink)

/-- Setting a delegate raises no exception. -/
theorem total_set (c : Context) (contract : Contract) (o : Option Public_key_hash) :
    (set c contract o).Total := by
  cases o with
  | none => exact set_none_spec.total
  | some d => exact set_some_spec.total

/-- Setting a delegate changes delegations and rolls. -/
theorem set_undelegated {o : Option Public_key_hash} (h : set c contract o = .ok c') :
    Redelegated c c' := by
  cases o with
  | none =>
    obtain ⟨_, c1, hunlink, rfl⟩ := set_none_spec.of_ok h
    exact (unlink_undelegated hunlink).trans (with_delegate_undelegated _ _ _)
  | some d =>
    obtain ⟨_, _, _, _, c1, c2, hunlink, hlink, hcase⟩ := set_some_spec.of_ok h
    have hdelegated : Redelegated c c2 := (unlink_undelegated hunlink).trans
      ((with_delegate_undelegated _ _ _).trans (link_undelegated hlink))
    rcases hcase with ⟨_, rfl⟩ | ⟨_, hactive⟩
    · exact hdelegated
    · have hadded : Redelegated c2 (Storage.Delegates.add c2 d) := ⟨rfl, rfl⟩
      exact (hdelegated.trans hadded).trans (.of_with_rolls hactive.with_rolls)

/-! The freezer. -/

@[simps! contracts scripts rolls constants freezer level]
def with_frozen_deposits (c : Context) (k : Contract × Cycle) (o : Option Mine) : Context :=
  c.with_freezer { c.freezer with frozen_deposits := c.freezer.frozen_deposits.put k o }

@[simps! contracts scripts rolls constants freezer level]
def with_frozen_fees (c : Context) (k : Contract × Cycle) (o : Option Mine) : Context :=
  c.with_freezer { c.freezer with frozen_fees := c.freezer.frozen_fees.put k o }

@[simps! contracts scripts rolls constants freezer level]
def with_frozen_rewards (c : Context) (k : Contract × Cycle) (o : Option Tez) : Context :=
  c.with_freezer { c.freezer with frozen_rewards := c.freezer.frozen_rewards.put k o }

@[simps! contracts scripts rolls constants freezer level]
def with_frozen_delegates (c : Context) (delegates : Finset (Cycle × Public_key_hash)) : Context :=
  c.with_freezer { c.freezer with delegates_with_frozen_balance := delegates }

variable {cycle : Cycle} {amount : Mine}

/-- The deposit is added to what is frozen in the cycle. -/
theorem credit_frozen_deposit_spec :
    (credit_frozen_deposit c d cycle amount).Meets fun c' => ∃ new_amount delegates,
      new_amount.amount =
        (get_frozen_deposit c (implicit_contract d) cycle).amount + amount.amount ∧
      c' = with_frozen_delegates
        (with_frozen_deposits c (implicit_contract d, cycle) (some new_amount))
        delegates := by
  refine .bind add_spec fun new_amount hadd => ?_
  exact meets_ok ⟨new_amount, _, hadd, rfl⟩

/-- The fees are added to what is frozen in the cycle. -/
theorem credit_frozen_fees_spec :
    (credit_frozen_fees c d cycle amount).Meets fun c' => ∃ new_amount delegates,
      new_amount.amount = (get_frozen_fees c (implicit_contract d) cycle).amount + amount.amount ∧
      c' = with_frozen_delegates (with_frozen_fees c (implicit_contract d, cycle) (some new_amount))
        delegates := by
  refine .bind add_spec fun new_amount hadd => ?_
  exact meets_ok ⟨new_amount, _, hadd, rfl⟩

/-- The rewards are added to what is frozen in the cycle. -/
theorem credit_frozen_rewards_spec {amount : Tez} :
    (credit_frozen_rewards c d cycle amount).Meets fun c' => ∃ new_amount delegates,
      new_amount.amount =
        (get_frozen_rewards c (implicit_contract d) cycle).amount + amount.amount ∧
      c' = with_frozen_delegates
        (with_frozen_rewards c (implicit_contract d, cycle) (some new_amount))
        delegates := by
  refine .bind add_spec fun new_amount hadd => ?_
  exact meets_ok ⟨new_amount, _, hadd, rfl⟩

/-- `freeze_deposit` moves an amount from the MINE balance of the delegate to
its deposits of the current cycle. -/
theorem freeze_deposit_spec :
    (freeze_deposit c d amount).Meets fun c' => ∃ c1 c2 balance new_balance, Booked d 0 c c1 ∧
      c1.contracts.mine_balance.lookup (implicit_contract d) = some balance ∧
      new_balance.amount = balance.amount - amount.amount ∧
      c2 = c1.with_contracts { c1.contracts with
        mine_balance := c1.contracts.mine_balance.put (implicit_contract d) (some new_balance) } ∧
      credit_frozen_deposit c2 d c.level.cycle amount = .ok c' := by
  refine .bind set_active_spec fun c1 hactive => ?_
  refine .bind get_spec fun balance hbalance => ?_
  refine .bind (meets_trace sub_spec) fun new_balance hsub => ?_
  refine .seq set_spec ?_
  refine credit_frozen_deposit_spec.total.meets.imp fun c' hcredit => ?_
  exact ⟨c1, _, balance, new_balance, hactive, hbalance, hsub, rfl, hcredit⟩

/-- Fees are booked for the delegate before they are frozen. -/
theorem freeze_fees_spec :
    (freeze_fees c d amount).Meets fun c' => ∃ c1, Booked d amount.amount c c1 ∧
      credit_frozen_fees c1 d c.level.cycle amount = .ok c' := by
  refine .bind add_amount_spec fun c1 hadd => ?_
  exact credit_frozen_fees_spec.total.meets.imp fun _ hcredit => ⟨c1, hadd, hcredit⟩

/-- What is burnt and what is left are together what there was. -/
theorem burnt_fees_amount (old_amount amount : Mine) :
    (burnt_fees old_amount amount).1.amount + (burnt_fees old_amount amount).2.amount =
      old_amount.amount := by
  unfold burnt_fees
  rcases sub_cases old_amount amount with ⟨_, new_amount, hsub⟩ | ⟨_, hsub⟩
  · rw [hsub]
    have hnew := Qty.sub_eq_ok_iff.mp hsub
    dsimp only
    omega
  · rw [hsub]
    simp [fail]

/-- At most the frozen fees are burnt, and booked out. -/
theorem burn_fees_spec :
    (burn_fees c d cycle amount).Meets fun c' => ∃ (burnt new_amount : Mine) (c1 : Context),
      burnt.amount + new_amount.amount = (get_frozen_fees c (implicit_contract d) cycle).amount ∧
      Booked d (-burnt.amount) c c1 ∧
      c' = with_frozen_fees c1 (implicit_contract d, cycle) (some new_amount) := by
  refine .bind remove_amount_spec fun c1 hremove => ?_
  exact meets_ok ⟨_, _, c1, burnt_fees_amount _ amount, hremove, rfl⟩

/-- `unfreeze` gives the delegate everything it had frozen in a cycle. -/
theorem unfreeze_spec :
    (unfreeze c d cycle).Meets fun r => ∃ balance new_balance mine_balance new_mine_balance,
      c.contracts.balance.lookup (implicit_contract d) = some balance ∧
      c.contracts.mine_balance.lookup (implicit_contract d) = some mine_balance ∧
      new_balance.amount = balance.amount +
        (get_frozen_rewards c (implicit_contract d) cycle).amount ∧
      new_mine_balance.amount = mine_balance.amount +
        (get_frozen_deposit c (implicit_contract d) cycle).amount +
        (get_frozen_fees c (implicit_contract d) cycle).amount ∧
      r.1 = with_frozen_rewards (with_frozen_fees (with_frozen_deposits
        (c.with_contracts { c.contracts with
          mine_balance := c.contracts.mine_balance.put (implicit_contract d) (some new_mine_balance)
          balance := c.contracts.balance.put (implicit_contract d) (some new_balance) })
        (implicit_contract d, cycle) none)
        (implicit_contract d, cycle) none)
        (implicit_contract d, cycle) none := by
  refine .bind get_spec fun mine_balance hmine => ?_
  refine .bind get_spec fun balance hbalance => ?_
  refine .bind add_spec fun unfrozen hunfrozen => ?_
  refine .bind add_spec fun new_mine_balance hmine_add => ?_
  refine .seq set_spec ?_
  refine .bind add_spec fun new_balance hadd => ?_
  refine .seq set_spec ?_
  refine meets_ok ⟨balance, new_balance, mine_balance, new_mine_balance, hbalance, hmine, hadd,
    by omega, ?_⟩
  simp [with_frozen_deposits, with_frozen_fees, with_frozen_rewards]

/-- `punish` takes everything the delegate had frozen in a cycle. -/
theorem punish_spec :
    (punish c d cycle).Meets fun r => ∃ c1,
      Booked d (-(get_frozen_deposit c (implicit_contract d) cycle).amount +
        -(get_frozen_fees c (implicit_contract d) cycle).amount) c c1 ∧
      r.1 = with_frozen_rewards (with_frozen_fees (with_frozen_deposits c1
        (implicit_contract d, cycle) none)
        (implicit_contract d, cycle) none)
        (implicit_contract d, cycle) none := by
  refine .bind remove_amount_spec fun c1 hdeposit => ?_
  refine .bind remove_amount_spec fun c2 hfees => ?_
  refine meets_ok ⟨c2, hdeposit.trans hfees, ?_⟩
  simp [with_frozen_deposits, with_frozen_fees, with_frozen_rewards]

/-- Accounts become `contracts`; besides them only rolls and the freezer change. -/
def Refrozen (contracts : Contracts) (c c' : Context) : Prop :=
  c' = { c with contracts, rolls := c'.rolls, freezer := c'.freezer }

/-- Freezing a deposit changes the account, the freezer and the rolls. -/
theorem freeze_deposit_refrozen (h : freeze_deposit c d amount = .ok c') :
    Refrozen c'.contracts c c' := by
  obtain ⟨c1, _, _, _, hactive, _, _, rfl, hcredit⟩ := freeze_deposit_spec.of_ok h
  obtain ⟨_, _, _, rfl⟩ := credit_frozen_deposit_spec.of_ok hcredit
  rw [hactive.with_rolls]
  exact rfl

/-- Freezing fees changes the freezer and the rolls. -/
theorem freeze_fees_refrozen (h : freeze_fees c d amount = .ok c') : Refrozen c.contracts c c' := by
  obtain ⟨c1, hadd, hcredit⟩ := freeze_fees_spec.of_ok h
  obtain ⟨_, _, _, rfl⟩ := credit_frozen_fees_spec.of_ok hcredit
  rw [hadd.with_rolls]
  exact rfl

/-- Freezing rewards changes the freezer. -/
theorem freeze_rewards_refrozen {amount : Tez} (h : freeze_rewards c d amount = .ok c') :
    Refrozen c.contracts c c' := by
  obtain ⟨_, _, _, rfl⟩ := credit_frozen_rewards_spec.of_ok h
  exact rfl

/-- Burning fees changes the freezer and the rolls. -/
theorem burn_fees_refrozen (h : burn_fees c d cycle amount = .ok c') :
    Refrozen c.contracts c c' := by
  obtain ⟨_, _, c1, _, hremove, rfl⟩ := burn_fees_spec.of_ok h
  rw [hremove.with_rolls]
  exact rfl

/-- Unfreezing changes the account, the freezer and the rolls. -/
theorem unfreeze_refrozen {balance_updates : Balance_updates}
    (h : unfreeze c d cycle = .ok (c', balance_updates)) : Refrozen c'.contracts c c' := by
  obtain ⟨_, _, _, _, _, _, _, _, rfl⟩ := unfreeze_spec.of_ok h
  exact rfl

/-- A punishment changes the freezer and the rolls. -/
theorem punish_refrozen {frozen : Frozen_balance} (h : punish c d cycle = .ok (c', frozen)) :
    Refrozen c.contracts c c' := by
  obtain ⟨c1, hbooked, rfl⟩ := punish_spec.of_ok h
  rw [hbooked.with_rolls]
  exact rfl

end delegate_storage

end plexus
