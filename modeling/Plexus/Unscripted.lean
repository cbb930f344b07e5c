import Plexus.Transfers

/-! Implicit accounts have no code. -/

namespace plexus

open contract_storage delegate_storage

open roll_storage.Delegate (set_active_spec)

/-- No implicit account has code. -/
def Unscripted (c : Context) : Prop :=
  ∀ pkh, c.scripts.code.lookup (contract_repr.implicit_contract pkh) = none

namespace Unscripted

variable {c c' : Context} {contract : Contract}

section

variable (h : Unscripted c)

include h

theorem congr (hcode : c'.scripts.code = c.scripts.code) : Unscripted c' := by
  intro pkh
  rw [hcode]
  exact h pkh

theorem of_scripts_eq (hscripts : c'.scripts = c.scripts) : Unscripted c' :=
  h.congr (by rw [hscripts])

theorem refrozen {contracts : Contracts} (hrefrozen : Refrozen contracts c c') : Unscripted c' :=
  h.of_scripts_eq (congrArg (·.scripts) hrefrozen)

theorem of_books_eq (hbooks : c'.books = c.books) : Unscripted c' :=
  h.congr (congrArg (·.scripts.code) hbooks)

theorem of_ledger_eq (hledger : c'.ledger = c.ledger) : Unscripted c' :=
  h.congr (congrArg (·.scripts.code) hledger)

theorem deleted : Unscripted (deleted c contract) := by
  intro pkh
  change (c.scripts.code.put contract none).lookup _ = none
  rw [Store.lookup_put]
  split
  · rfl
  · exact h pkh

theorem spend {amount : Tez} (hspend : (spend c contract amount).outcome = .ok c') :
    Unscripted c' := by
  obtain ⟨_, _, _, _, _, _, rfl | ⟨_, _, _, _, hledger⟩⟩ := spend_spec.of_ok hspend
  · exact h.of_scripts_eq (with_balance_scripts _ _ _)
  · exact (h.of_scripts_eq (with_balance_scripts _ _ _)).deleted.of_ledger_eq hledger

theorem mine_spend {amount : Mine} (hspend : (mine_spend c contract amount).outcome = .ok c') :
    Unscripted c' := by
  obtain ⟨_, _, _, c1, _, _, _, hremove, hcase⟩ := mine_spend_spec.of_ok hspend
  have h1 : Unscripted c1 := by
    apply h.of_scripts_eq
    rw [Context.scripts_of_eq_with_rolls hremove.with_rolls, with_mine_balance_scripts]
  rcases hcase with rfl | ⟨_, _, _, _, hledger⟩
  · exact h1
  · exact h1.deleted.of_ledger_eq hledger

theorem create_account {balance : Tez} {mine_balance : Mine}
    {manager delegate : Option Public_key_hash}
    (hcreate : create_account c contract balance mine_balance manager delegate =
      .ok c') : Unscripted c' := by
  have hcreated : Unscripted (created c contract balance mine_balance manager) :=
    h.of_scripts_eq rfl
  obtain ⟨_, _, _, ⟨_, rfl⟩ | ⟨d, _, hinit⟩⟩ := create_account_spec.of_ok hcreate
  · exact hcreated
  · exact hcreated.of_scripts_eq (init_undelegated hinit).scripts

theorem credit [Environment] {amount : Tez} {mine_amount : Mine}
    (hcredit : (credit c contract amount mine_amount).outcome = .ok c') :
    Unscripted c' := by
  obtain ⟨c1, hledger, hcase⟩ := credit_spec.of_ok hcredit
  have h1 : Unscripted c1 := h.of_ledger_eq hledger
  rcases hcase with ⟨_, _, hcreate⟩ | ⟨_, _, haccount⟩
  · exact h1.create_account hcreate
  · obtain ⟨_, _, _, _, _, _, hadd⟩ := credit_account_spec.of_ok haccount
    apply h1.of_scripts_eq
    rw [Context.scripts_of_eq_with_rolls hadd.with_rolls,
      with_mine_balance_scripts, with_balance_scripts]

/-- Code is only stored at the address of an originated contract. -/
theorem originate [Environment] {prepaid : Bool} {balance : Tez}
    {script : Script × Option Big_map_diff} {delegate : Option Public_key_hash}
    (hcontract : contract_repr.is_implicit contract = none)
    (horiginate : (originate c prepaid contract balance script delegate).outcome =
      .ok c') : Unscripted c' := by
  obtain ⟨c1, code, hcreate, hledger⟩ := originate_spec.of_ok horiginate
  have h1 : Unscripted c1 := h.create_account hcreate
  refine of_ledger_eq ?_ hledger
  intro pkh
  change (c1.scripts.code.put contract (some code)).lookup _ = none
  rw [Store.lookup_put_ne]
  · exact h1 pkh
  · rintro rfl
    cases hcontract

end

end Unscripted

variable [Environment] {freezes : Context → Public_key_hash → Prop} {c c' : Context}

theorem ledger_step_unscripted
    (hstep : Ledger_step freezes (fun k => contract_repr.is_implicit k = none) c c')
    (h : Unscripted c) : Unscripted c' := by
  cases hstep with
  | same hsame => exact h.congr hsame.code
  | credit contract amount mine_amount hcredit => exact h.credit hcredit
  | spend contract amount hspend => exact h.spend hspend
  | mine_spend contract amount hspend => exact h.mine_spend hspend
  | originate prepaid contract balance script delegate hcontract horiginate =>
    exact h.originate hcontract horiginate
  | reveal_manager_key manager public_key hreveal =>
    obtain ⟨_, rfl⟩ := reveal_manager_key_spec.of_ok hreveal
    exact h.of_scripts_eq rfl
  | increment_counter manager hincrement =>
    obtain ⟨_, _, _, _, rfl⟩ := increment_counter_spec.of_ok hincrement
    exact h.of_scripts_eq rfl
  | init contract delegate hinit =>
    exact h.of_scripts_eq (init_undelegated hinit).scripts
  | set contract delegate hset =>
    exact h.of_scripts_eq (set_undelegated hset).scripts
  | freeze_deposit delegate amount _ hfreeze =>
    exact h.refrozen (freeze_deposit_refrozen hfreeze)
  | freeze_fees delegate amount hfreeze =>
    exact h.refrozen (freeze_fees_refrozen hfreeze)
  | freeze_rewards delegate amount hfreeze =>
    exact h.refrozen (freeze_rewards_refrozen hfreeze)
  | burn_fees delegate cycle amount hburn =>
    exact h.refrozen (burn_fees_refrozen hburn)
  | burn_rewards delegate cycle amount hburn =>
    rw [hburn]
    exact h.of_scripts_eq rfl
  | unfreeze delegate cycle balance_updates _ hunfreeze =>
    exact h.refrozen (unfreeze_refrozen hunfreeze)
  | clear_delegates_with_frozen_balance cycle hclear =>
    rw [hclear]
    exact h.of_scripts_eq rfl
  | punish delegate cycle frozen hpunish =>
    exact h.refrozen (punish_refrozen hpunish)
  | set_active delegate hactive =>
    exact h.of_scripts_eq (Context.scripts_of_eq_with_rolls
      (set_active_spec.of_ok hactive).with_rolls)
  | set_inactive delegate hinactive =>
    exact h.of_scripts_eq (Context.scripts_of_eq_with_rolls
      (roll_storage.Delegate.set_inactive_booked hinactive).with_rolls)

theorem block_run_unscripted (hrun : Block_run c c') (h : Unscripted c) : Unscripted c' :=
  hrun.preserves (fun _ _ => ledger_step_unscripted) h

end plexus
