import Plexus.Unscripted

/-! What the calls of a run do to the accounts alone: balances, managers,
counters and who delegates to whom. -/

namespace plexus

open delegate_storage contract_storage Context

open roll_storage.Delegate (set_active_spec)
open contract_repr (implicit_contract is_implicit)

namespace Contracts

/-- A new account. The counter of an implicit account starts at the global
counter. -/
def created (k : Contracts) (contract : Contract) (balance : Tez) (mine_balance : Mine)
    (manager : Option Public_key_hash) : Contracts :=
  { k with
    counter :=
      match is_implicit contract with
      | none => k.counter
      | some _ => k.counter.put contract k.global_counter
    balance := k.balance.put contract (some balance)
    mine_balance := k.mine_balance.put contract (some mine_balance)
    manager :=
      match manager with
      | none => k.manager
      | some manager => k.manager.put contract (some (.Hash manager)) }

/-- The accounts without one that was emptied at a level. -/
def deleted (k : Contracts) (level : Raw_level) (contract : Contract) : Contracts :=
  { k with
    balance := k.balance.put contract none
    mine_balance :=
      if constants_repr.removing_empty_address ≤ level then k.mine_balance.put contract none
      else k.mine_balance
    manager := k.manager.put contract none
    counter := k.counter.put contract none }

/-- The accounts delegated to the delegate of a contract, without the contract. -/
def unlinked (k : Contracts) (contract : Contract) : Contracts :=
  match k.delegate.lookup contract with
  | none => k
  | some d => { k with delegated := k.delegated.erase (implicit_contract d, contract) }

/-- A contract with another delegate. -/
def linked (k : Contracts) (contract : Contract) (d : Public_key_hash) : Contracts :=
  { k with
    delegate := k.delegate.put contract (some d)
    delegated := insert (implicit_contract d, contract) k.delegated }

end Contracts

/-- One change of the accounts at a level. -/
inductive Account_step (level : Raw_level) (k k' : Contracts) : Prop where
  | rebalance (balance : Store Contract Tez) (mine_balance : Store Contract Mine)
      (hbalance : ∀ contract, (balance.lookup contract).isSome = (k.balance.lookup contract).isSome)
      (hmine : ∀ contract,
        (mine_balance.lookup contract).isSome = (k.mine_balance.lookup contract).isSome)
      (h : k' = { k with balance, mine_balance })
  | create (contract : Contract) (balance : Tez) (mine_balance : Mine)
      (manager : Option Public_key_hash) (hbalance : k.balance.lookup contract = none)
      (hmine : k.mine_balance.lookup contract = none)
      (hcounter : ∀ pkh, is_implicit contract = some pkh →
        k.global_counter.isSome ∧ k.counter.lookup contract = none)
      (h : k' = k.created contract balance mine_balance manager)
  | delete (pkh : Public_key_hash)
      (hdelegate : k.delegate.lookup (implicit_contract pkh) = none)
      (h : k' = k.deleted level (implicit_contract pkh))
  | reveal (pkh : Public_key_hash) (public_key : Public_key) (hash : Public_key_hash)
      (hmanager : k.manager.lookup (implicit_contract pkh) = some (.Hash hash))
      (h : k' = { k with
        manager := k.manager.put (implicit_contract pkh)
          (some (.Public_key public_key)) })
  | increment (pkh : Public_key_hash) (global_counter counter : ℤ)
      (hglobal : k.global_counter = some global_counter)
      (hcounter : k.counter.lookup (implicit_contract pkh) = some counter)
      (h : k' = { k with
        global_counter := some (global_counter + 1)
        counter := k.counter.put (implicit_contract pkh) (some (counter + 1)) })
  | delegate (contract : Contract) (d : Public_key_hash)
      (hknown : (k.manager.lookup (implicit_contract d)).isSome)
      (hregistered : k.delegate.lookup (implicit_contract d) = some d ∨
        contract = implicit_contract d)
      (hkept : ∀ pkh, contract = implicit_contract pkh → pkh ≠ d →
        k.delegate.lookup contract ≠ some pkh)
      (h : k' = { (k.unlinked contract).linked contract d with
        delegates := if contract = implicit_contract d then insert d k.delegates
          else k.delegates })
  | undelegate (contract : Contract)
      (hkept : ∀ pkh, contract = implicit_contract pkh →
        k.delegate.lookup contract ≠ some pkh)
      (h : k' = { k.unlinked contract with delegate := k.delegate.put contract none })

abbrev Account_run (level : Raw_level) : Contracts → Contracts → Prop :=
  Relation.ReflTransGen (Account_step level)

variable {balance : Tez}

namespace Account_run

variable {level : Raw_level} {k k' : Contracts} {contract : Contract}

theorem of_eq (h : k' = k) : Account_run level k k' := by
  rw [h]

/-- Another value for an entry that exists keeps the keys. -/
theorem isSome_put {V : Type} {s : Store Contract V} {v : V}
    (hcontract : s.lookup contract = some v) (w : V) (contract' : Contract) :
    ((s.put contract (some w)).lookup contract').isSome = (s.lookup contract').isSome := by
  rw [Store.lookup_put]
  split
  · next heq =>
    rw [heq, hcontract]
    rfl
  · rfl

/-- A balance that exists may be replaced. -/
theorem set_balance (hcontract : k.balance.lookup contract = some balance) (new_balance : Tez) :
    Account_run level k { k with balance := k.balance.put contract (some new_balance) } :=
  .single (.rebalance _ k.mine_balance (isSome_put hcontract new_balance) (fun _ => rfl) rfl)

theorem set_mine_balance {balance : Mine}
    (hcontract : k.mine_balance.lookup contract = some balance) (new_balance : Mine) :
    Account_run level k { k with mine_balance := k.mine_balance.put contract (some new_balance) } :=
  .single (.rebalance k.balance _ (fun _ => rfl) (isSome_put hcontract new_balance) rfl)

end Account_run

/-! Delegation. -/

namespace delegate_storage

variable {c c' : Context} {contract : Contract} {d : Public_key_hash} {level : Raw_level}

/-- Linking lists the contract with its delegate. -/
theorem link_contracts (h : link c contract d = .ok c') :
    c'.contracts = { c.contracts with
      delegated := insert (implicit_contract d, contract) c.contracts.delegated } := by
  obtain ⟨_, c1, _, hadd, rfl⟩ := link_spec.of_ok h
  have hcontracts := contracts_of_eq_with_rolls hadd.with_rolls
  rw [with_delegated, with_contracts_contracts, hcontracts]

/-- Unlinking strikes the contract off the list. -/
theorem unlink_contracts (h : unlink c contract = .ok c') :
    c'.contracts = c.contracts.unlinked contract := by
  obtain ⟨_, _, ⟨hnone, rfl⟩ | ⟨d, c1, hdelegate, hremove, rfl⟩⟩ := unlink_spec.of_ok h
  · simp only [Contracts.unlinked, hnone]
  · have hcontracts := contracts_of_eq_with_rolls hremove.with_rolls
    simp only [Contracts.unlinked, hdelegate, with_delegated, with_contracts_contracts, hcontracts]

/-- A known key has a manager. -/
theorem manager_of_known (h : known c d = true) :
    (c.contracts.manager.lookup (implicit_contract d)).isSome := by
  unfold known at h
  simp only [Indexed_data_storage.get_option, Storage.Contract.Manager_store] at h
  cases hmanager : c.contracts.manager.lookup (implicit_contract d) with
  | none =>
    rw [hmanager] at h
    cases h
  | some key => rfl

/-- A first delegate, as steps of the accounts. -/
theorem init_account_run (h : init c contract d = .ok c') :
    Account_run level c.contracts c'.contracts := by
  obtain ⟨hknown, hregistered, hnone, hlink⟩ := init_spec.of_ok h
  rw [registered_iff] at hregistered
  have hne : contract ≠ implicit_contract d := by
    rintro rfl
    rw [hnone] at hregistered
    cases hregistered
  refine .single (.delegate contract d (manager_of_known hknown) (.inl hregistered) ?_ ?_)
  · intro pkh _ _
    rw [hnone]
    exact fun h => by cases h
  · rw [link_contracts hlink, if_neg hne]
    simp only [Contracts.unlinked, hnone]
    rfl

theorem unlinked_delegate (k : Contracts) (contract : Contract) :
    (k.unlinked contract).delegate = k.delegate := by
  unfold Contracts.unlinked
  split <;> rfl

/-- A change of delegate, as steps of the accounts. -/
theorem set_account_run {o : Option Public_key_hash} (h : set c contract o = .ok c') :
    Account_run level c.contracts c'.contracts := by
  cases o with
  | none =>
    obtain ⟨hkept, c1, hunlink, rfl⟩ := set_none_spec.of_ok h
    refine .single (.undelegate contract ?_ ?_)
    · rintro pkh rfl hdelegate
      have hregistered : registered c pkh = true := registered_iff.mpr hdelegate
      rw [hkept pkh rfl] at hregistered
      cases hregistered
    · have hcontracts := unlink_contracts hunlink
      rw [with_delegate, with_contracts_contracts, hcontracts, unlinked_delegate]
  | some d =>
    obtain ⟨hknown, hregistered, hkept, _, c1, c2, hunlink, hlink, hcase⟩ := set_some_spec.of_ok h
    have hcontracts2 : c2.contracts = (c.contracts.unlinked contract).linked contract d := by
      rw [link_contracts hlink, with_delegate, with_contracts_contracts, unlink_contracts hunlink]
      rfl
    have hdelegates : ((c.contracts.unlinked contract).linked contract d).delegates =
        c.contracts.delegates := by
      unfold Contracts.linked Contracts.unlinked
      split <;> rfl
    refine .single (.delegate contract d (manager_of_known hknown) ?_ ?_ ?_)
    · rw [registered_iff] at hregistered
      exact hregistered
    · rintro pkh rfl hne hdelegate
      have hregistered : registered c pkh = true := registered_iff.mpr hdelegate
      rw [hkept pkh rfl hne] at hregistered
      cases hregistered
    · rcases hcase with ⟨hne, rfl⟩ | ⟨rfl, hactive⟩
      · rw [if_neg hne, hcontracts2, ← hdelegates]
      · rw [if_pos rfl, contracts_of_eq_with_rolls hactive.with_rolls, ← hdelegates, ← hcontracts2]
        rfl

end delegate_storage

/-! Accounts. -/

namespace contract_storage

variable {c c' : Context} {contract : Contract}

/-- Only implicit accounts without delegate are deleted. -/
theorem deleted_account_run (hdelegate : c.contracts.delegate.lookup contract = none)
    (himplicit : ∃ pkh, is_implicit contract = some pkh)
    (hledger : c'.ledger = (deleted c contract).ledger) :
    Account_run c.level.level c.contracts c'.contracts := by
  obtain ⟨pkh, hpkh⟩ := himplicit
  rw [contract_repr.is_implicit_eq_some_iff] at hpkh
  subst hpkh
  refine .single (.delete pkh hdelegate ?_)
  rw [contracts_eq_of_ledger_eq hledger]
  rfl

/-- Spending, as steps of the accounts. -/
theorem spend_account_run {amount : Tez} (h : (spend c contract amount).outcome = .ok c') :
    Account_run c.level.level c.contracts c'.contracts := by
  obtain ⟨_, new_balance, _, hbalance, _, _, hcase⟩ := spend_spec.of_ok h
  have hrun : Account_run c.level.level c.contracts (with_balance c contract new_balance).contracts :=
    .set_balance hbalance new_balance
  rcases hcase with rfl | ⟨_, _, himplicit, hdelegate, hledger⟩
  · exact hrun
  · have hdeleted : Account_run c.level.level (with_balance c contract new_balance).contracts
        c'.contracts :=
      deleted_account_run (c := with_balance c contract new_balance) hdelegate himplicit hledger
    exact hrun.trans hdeleted

/-- Spending MINE, as steps of the accounts. -/
theorem mine_spend_account_run {amount : Mine}
    (h : (mine_spend c contract amount).outcome = .ok c') :
    Account_run c.level.level c.contracts c'.contracts := by
  obtain ⟨_, _, new_balance, c1, _, hmine, _, hremove, hcase⟩ := mine_spend_spec.of_ok h
  have hrolls := hremove.with_rolls
  have hrun : Account_run c.level.level c.contracts c1.contracts := by
    rw [contracts_of_eq_with_rolls hrolls]
    exact .set_mine_balance hmine new_balance
  rcases hcase with rfl | ⟨_, _, himplicit, hdelegate, hledger⟩
  · exact hrun
  · have hdeleted := deleted_account_run hdelegate himplicit hledger
    have hlevel : c1.level = c.level := congrArg (·.level) hrolls
    rw [hlevel] at hdeleted
    exact hrun.trans hdeleted

/-- A creation, as steps of the accounts. -/
theorem create_account_account_run {level : Raw_level} {mine_balance : Mine}
    {manager delegate : Option Public_key_hash}
    (h : create_account c contract balance mine_balance manager delegate = .ok c') :
    Account_run level c.contracts c'.contracts := by
  obtain ⟨hbalance, hmine, hcounter, hcase⟩ := create_account_spec.of_ok h
  have hrun : Account_run level c.contracts
      (created c contract balance mine_balance manager).contracts :=
    .single (.create contract balance mine_balance manager hbalance hmine hcounter rfl)
  rcases hcase with ⟨_, rfl⟩ | ⟨d, _, hinit⟩
  · exact hrun
  · exact hrun.trans (init_account_run hinit)

/-- A credit, as steps of the accounts. -/
theorem credit_account_run [Environment] {amount : Tez} {mine_amount : Mine}
    (h : (credit c contract amount mine_amount).outcome = .ok c') :
    Account_run c.level.level c.contracts c'.contracts := by
  obtain ⟨c1, hledger, hcase⟩ := credit_spec.of_ok h
  rw [← contracts_eq_of_ledger_eq hledger] at hcase ⊢
  rcases hcase with ⟨_, _, hcreate⟩ | ⟨mine_balance, hmine, haccount⟩
  · exact create_account_account_run hcreate
  · obtain ⟨_, new_balance, new_mine_balance, hbalance, _, _, hadd⟩ :=
      credit_account_spec.of_ok haccount
    rw [contracts_of_eq_with_rolls hadd.with_rolls]
    have hrun : Account_run c.level.level c1.contracts (with_balance c1 contract new_balance).contracts :=
      .set_balance hbalance new_balance
    have hmine' : (with_balance c1 contract new_balance).contracts.mine_balance.lookup contract =
        some mine_balance := hmine
    exact hrun.trans (Account_run.set_mine_balance hmine' new_mine_balance)

/-- An origination, as steps of the accounts. -/
theorem originate_account_run [Environment] {level : Raw_level} {prepaid : Bool}
    {script : Script × Option Big_map_diff} {delegate : Option Public_key_hash}
    (h : (originate c prepaid contract balance script delegate).outcome = .ok c') :
    Account_run level c.contracts c'.contracts := by
  obtain ⟨c1, code, hcreate, hledger⟩ := originate_spec.of_ok h
  have hcontracts : c'.contracts = (c1.with_code contract (some code)).contracts :=
    contracts_eq_of_ledger_eq hledger
  rw [hcontracts, with_code_contracts]
  exact create_account_account_run hcreate

end contract_storage

/-! Runs. -/

variable [Environment] {freezes : Context → Public_key_hash → Prop} {originates : Contract → Prop}
  {c c' : Context}

/-- Every call changes the accounts by a run at its own level. -/
theorem ledger_step_account_run (hstep : Ledger_step freezes originates c c') :
    Account_run c.level.level c.contracts c'.contracts := by
  cases hstep with
  | same hsame => exact .of_eq hsame.contracts
  | credit contract amount mine_amount hcredit => exact credit_account_run hcredit
  | spend contract amount hspend => exact spend_account_run hspend
  | mine_spend contract amount hspend => exact mine_spend_account_run hspend
  | originate prepaid contract balance script delegate _ horiginate =>
    exact originate_account_run horiginate
  | reveal_manager_key manager public_key hreveal =>
    obtain ⟨hmanager, rfl⟩ := reveal_manager_key_spec.of_ok hreveal
    exact .single (.reveal manager public_key _ hmanager rfl)
  | increment_counter manager hincrement =>
    obtain ⟨global_counter, counter, hglobal, hcounter, rfl⟩ :=
      increment_counter_spec.of_ok hincrement
    exact .single (.increment manager global_counter counter hglobal hcounter rfl)
  | init contract delegate hinit => exact init_account_run hinit
  | set contract delegate hset => exact set_account_run hset
  | freeze_deposit delegate amount _ hfreeze =>
    obtain ⟨c1, c2, balance, new_balance, hactive, hbalance, _, rfl, hcredit⟩ :=
      freeze_deposit_spec.of_ok hfreeze
    obtain ⟨_, _, _, rfl⟩ := credit_frozen_deposit_spec.of_ok hcredit
    rw [← contracts_of_eq_with_rolls hactive.with_rolls]
    simp only [with_frozen_delegates_contracts,
      with_frozen_deposits_contracts, with_contracts_contracts]
    exact .set_mine_balance hbalance new_balance
  | freeze_fees delegate amount hfreeze =>
    exact .of_eq (congrArg (·.contracts) (freeze_fees_refrozen hfreeze))
  | freeze_rewards delegate amount hfreeze =>
    exact .of_eq (congrArg (·.contracts) (freeze_rewards_refrozen hfreeze))
  | burn_fees delegate cycle amount hburn =>
    exact .of_eq (congrArg (·.contracts) (burn_fees_refrozen hburn))
  | burn_rewards delegate cycle amount hburn =>
    rw [hburn]
    exact .of_eq rfl
  | unfreeze delegate cycle balance_updates _ hunfreeze =>
    obtain ⟨balance, new_balance, _, new_mine_balance, hbalance, hmine, _, _, rfl⟩ :=
      unfreeze_spec.of_ok hunfreeze
    refine .single (.rebalance _ _ (Account_run.isSome_put hbalance new_balance)
      (Account_run.isSome_put hmine new_mine_balance) ?_)
    simp
  | clear_delegates_with_frozen_balance cycle hclear =>
    rw [hclear]
    exact .of_eq rfl
  | punish delegate cycle frozen hpunish =>
    exact .of_eq (congrArg (·.contracts) (punish_refrozen hpunish))
  | set_active delegate hactive =>
    exact .of_eq (contracts_of_eq_with_rolls (set_active_spec.of_ok hactive).with_rolls)
  | set_inactive delegate hinactive =>
    exact .of_eq (contracts_of_eq_with_rolls
      (roll_storage.Delegate.set_inactive_booked hinactive).with_rolls)

/-- What every change of the accounts preserves, at whatever level, holds after
every run of calls. -/
theorem Ledger_run.preserves_contracts {P : Contracts → Prop}
    (hP : ∀ level k k', Account_step level k k' → P k → P k')
    (hrun : Ledger_run freezes originates c c') (h : P c.contracts) : P c'.contracts :=
  Relation.ReflTransGen.preserves (P := fun c => P c.contracts) hrun
    (fun _ _ hstep h => (ledger_step_account_run hstep).preserves (hP _) h) h

end plexus
