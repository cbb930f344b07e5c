import Plexus.AccountSteps
import Plexus.StakingRuns

/-! Who delegates to whom is recorded twice: as the delegate of each contract,
and as the set of contracts of each delegate. The two records agree. -/

namespace plexus

open Store delegate_storage

open contract_repr (implicit_contract)

namespace delegation

/-- The two records of the delegations agree, and every delegate is registered
and has an account. -/
structure Consistent (k : Contracts) : Prop where
  edges : ∀ contract d, (implicit_contract d, contract) ∈ k.delegated ↔
    k.delegate.lookup contract = some d
  registered : ∀ contract d, k.delegate.lookup contract = some d →
    k.delegate.lookup (implicit_contract d) = some d ∧ d ∈ k.delegates
  managers : ∀ pkh, (k.manager.lookup (implicit_contract pkh)).isSome →
    (k.balance.lookup (implicit_contract pkh)).isSome
  allocated : ∀ pkh, k.delegate.lookup (implicit_contract pkh) = some pkh →
    (k.balance.lookup (implicit_contract pkh)).isSome

namespace Consistent

variable {k k' : Contracts} {contract : Contract} {d : Public_key_hash} {level : Raw_level}

/-- Without accounts there are no delegations. -/
theorem empty {global_counter : Option ℤ} :
    Consistent { Contracts.empty with global_counter } := by
  constructor <;> simp [Contracts.empty]

section

variable (h : Consistent k)

include h

/-- Steps that keep every delegation and every account keep the records. -/
theorem of_same_delegations (hdelegate : k'.delegate = k.delegate)
    (hdelegated : k'.delegated = k.delegated) (hdelegates : k'.delegates = k.delegates)
    (hmanagers : ∀ pkh, (k'.manager.lookup (implicit_contract pkh)).isSome →
      (k'.balance.lookup (implicit_contract pkh)).isSome)
    (hallocated : ∀ pkh, k.delegate.lookup (implicit_contract pkh) = some pkh →
      (k'.balance.lookup (implicit_contract pkh)).isSome) : Consistent k' where
  edges := by
    rw [hdelegate, hdelegated]
    exact h.edges
  registered := by
    rw [hdelegate, hdelegates]
    exact h.registered
  managers := hmanagers
  allocated := by
    rw [hdelegate]
    exact hallocated

/-- Balances do not matter as long as no account comes or goes. -/
theorem rebalanced {balance : Store Contract Tez} {mine_balance : Store Contract Mine}
    (hbalance : ∀ contract, (balance.lookup contract).isSome = (k.balance.lookup contract).isSome) :
    Consistent { k with balance, mine_balance } := by
  refine h.of_same_delegations rfl rfl rfl ?_ ?_
  · intro pkh hmanager
    rw [hbalance]
    exact h.managers pkh hmanager
  · intro pkh hpkh
    rw [hbalance]
    exact h.allocated pkh hpkh

/-- A new account has no delegate. -/
theorem created {balance : Tez} {mine_balance : Mine} {manager : Option Public_key_hash} :
    Consistent (k.created contract balance mine_balance manager) := by
  have hbalance contract' (hsome : (k.balance.lookup contract').isSome) :
      ((k.balance.put contract (some balance)).lookup contract').isSome := by
    rw [lookup_put]
    split
    · rfl
    · exact hsome
  refine h.of_same_delegations rfl rfl rfl ?_ ?_
  · intro pkh hmanager
    by_cases heq : implicit_contract pkh = contract
    · simp [Contracts.created, heq]
    · apply hbalance
      apply h.managers
      cases manager with
      | none => exact hmanager
      | some manager =>
        simp only [Contracts.created] at hmanager
        rwa [lookup_put_ne _ heq] at hmanager
  · intro pkh hpkh
    exact hbalance _ (h.allocated pkh hpkh)

/-- An account that is deleted has no delegate, and none of the delegates is
deleted. -/
theorem deleted {pkh : Public_key_hash}
    (hdelegate : k.delegate.lookup (implicit_contract pkh) = none) :
    Consistent (k.deleted level (implicit_contract pkh)) := by
  refine h.of_same_delegations rfl rfl rfl ?_ ?_
  · intro pkh' hmanager
    simp only [Contracts.deleted, lookup_put] at hmanager ⊢
    split at hmanager
    · cases hmanager
    · next hne =>
      rw [if_neg hne]
      exact h.managers pkh' hmanager
  · intro pkh' hpkh'
    have hne : implicit_contract pkh' ≠ implicit_contract pkh := by
      intro heq
      rw [heq, hdelegate] at hpkh'
      cases hpkh'
    simp only [Contracts.deleted]
    rw [lookup_put_ne _ hne]
    exact h.allocated pkh' hpkh'

/-- The edges left once the one of a contract is removed. -/
theorem mem_unlinked (contract contract' : Contract) (d : Public_key_hash) :
    (implicit_contract d, contract') ∈ (k.unlinked contract).delegated ↔
      contract' ≠ contract ∧ k.delegate.lookup contract' = some d := by
  have hedge := h.edges contract' d
  cases hold : k.delegate.lookup contract with
  | none =>
    simp only [Contracts.unlinked, hold]
    rw [hedge]
    constructor
    · intro hd
      refine ⟨?_, hd⟩
      rintro rfl
      rw [hold] at hd
      cases hd
    · exact fun hd => hd.2
  | some old =>
    simp only [Contracts.unlinked, hold, Finset.mem_erase, Ne, Prod.mk.injEq,
      contract_repr.implicit_contract_inj]
    rw [hedge]
    constructor
    · rintro ⟨hne, hd⟩
      refine ⟨?_, hd⟩
      rintro rfl
      rw [hold] at hd
      cases hd
      exact hne ⟨rfl, rfl⟩
    · rintro ⟨hne, hd⟩
      exact ⟨fun heq => hne heq.2, hd⟩

end

theorem unlinked_fields (k : Contracts) (contract : Contract) :
    (k.unlinked contract).manager = k.manager ∧ (k.unlinked contract).balance = k.balance ∧
      (k.unlinked contract).delegates = k.delegates := by
  unfold Contracts.unlinked
  split <;> exact ⟨rfl, rfl, rfl⟩

/-- A contract gets a registered delegate, or its owner registers. -/
theorem delegated (h : Consistent k) (hknown : (k.manager.lookup (implicit_contract d)).isSome)
    (hregistered : k.delegate.lookup (implicit_contract d) = some d ∨
      contract = implicit_contract d)
    (hkept : ∀ pkh, contract = implicit_contract pkh → pkh ≠ d →
      k.delegate.lookup contract ≠ some pkh) :
    Consistent { (k.unlinked contract).linked contract d with
      delegates := if contract = implicit_contract d then insert d k.delegates
        else k.delegates } := by
  obtain ⟨hmanager, hbalance, _⟩ := unlinked_fields k contract
  have hdelegate := unlinked_delegate k contract
  -- a delegate that is registered before is still registered, and so is `d` now
  have hself d' (hd' : k.delegate.lookup (implicit_contract d') = some d') :
      (k.delegate.put contract (some d)).lookup (implicit_contract d') = some d' := by
    rw [lookup_put]
    split
    · next heq =>
      by_cases hne : d' = d
      · rw [hne]
      · exact absurd (heq ▸ hd') (hkept d' heq.symm hne)
    · exact hd'
  have hnew : (k.delegate.put contract (some d)).lookup (implicit_contract d) = some d := by
    rcases hregistered with hd | rfl
    · exact hself d hd
    · exact lookup_put_self _ _ _
  constructor
  · intro contract' d'
    simp only [Contracts.linked, Finset.mem_insert, Prod.mk.injEq,
      contract_repr.implicit_contract_inj, hdelegate, lookup_put]
    rw [h.mem_unlinked contract contract' d']
    by_cases heq : contract' = contract
    · simp [heq, eq_comm]
    · simp [heq]
  · intro contract' d' hd'
    simp only [Contracts.linked, hdelegate] at hd' ⊢
    rw [lookup_put] at hd'
    split at hd'
    · cases hd'
      refine ⟨hnew, ?_⟩
      split
      · exact Finset.mem_insert_self d _
      · next hne =>
        rcases hregistered with hd | hd
        · exact (h.registered _ _ hd).2
        · exact absurd hd hne
    · obtain ⟨hreg, hmem⟩ := h.registered _ _ hd'
      refine ⟨hself d' hreg, ?_⟩
      split
      · exact Finset.mem_insert_of_mem hmem
      · exact hmem
  · intro pkh hpkh
    simp only [Contracts.linked, hmanager, hbalance] at hpkh ⊢
    exact h.managers pkh hpkh
  · intro pkh hpkh
    simp only [Contracts.linked, hdelegate, hbalance] at hpkh ⊢
    rw [lookup_put] at hpkh
    split at hpkh
    · cases hpkh
      exact h.managers _ hknown
    · exact h.allocated pkh hpkh

/-- A delegation that is taken back. -/
theorem undelegated (h : Consistent k) (hkept : ∀ pkh, contract = implicit_contract pkh →
      k.delegate.lookup contract ≠ some pkh) :
    Consistent { k.unlinked contract with delegate := k.delegate.put contract none } := by
  obtain ⟨hmanager, hbalance, hdelegates⟩ := unlinked_fields k contract
  constructor
  · intro contract' d'
    rw [h.mem_unlinked contract contract' d', lookup_put]
    by_cases heq : contract' = contract
    · simp [heq]
    · simp [heq]
  · intro contract' d' hd'
    rw [lookup_put] at hd'
    split at hd'
    · cases hd'
    · obtain ⟨hreg, hmem⟩ := h.registered _ _ hd'
      rw [hdelegates]
      refine ⟨?_, hmem⟩
      rw [lookup_put_ne]
      · exact hreg
      · intro heq
        exact hkept d' heq.symm (heq ▸ hreg)
  · intro pkh hpkh
    rw [hmanager] at hpkh
    rw [hbalance]
    exact h.managers pkh hpkh
  · intro pkh hpkh
    rw [lookup_put] at hpkh
    rw [hbalance]
    split at hpkh
    · cases hpkh
    · exact h.allocated pkh hpkh

/-- Every step of the accounts keeps the delegations in step. -/
theorem account_step (hstep : Account_step level k k') (h : Consistent k) : Consistent k' := by
  cases hstep with
  | rebalance balance mine_balance hbalance _ hk' =>
    rw [hk']
    exact h.rebalanced hbalance
  | create contract balance mine_balance manager _ _ _ hk' =>
    rw [hk']
    exact h.created
  | delete pkh hdelegate hk' =>
    rw [hk']
    exact h.deleted hdelegate
  | reveal pkh public_key hash hmanager hk' =>
    rw [hk']
    refine h.of_same_delegations rfl rfl rfl ?_ ?_
    · intro pkh' hpkh'
      apply h.managers
      rw [lookup_put] at hpkh'
      split at hpkh'
      · next heq => rw [heq, hmanager, Option.isSome_some]
      · exact hpkh'
    · exact h.allocated
  | increment pkh global_counter counter _ _ hk' =>
    rw [hk']
    exact h.of_same_delegations rfl rfl rfl h.managers h.allocated
  | delegate contract d hknown hregistered hkept hk' =>
    rw [hk']
    exact h.delegated hknown hregistered hkept
  | undelegate contract hkept hk' =>
    rw [hk']
    exact h.undelegated hkept

end Consistent

/-- No change of the accounts ends a registration. -/
theorem account_step_registered {level : Raw_level} {k k' : Contracts} {d : Public_key_hash}
    (hstep : Account_step level k k') (h : k.delegate.lookup (implicit_contract d) = some d) :
    k'.delegate.lookup (implicit_contract d) = some d := by
  cases hstep with
  | rebalance balance mine_balance _ _ hk' =>
    rw [hk']
    exact h
  | create contract balance mine_balance manager _ _ _ hk' =>
    rw [hk']
    exact h
  | delete pkh _ hk' =>
    rw [hk']
    exact h
  | reveal pkh public_key hash _ hk' =>
    rw [hk']
    exact h
  | increment pkh global_counter counter _ _ hk' =>
    rw [hk']
    exact h
  | delegate contract d' _ _ hkept hk' =>
    rw [hk']
    simp only [Contracts.linked, unlinked_delegate]
    rw [lookup_put]
    split
    · next heq =>
      by_cases hne : d = d'
      · rw [hne]
      · exact absurd (heq ▸ h) (hkept d heq.symm hne)
    · exact h
  | undelegate contract hkept hk' =>
    rw [hk']
    rw [lookup_put_ne]
    · exact h
    · intro heq
      exact hkept d heq.symm (heq ▸ h)

section

variable [Environment] {c c' : Context}

open staking (Chain_step)

/-- What every change of the accounts preserves holds along a chain. -/
theorem chain_run_preserves {freezes : Context → Public_key_hash → Prop} {P : Contracts → Prop}
    (hP : ∀ level k k', Account_step level k k' → P k → P k')
    (hrun : Relation.ReflTransGen (Chain_step freezes) c c') (h : P c.contracts) :
    P c'.contracts := by
  refine Relation.ReflTransGen.preserves (P := fun c => P c.contracts) hrun ?_ h
  intro c1 c2 hstep h1
  cases hstep with
  | call hcall => exact (ledger_step_account_run hcall).preserves (hP _) h1
  | prepare level timestamp fitness hprepare =>
    rw [hprepare]
    exact h1

/-- The accounts of the first block. -/
theorem genesis_consistent (henv : Lawful_environment) {param : Parameters} {level : Raw_level}
    {timestamp fitness : Int64}
    (h : (init_storage.prepare_first_block param level timestamp fitness).outcome = .ok c) :
    Consistent c.contracts := by
  obtain ⟨c0, hblank, hrun⟩ :=
    init_storage.genesis_run (fun _ _ => True) (fun _ => True) henv (fun _ => trivial) h
  apply Ledger_run.preserves_contracts (fun _ _ _ => Consistent.account_step) hrun
  rw [hblank.contracts]
  exact Consistent.empty

/-- In every state reached from a genesis block, a contract is among the
contracts of a delegate exactly if the delegate is the one of the contract;
every delegate is registered and known as one, and it stays registered and
keeps its account in every later state. -/
theorem delegations_agree (henv : Lawful_environment) {param : Parameters} {level : Raw_level}
    {timestamp fitness : Int64} {c0 : Context}
    (hgenesis : (init_storage.prepare_first_block param level timestamp fitness).outcome = .ok c0)
    (hrun : Relation.ReflTransGen (Chain_step fun _ _ => True) c0 c) :
    (∀ contract d, Storage.Contract.Delegated.mem c (implicit_contract d, contract) =
        true ↔ get c contract = some d) ∧
      (∀ contract d, get c contract = some d →
        registered c d = true ∧ Storage.Delegates.mem c d = true) ∧
      ∀ c', Relation.ReflTransGen (Chain_step fun _ _ => True) c c' →
        ∀ d, registered c d = true →
          registered c' d = true ∧
            contract_storage.allocated c' (implicit_contract d) = true := by
  have h : Consistent c.contracts :=
    chain_run_preserves (fun _ _ _ => Consistent.account_step) hrun
      (genesis_consistent henv hgenesis)
  refine ⟨?_, ?_, ?_⟩
  · intro contract d
    rw [Data_set_storage.mem, decide_eq_true_eq]
    exact h.edges contract d
  · intro contract d hd
    rw [registered_iff, Data_set_storage.mem, decide_eq_true_eq]
    exact h.registered contract d hd
  · intro c' hrun' d hd
    rw [registered_iff] at hd ⊢
    have hd' : c'.contracts.delegate.lookup (implicit_contract d) = some d :=
      chain_run_preserves (fun _ _ _ => account_step_registered) hrun' hd
    have h' : Consistent c'.contracts :=
      chain_run_preserves (fun _ _ _ => Consistent.account_step) hrun' h
    refine ⟨hd', ?_⟩
    have hbalance := h'.allocated d hd'
    unfold contract_storage.allocated
    simp only [Indexed_data_storage.get_option, Storage.Contract.Balance_store]
    rw [Option.isSome_iff_exists] at hbalance
    obtain ⟨_, hbalance⟩ := hbalance
    rw [hbalance]

end

theorem delegations_agree_after_delegation :
    let _ := unscripted_environment
    let d : Public_key_hash := .Ed25519 0
    let key : Public_key_hash := .Ed25519 1
    ∃ c, get c (implicit_contract key) = some d ∧
      Storage.Contract.Delegated.mem c
        (implicit_contract d, implicit_contract key) = true ∧
      registered c d = true := by
  intro _ d key
  have hreturns : (do
      let c0 ← init_storage.prepare_first_block init_storage.single_delegate 1 0 0
      let c1 ← contract_storage.credit c0 (implicit_contract key) Qty.zero
        ⟨7, by decide⟩
      let c2 ← delegate_storage.set c1 (implicit_contract key) (some d)
      pure (decide (get c2 (implicit_contract key) = some d)) :
      Carbonated Bool).outcome.returns id = true := by
    decide +kernel
  simp only [Traced.returns_bind_iff, Traced.returns_pure, Traced.outcome_monadLift, id_eq,
    decide_eq_true_eq] at hreturns
  obtain ⟨c0, hgenesis, c1, hcredit, c2, hset, hdelegate⟩ := hreturns
  have hagree := delegations_agree unscripted_environment_lawful hgenesis
    (.tail (.single (.call (.credit _ _ _ hcredit))) (.call (.set _ _ hset)))
  exact ⟨c2, hdelegate, (hagree.1 _ _).mpr hdelegate, (hagree.2.1 _ _ hdelegate).1⟩

end delegation

end plexus
