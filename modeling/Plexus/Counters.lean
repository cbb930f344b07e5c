import Plexus.DelegationGraph
import Plexus.Precheck

/-! The counters of manager operations: no content is accepted twice. -/

namespace plexus

open contract_repr (implicit_contract)
open staking (Chain_step)
open Relation (ReflTransGen)
open init_storage (prepare_first_block single_delegate)

/-- No counter is above the global one, and the counter of the contract has
reached `m`, also if the account is deleted and created again. -/
def Reaches (contract : Contract) (m : ℤ) (k : Contracts) : Prop :=
  ∃ g, k.global_counter = some g ∧ m ≤ g ∧
    ∀ contract' n, k.counter.lookup contract' = some n → n ≤ g ∧ (contract' = contract → m ≤ n)

namespace Reaches

variable {k : Contracts} {contract : Contract} {m n : ℤ}

/-- The counter of an account has reached what it is. -/
theorem at_lookup (h : Reaches contract m k) {contract' : Contract}
    (hn : k.counter.lookup contract' = some n) : Reaches contract' n k := by
  obtain ⟨g, hglobal, _, hcounters⟩ := h
  refine ⟨g, hglobal, (hcounters _ _ hn).1, fun contract1 n1 hn1 => ⟨(hcounters _ _ hn1).1, ?_⟩⟩
  rintro rfl
  exact (Option.some.inj (hn.symm.trans hn1)).le

theorem le_of_lookup (h : Reaches contract m k) (hn : k.counter.lookup contract = some n) :
    m ≤ n := by
  obtain ⟨_, _, _, hcounters⟩ := h
  exact (hcounters _ _ hn).2 rfl

theorem unlinked (h : Reaches contract m k) (contract' : Contract) :
    Reaches contract m (k.unlinked contract') := by
  unfold Contracts.unlinked
  split <;> exact h

/-- A step leaves the counters of the other accounts alone and gives an account
none, the global one or the successor of its own. -/
theorem account_step (level : Raw_level) (k k' : Contracts) (hstep : Account_step level k k')
    (h : Reaches contract m k) : Reaches contract m k' := by
  obtain ⟨g, hglobal, hle, hcounters⟩ := id h
  cases hstep with
  | rebalance _ _ _ _ hk' =>
    rw [hk']
    exact h
  | create created _ _ _ _ _ _ hk' =>
    rw [hk']
    refine ⟨g, hglobal, hle, fun contract' n hn => ?_⟩
    cases himplicit : contract_repr.is_implicit created with
    | none =>
      simp only [Contracts.created, himplicit] at hn
      exact hcounters contract' n hn
    | some pkh =>
      simp only [Contracts.created, himplicit, Store.lookup_put, hglobal] at hn
      split at hn
      · cases hn
        exact ⟨le_refl g, fun _ => hle⟩
      · exact hcounters contract' n hn
  | delete pkh _ hk' =>
    rw [hk']
    refine ⟨g, hglobal, hle, fun contract' n hn => ?_⟩
    simp only [Contracts.deleted, Store.lookup_put] at hn
    split at hn
    · cases hn
    · exact hcounters contract' n hn
  | reveal _ _ _ _ hk' =>
    rw [hk']
    exact h
  | increment pkh global_counter counter hglobal' hcounter hk' =>
    cases hglobal.symm.trans hglobal'
    rw [hk']
    refine ⟨g + 1, rfl, by omega, fun contract' n hn => ?_⟩
    rw [Store.lookup_put] at hn
    split at hn
    · next heq =>
      cases hn
      have hbounds := hcounters _ _ hcounter
      rw [heq]
      exact ⟨by omega, fun hsame => by have := hbounds.2 hsame; omega⟩
    · have hbounds := hcounters contract' n hn
      exact ⟨by omega, hbounds.2⟩
  | delegate contract' _ _ _ _ hk' =>
    rw [hk']
    exact h.unlinked contract'
  | undelegate contract' _ hk' =>
    rw [hk']
    exact h.unlinked contract'

end Reaches

namespace apply

section

variable [Environment] {c c' : Context}

theorem reaches_run {contract : Contract} {m : ℤ}
    (hrun : ReflTransGen (Chain_step fun _ _ => True) c c')
    (h : Reaches contract m c.contracts) : Reaches contract m c'.contracts :=
  delegation.chain_run_preserves Reaches.account_step hrun h

/-- After the precheck of a content the counter of its source has reached the
one of the content. -/
theorem precheck_manager_contents_reaches {operation : Operation} {op : Manager_contents}
    {contract : Contract} {m : ℤ} (h : Reaches contract m c.contracts)
    (hprecheck : (precheck_manager_contents c operation op).outcome = .ok c') :
    ∃ m', op.counter ≤ m' ∧ Reaches (implicit_contract op.source) m' c'.contracts := by
  obtain ⟨c1, c2, c3, hcounter, hrevealed, hincrement, hspend, hfees⟩ :=
    precheck_manager_contents_spec.of_ok hprecheck
  have h1 : Reaches (implicit_contract op.source) (op.counter - 1) c1.contracts := by
    have hchecked := h.at_lookup hcounter
    rcases hrevealed with hsame | ⟨pk, hreveal⟩
    · have hcontracts : c1.contracts = c.contracts := congrArg (·.contracts) hsame
      rwa [hcontracts]
    · exact reaches_run (c := raw_context.set_gas_limit c op.gas_limit)
        (.single (.call (.reveal_manager_key op.source pk hreveal))) hchecked
  have h2 := reaches_run (.single (.call (.increment_counter op.source hincrement))) h1
  obtain ⟨g, n, hg, hn, rfl⟩ := contract_storage.increment_counter_spec.of_ok hincrement
  have hle := h1.le_of_lookup hn
  have h3 := reaches_run (.single (.call (.mine_spend _ _ hspend)))
    (h2.at_lookup (Store.lookup_put_self _ _ _))
  obtain ⟨_, _, rfl⟩ := raw_context.add_mine_fees_spec.of_ok hfees
  exact ⟨n + 1, by omega, h3⟩

/-- In every state reached from a genesis block, no counter of an account is
above the global counter; and once a content is accepted in the precheck, a
later content of the same source is accepted with a greater counter only. -/
theorem counters_never_replayed (henv : Lawful_environment) {param : Parameters} {level : Raw_level}
    {timestamp fitness : Int64} {c0 : Context}
    (hgenesis : (prepare_first_block param level timestamp fitness).outcome = .ok c0)
    (hrun : ReflTransGen (Chain_step fun _ _ => True) c0 c) :
    (∃ g, c.contracts.global_counter = some g ∧
        ∀ contract n, c.contracts.counter.lookup contract = some n → n ≤ g) ∧
      ∀ operation op c1 c2 operation' op' c3,
        (precheck_manager_contents c operation op).outcome = .ok c1 →
        ReflTransGen (Chain_step fun _ _ => True) c1 c2 →
        (precheck_manager_contents c2 operation' op').outcome = .ok c3 →
        op'.source = op.source → op.counter < op'.counter := by
  obtain ⟨cb, hblank, hblank_run⟩ :=
    init_storage.genesis_run (fun _ _ => True) (fun _ => True) henv (fun _ => trivial) hgenesis
  have hreaches : Reaches (implicit_contract (.Ed25519 0)) 0 c.contracts := by
    refine reaches_run hrun (Ledger_run.preserves_contracts Reaches.account_step hblank_run ?_)
    rw [hblank.contracts]
    exact ⟨0, rfl, le_refl 0, nofun⟩
  refine ⟨?_, ?_⟩
  · obtain ⟨g, hglobal, _, hcounters⟩ := hreaches
    exact ⟨g, hglobal, fun contract n hn => (hcounters contract n hn).1⟩
  · intro operation op c1 c2 operation' op' c3 hfirst hlater hsecond hsource
    obtain ⟨m, hm, h1⟩ := precheck_manager_contents_reaches hreaches hfirst
    obtain ⟨_, _, _, hcounter, _⟩ := precheck_manager_contents_spec.of_ok hsecond
    rw [hsource] at hcounter
    have hle := (reaches_run hlater h1).le_of_lookup hcounter
    omega

end

/-- A content of the only account. -/
def numbered_content (counter : ℤ) : Manager_contents where
  source := .Ed25519 0
  fee := Qty.zero
  counter := counter
  operation := .Delegation none
  gas_limit := 1000
  storage_limit := 0

def numbered_contents : Operation where
  branch := ⟨0⟩
  contents := .Manager_operations (numbered_content 1) [numbered_content 2]
  signature := some 0

/-- The contents of a batch pass the precheck one after the other. -/
theorem counters_never_replayed_batch :
    let _ := unscripted_environment
    ∃ c c1 c2, (prepare_first_block single_delegate 1 0 0).outcome = .ok c ∧
      (precheck_manager_contents c numbered_contents (numbered_content 1)).outcome = .ok c1 ∧
      (precheck_manager_contents c1 numbered_contents (numbered_content 2)).outcome = .ok c2 ∧
      (numbered_content 1).counter < (numbered_content 2).counter := by
  intro _
  have hreturns : (do
      let c ← prepare_first_block single_delegate 1 0 0
      let c1 ← precheck_manager_contents c numbered_contents (numbered_content 1)
      let _ ← precheck_manager_contents c1 numbered_contents (numbered_content 2)
      pure true : Carbonated Bool).outcome.returns id = true := by
    decide +kernel
  simp only [Traced.returns_bind_iff, Traced.returns_pure] at hreturns
  obtain ⟨c, hgenesis, c1, hfirst, c2, hsecond, _⟩ := hreturns
  obtain ⟨_, hgreater⟩ := counters_never_replayed unscripted_environment_lawful hgenesis .refl
  exact ⟨c, c1, c2, hgenesis, hfirst, hsecond, hgreater _ _ c1 c1 _ _ c2 hfirst .refl hsecond rfl⟩

end apply

end plexus
