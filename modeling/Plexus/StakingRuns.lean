import Plexus.Genesis
import Plexus.Staking

/-! Staking over whole runs, from the genesis block on. -/

namespace plexus

open Traced roll_storage init_storage

open delegate_storage (registered freeze_deposit)

namespace staking

section

variable [Environment] {c c' : Context}

/-- Freezing is restricted to registered delegates. -/
def Registered (c : Context) (d : Public_key_hash) : Prop := registered c d = true

/-- A step of the ledger keeps stakes and rolls in step. -/
theorem ledger_step_accounted (hstep : Ledger_step Registered (fun _ => True) c c')
    (h : Accounted c) : Accounted c' := by
  cases hstep with
  | same hsame => exact h.same hsame
  | credit contract amount mine_amount hcredit => exact credit_accounted h hcredit
  | spend contract amount hspend => exact spend_accounted h hspend
  | mine_spend contract amount hspend => exact mine_spend_accounted h hspend
  | originate prepaid contract balance script delegate _ horiginate =>
    exact originate_accounted h horiginate
  | reveal_manager_key manager public_key hreveal =>
    obtain ⟨_, rfl⟩ := contract_storage.reveal_manager_key_spec.of_ok hreveal
    exact h.congr rfl rfl rfl rfl rfl rfl
  | increment_counter manager hincrement =>
    obtain ⟨_, _, _, _, rfl⟩ := contract_storage.increment_counter_spec.of_ok hincrement
    exact h.congr rfl rfl rfl rfl rfl rfl
  | init contract delegate hinit => exact delegate_init_accounted h hinit
  | set contract delegate hset => exact delegate_set_accounted h hset
  | freeze_deposit delegate amount hregistered hfreeze =>
    exact freeze_deposit_accounted h hregistered hfreeze
  | freeze_fees delegate amount hfreeze => exact freeze_fees_accounted h hfreeze
  | freeze_rewards delegate amount hfreeze => exact freeze_rewards_accounted h hfreeze
  | burn_fees delegate cycle amount hburn => exact burn_fees_accounted h hburn
  | burn_rewards delegate cycle amount hburn =>
    rw [hburn]
    exact h.congr rfl rfl rfl rfl rfl rfl
  | unfreeze delegate cycle balance_updates hregistered hunfreeze =>
    exact unfreeze_accounted h hregistered hunfreeze
  | clear_delegates_with_frozen_balance cycle hclear =>
    rw [hclear]
    exact h.congr rfl rfl rfl rfl rfl rfl
  | punish delegate cycle frozen hpunish => exact punish_accounted h hpunish
  | set_active delegate hactive =>
    exact h.booked_zero (roll_storage.Delegate.set_active_spec.of_ok hactive)
  | set_inactive delegate hinactive =>
    exact h.booked_zero (roll_storage.Delegate.set_inactive_booked hinactive)

/-- A call, or the passage to another level. -/
inductive Chain_step (freezes : Context → Public_key_hash → Prop) (c c' : Context) : Prop where
  | call (h : Ledger_step freezes (fun _ => True) c c')
  | prepare (level : Raw_level) (timestamp fitness : Int64)
      (h : c' = raw_context.prepare c level timestamp fitness)

/-- So does every step of a chain. -/
theorem chain_step_accounted (hstep : Chain_step Registered c c') (h : Accounted c) :
    Accounted c' := by
  cases hstep with
  | call hcall => exact ledger_step_accounted hcall h
  | prepare level timestamp fitness hprepare =>
    rw [hprepare]
    exact h.congr rfl rfl rfl rfl rfl rfl

/-! Genesis. -/

omit [Environment] in
theorem blank_accounted {param : Parameters} {level : Raw_level}
    (h : init_storage.Blank param level c) : Accounted c where
  books := by
    refine ⟨Roll_lists.empty, ?_, ?_⟩
    · rw [h.rolls]
      exact Rolls.Represents.initial
    · intro d
      have hchange : get_change c d = Qty.zero := by
        simp [get_change, Indexed_data_storage.get_option, h.rolls, Rolls.empty]
      simp [Roll_lists.stake, Roll_lists.empty, hchange, staked, delegated_mine, frozen_mine,
        h.contracts, h.freezer, Contracts.empty, Freezer.empty]
  balances contract d hdelegate := by
    simp [h.contracts, Contracts.empty] at hdelegate

/-- They are in step in the first block. -/
theorem genesis_accounted (henv : Lawful_environment) {param : Parameters} {level : Raw_level}
    {timestamp fitness : Int64}
    (h : (init_storage.prepare_first_block param level timestamp fitness).outcome = .ok c) :
    Accounted c := by
  obtain ⟨c0, hblank, hrun⟩ := genesis_run Registered (fun _ => True) henv (fun _ => trivial) h
  exact hrun.preserves (fun _ _ => ledger_step_accounted) (blank_accounted hblank)

/-- In every state reached from a genesis block by successful calls that freeze
deposits of registered delegates only, the rolls and the change of each delegate
amount to the MINE of the accounts delegated to it and its frozen deposits and
fees. -/
theorem rolls_and_change_eq_staked (henv : Lawful_environment) {param : Parameters}
    {level : Raw_level} {timestamp fitness : Int64} {c0 : Context}
    (hgenesis : (init_storage.prepare_first_block param level timestamp fitness).outcome = .ok c0)
    (hrun : Relation.ReflTransGen (Chain_step Registered) c0 c) (d : Public_key_hash) :
    ∃ n, count_rolls c d = .ok n ∧
      n * c.constants.mine_tokens_per_roll.amount + (get_change c d).amount =
        staked c d := by
  have haccounted : Accounted c :=
    hrun.preserves (fun _ _ => chain_step_accounted) (genesis_accounted henv hgenesis)
  obtain ⟨a, hrep, hstake⟩ := haccounted.books
  exact ⟨_, count_rolls_eq hrep d, hstake d⟩

end

theorem rolls_and_change_eq_staked_after_deposit :
    let _ := unscripted_environment
    let d : Public_key_hash := .Ed25519 0
    ∃ c0 c, (init_storage.prepare_first_block single_delegate 1 0 0).outcome = .ok c0 ∧
      registered c0 d = true ∧
      freeze_deposit c0 d ⟨60000000000, by decide⟩ = .ok c ∧
      ∃ n, count_rolls c d = .ok n ∧
        n * c.constants.mine_tokens_per_roll.amount + (get_change c d).amount =
          staked c d := by
  intro _ d
  have hreturns : (do
      let c0 ← init_storage.prepare_first_block single_delegate 1 0 0
      let c ← freeze_deposit c0 d ⟨60000000000, by decide⟩
      pure (registered c0 d) : Carbonated Bool).outcome.returns id = true := by
    decide +kernel
  simp only [returns_bind_iff, returns_pure, outcome_monadLift] at hreturns
  obtain ⟨c0, hgenesis, c, hfreeze, hregistered⟩ := hreturns
  refine ⟨c0, c, hgenesis, hregistered, hfreeze, ?_⟩
  exact rolls_and_change_eq_staked unscripted_environment_lawful hgenesis
    (.single (.call (.freeze_deposit d _ hregistered hfreeze))) d

/-- The deposit of a key that is not registered is taken from the stake of the
delegate its account is delegated to, whose rolls and change stay as they are. -/
theorem deposit_of_unregistered_key :
    let _ := unscripted_environment
    let d : Public_key_hash := .Ed25519 0
    let key : Public_key_hash := .Ed25519 1
    ∃ c0 c n,
      (init_storage.prepare_first_block single_delegate 1 0 0).outcome = .ok c0 ∧
      Relation.ReflTransGen (Chain_step fun _ _ => True) c0 c ∧
      registered c d = true ∧ registered c key = false ∧
      count_rolls c d = .ok n ∧
      n * c.constants.mine_tokens_per_roll.amount + (get_change c d).amount =
        staked c d + 5 := by
  intro _ d key
  have hreturns : (do
      let c0 ← init_storage.prepare_first_block single_delegate 1 0 0
      let c1 ← contract_storage.credit c0 (contract_repr.implicit_contract key) Qty.zero
        ⟨7, by decide⟩
      let c2 ← delegate_storage.set c1 (contract_repr.implicit_contract key) (some d)
      let c ← freeze_deposit c2 key ⟨5, by decide⟩
      let n ← count_rolls c d
      pure (registered c d && !registered c key &&
        decide (n * c.constants.mine_tokens_per_roll.amount +
          (get_change c d).amount = staked c d + 5)) :
      Carbonated Bool).outcome.returns id = true := by
    decide +kernel
  simp only [returns_bind_iff, returns_pure, outcome_monadLift, id_eq,
    Bool.and_eq_true, Bool.not_eq_true', decide_eq_true_eq] at hreturns
  obtain ⟨c0, hgenesis, c1, hcredit, c2, hset, c, hfreeze, n, hcount, ⟨hregistered, hkey⟩, hstake⟩ :=
    hreturns
  refine ⟨c0, c, n, hgenesis, ?_, hregistered, hkey, hcount, hstake⟩
  exact .tail (.tail (.single (.call (.credit _ _ _ hcredit))) (.call (.set _ _ hset)))
    (.call (.freeze_deposit _ _ trivial hfreeze))

end staking

end plexus
