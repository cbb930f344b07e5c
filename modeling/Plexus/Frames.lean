import Plexus.Components

/-! Seeds, snapshots, votes and the other data a block keeps up to date are
written without touching accounts, rolls or the freezer. -/

namespace plexus

open Indexed_data_storage

open Result (bind_inv)

/-- The constants without those that change while rewards and deposits are
ramped up. -/
def Constants.fixed (constants : Constants) : Constants :=
  { constants with
    baking_reward_per_endorsement := []
    endorsement_reward := []
    block_security_deposit := Qty.zero
    endorsement_security_deposit := Qty.zero }

/-- The two contexts have the same accounts, rolls and freezer at the same
level. -/
structure Same_accounts (c c' : Context) : Prop where
  contracts : c'.contracts = c.contracts
  code : c'.scripts.code = c.scripts.code
  rolls : c'.rolls = c.rolls
  freezer : c'.freezer = c.freezer
  constants : c'.constants.fixed = c.constants.fixed
  first_level : c'.first_level = c.first_level
  level : c'.level = c.level

namespace Same_accounts

variable {c c' c'' : Context}

theorem trans (h : Same_accounts c c') (h' : Same_accounts c' c'') : Same_accounts c c'' where
  contracts := h'.contracts.trans h.contracts
  code := h'.code.trans h.code
  rolls := h'.rolls.trans h.rolls
  freezer := h'.freezer.trans h.freezer
  constants := h'.constants.trans h.constants
  first_level := h'.first_level.trans h.first_level
  level := h'.level.trans h.level

theorem of_ledger_eq (h : c'.ledger = c.ledger) : Same_accounts c c' where
  contracts := congrArg (·.contracts) h
  code := congrArg (·.scripts.code) h
  rolls := congrArg (·.rolls) h
  freezer := congrArg (·.freezer) h
  constants := congrArg (·.constants.fixed) h
  first_level := congrArg (·.first_level) h
  level := congrArg (·.level) h

end Same_accounts

variable {c c' : Context}

theorem Same_accounts.of_cycles_only (h : cycles.Only c c') : Same_accounts c c' := by
  rw [h]
  exact ⟨rfl, rfl, rfl, rfl, rfl, rfl, rfl⟩

theorem Same_accounts.of_votes_only (h : votes.Only c c') : Same_accounts c c' := by
  rw [h]
  exact ⟨rfl, rfl, rfl, rfl, rfl, rfl, rfl⟩

theorem Same_accounts.of_commitments_only (h : commitments.Only c c') : Same_accounts c c' := by
  rw [h]
  exact ⟨rfl, rfl, rfl, rfl, rfl, rfl, rfl⟩

/-! Ramp-up of rewards and deposits. -/

/-- The constants that are ramped up and what they will become. -/
def ramp_up : Component
    (Constants × Store Cycle (List Tez × List Tez) × Store Cycle (Mine × Mine)) where
  read c := (c.constants, c.ramp_up_rewards, c.ramp_up_deposits)
  write c s := { c with constants := s.1, ramp_up_rewards := s.2.1, ramp_up_deposits := s.2.2 }
  write_read _ := rfl
  write_write _ _ _ := rfl

/-- Only rewards and deposits are ramped up. -/
structure Ramped (c c' : Context) : Prop where
  only : ramp_up.Only c c'
  fixed : c'.constants.fixed = c.constants.fixed

theorem Ramped.refl (c : Context) : Ramped c c := ⟨.refl c, rfl⟩

theorem Ramped.trans {c c' c'' : Context} (h : Ramped c c') (h' : Ramped c' c'') : Ramped c c'' :=
  ⟨h.only.trans h'.only, h'.fixed.trans h.fixed⟩

theorem Ramped.same_accounts (h : Ramped c c') : Same_accounts c c' := by
  have hfixed := h.fixed
  rw [h.only] at hfixed ⊢
  exact ⟨rfl, rfl, rfl, rfl, hfixed, rfl, rfl⟩

namespace Storage.Ramp_up

theorem Rewards_ramped (c : Context) (s : Store Cycle (List Tez × List Tez)) :
    Ramped c (Rewards.update c s) := ⟨rfl, rfl⟩

theorem Security_deposits_ramped (c : Context) (s : Store Cycle (Mine × Mine)) :
    Ramped c (Security_deposits.update c s) := ⟨rfl, rfl⟩

end Storage.Ramp_up

namespace bootstrap_storage

theorem init_no_reward_cycles_ramped {cycles : Option Nat}
    (h : init_no_reward_cycles c cycles = .ok c') : Ramped c c' := by
  cases cycles with
  | none =>
    cases h
    exact .refl c
  | some cycles =>
    simp only [init_no_reward_cycles] at h
    rw [init_eq_ok_iff] at h
    obtain ⟨_, rfl⟩ := h
    exact ⟨rfl, rfl⟩

theorem init_ramp_up_cycles_ramped {cycles : Option Nat}
    (h : init_ramp_up_cycles c cycles = .ok c') : Ramped c c' := by
  cases cycles with
  | none =>
    cases h
    exact .refl c
  | some cycles =>
    obtain ⟨_, _, h⟩ := bind_inv h
    obtain ⟨_, _, h⟩ := bind_inv h
    obtain ⟨c1, hfold, h⟩ := bind_inv h
    rw [init_eq_ok_iff] at h
    obtain ⟨_, rfl⟩ := h
    refine .trans ?_ (Storage.Ramp_up.Security_deposits_ramped c1 _)
    refine Result.foldlM_preserves ?_ hfold ⟨rfl, rfl⟩
    intro c2 cycle c3 hround hacc
    obtain ⟨_, _, hround⟩ := bind_inv hround
    obtain ⟨_, _, hround⟩ := bind_inv hround
    rw [init_eq_ok_iff] at hround
    obtain ⟨_, rfl⟩ := hround
    exact hacc.trans (Storage.Ramp_up.Security_deposits_ramped c2 _)

theorem cycle_end_ramped {last_cycle : Cycle} (h : cycle_end c last_cycle = .ok c') :
    Ramped c c' := by
  obtain ⟨c1, hrewards, h⟩ := bind_inv h
  have hramped1 : Ramped c c1 := by
    split at hrewards
    · cases hrewards
      exact .refl c
    · obtain ⟨c2, hdelete, hrewards⟩ := bind_inv hrewards
      cases hrewards
      rw [delete_eq_ok_iff] at hdelete
      obtain ⟨_, rfl⟩ := hdelete
      exact (Storage.Ramp_up.Rewards_ramped c _).trans ⟨rfl, rfl⟩
  split at h
  · cases h
    exact hramped1
  · obtain ⟨c2, hdelete, h⟩ := bind_inv h
    cases h
    rw [delete_eq_ok_iff] at hdelete
    obtain ⟨_, rfl⟩ := hdelete
    exact (hramped1.trans (Storage.Ramp_up.Security_deposits_ramped c1 _)).trans ⟨rfl, rfl⟩

end bootstrap_storage

/-! Addresses of originated contracts. -/

namespace contract_storage

theorem fresh_contract_from_current_nonce_spec [Environment] :
    (fresh_contract_from_current_nonce c).Meets fun r =>
      ∃ nonce, c.origination_nonce = some nonce ∧
      r = ({ c with origination_nonce := some (contract_repr.incr_origination_nonce nonce) },
        contract_repr.originated_contract nonce) := by
  unfold fresh_contract_from_current_nonce raw_context.increment_origination_nonce
  cases hnonce : c.origination_nonce with
  | none => exact meets_fail
  | some nonce => exact Result.meets_ok ⟨nonce, rfl, rfl⟩

end contract_storage

end plexus
