import Plexus.OperationSteps

/-! The end of a block: what is frozen, and what happens when a cycle or a
voting period ends with it. -/

namespace plexus

open Result (bind_inv)

/-- Tokens are moved, and nothing is written besides. -/
structure Tokens_moved [Environment] (c c' : Context) : Prop where
  run : Block_run c c'
  elsewhere : c'.elsewhere = c.elsewhere

namespace Tokens_moved

variable [Environment] {c c' c'' : Context}

theorem refl (c : Context) : Tokens_moved c c := ⟨.refl, rfl⟩

section

variable (h : Tokens_moved c c')

include h

theorem trans (h' : Tokens_moved c' c'') : Tokens_moved c c'' :=
  ⟨Relation.ReflTransGen.trans h.run h'.run, h'.elsewhere.trans h.elsewhere⟩

theorem level : c'.level = c.level := congrArg (·.level) h.elsewhere

theorem constants : c'.constants = c.constants := congrArg (·.constants) h.elsewhere

theorem cycles : c'.cycles = c.cycles := congrArg (·.cycles) h.elsewhere

theorem votes : c'.votes = c.votes := congrArg (·.votes) h.elsewhere

end

end Tokens_moved

variable {updates : Balance_updates} {deactivated : List Public_key_hash}

namespace delegate_storage

variable [Environment] {c c' : Context}

variable {unrevealed : List Unrevealed_nonce}

/-- Burning what is not revealed moves tokens and nothing else. -/
theorem burn_unrevealed_moved {revealed_cycle : Cycle}
    (h : burn_unrevealed c revealed_cycle unrevealed = .ok (c', updates)) : Tokens_moved c c' := by
  refine Result.foldlM_preserves (P := fun acc => Tokens_moved c acc.1) ?_ h (.refl c)
  rintro ⟨c1, _⟩ u ⟨c2, _⟩ hround hmoved
  obtain ⟨c3, hfees, hround⟩ := bind_inv hround
  cases hround
  refine hmoved.trans ⟨.head (.burn_fees _ _ _ hfees) (.single (.burn_rewards _ _ _ rfl)), ?_⟩
  exact (burn_fees_refrozen hfees).elsewhere

/-- So does unfreezing, by induction on the delegates. -/
theorem unfreeze_all_moved {cycle : Cycle} {updates' : Balance_updates}
    {delegates : List Public_key_hash}
    (h : unfreeze_all c cycle updates delegates = .ok (c', updates')) : Tokens_moved c c' := by
  refine Result.foldlM_preserves (P := fun acc => Tokens_moved c acc.1) ?_ h (.refl c)
  rintro ⟨c1, _⟩ _ ⟨c2, _⟩ hround hmoved
  obtain ⟨⟨c3, _⟩, hunfreeze, hround⟩ := bind_inv hround
  cases hround
  exact hmoved.trans
    ⟨.single (.unfreeze _ _ _ trivial hunfreeze), (unfreeze_refrozen hunfreeze).elsewhere⟩

variable {last_cycle : Cycle}

/-- So does deactivating. -/
theorem deactivate_all_moved {delegates : List Public_key_hash}
    (h : deactivate_all c last_cycle delegates = .ok (c', deactivated)) : Tokens_moved c c' := by
  refine Result.foldlM_preserves (P := fun acc => Tokens_moved c acc.1) ?_ h (.refl c)
  rintro ⟨c1, _⟩ _ ⟨c2, _⟩ hround hmoved
  obtain ⟨_, _, hround⟩ := bind_inv hround
  split at hround
  · obtain ⟨c3, hinactive, hround⟩ := bind_inv hround
    cases hround
    refine hmoved.trans ⟨.single (.set_inactive _ hinactive), ?_⟩
    have hrolls := (roll_storage.Delegate.set_inactive_booked hinactive).with_rolls
    have helsewhere := congrArg Context.elsewhere hrolls
    exact helsewhere
  · cases hround
    exact hmoved

/-- What was earned with a nonce that is not revealed is burnt; when a cycle is old
enough, its deposits are given back and delegates without activity are set aside. -/
theorem cycle_end_moved {balance_updates : Balance_updates}
    (h : cycle_end c last_cycle unrevealed = .ok (c', balance_updates, deactivated)) :
    Tokens_moved c c' := by
  obtain ⟨⟨c1, _⟩, hburn, h⟩ := bind_inv h
  have hmoved1 : Tokens_moved c c1 := by
    split at hburn
    · cases hburn
      exact .refl _
    · exact burn_unrevealed_moved hburn
  obtain ⟨unfrozen_cycle, _, h⟩ := bind_inv h
  split at h
  · cases h
    exact hmoved1
  · next unfrozen_cycle _ =>
    obtain ⟨⟨c2, _⟩, hunfreeze, h⟩ := bind_inv h
    obtain ⟨⟨c3, _⟩, hdeactivate, h⟩ := bind_inv h
    cases h
    have hcleared : Tokens_moved c2 (clear_delegates_with_frozen_balance c2 unfrozen_cycle) :=
      ⟨.single (.clear_delegates_with_frozen_balance _ rfl), rfl⟩
    exact ((hmoved1.trans (unfreeze_all_moved hunfreeze)).trans hcleared).trans
      (deactivate_all_moved hdeactivate)

end delegate_storage

namespace apply

open delegate_storage

variable [Environment] {c c' : Context} {delegate : Public_key_hash}
  {protocol_data : Block_header_contents}

/-- So does freezing the deposits of a block. -/
theorem freeze_deposits_moved (h : freeze_deposits c = .ok c') : Tokens_moved c c' := by
  refine Result.foldlM_preserves ?_ h (.refl c)
  intro c1 d c2 hround hmoved
  split at hround
  · cases hround
    exact hmoved
  · exact hmoved.trans
      ⟨.single (.freeze_deposit _ _ trivial hround), (freeze_deposit_refrozen hround).elsewhere⟩

/-- The income of the baker is frozen, and its nonce recorded. -/
theorem freeze_baker_income_moved (h : freeze_baker_income c protocol_data delegate = .ok c') :
    ∃ c1, Tokens_moved c c1 ∧
      (protocol_data.seed_nonce_hash = none ∧ c' = c1 ∨
        ∃ unrevealed, protocol_data.seed_nonce_hash.isSome ∧
          nonce_storage.record_hash c1 unrevealed = .ok c') := by
  obtain ⟨c1, hfees, h⟩ := bind_inv h
  obtain ⟨c2, hrewards, h⟩ := bind_inv h
  refine ⟨c2, ⟨.head (.freeze_fees _ _ hfees) (.single (.freeze_rewards _ _ hrewards)), ?_⟩, ?_⟩
  · rw [(freeze_rewards_refrozen hrewards).elsewhere, (freeze_fees_refrozen hfees).elsewhere]
  · cases hhash : protocol_data.seed_nonce_hash with
    | none =>
      rw [hhash] at h
      cases h
      exact .inl ⟨rfl, rfl⟩
    | some nonce_hash =>
      rw [hhash] at h
      exact .inr ⟨_, rfl, h⟩

/-- The calls at the end of a cycle. -/
theorem may_start_new_cycle_success (h : may_start_new_cycle c = .ok (c', updates, deactivated)) :
    baking.last_of_a_cycle c c.level = false ∧ c' = c ∨
      baking.last_of_a_cycle c c.level = true ∧
      ∃ c1 unrevealed c2 c3, seed_storage.cycle_end c c.level.cycle = .ok (c1, unrevealed) ∧
        roll_storage.cycle_end c1 c.level.cycle = .ok c2 ∧
        delegate_storage.cycle_end c2 c.level.cycle unrevealed = .ok (c3, updates, deactivated) ∧
        bootstrap_storage.cycle_end c3 c.level.cycle = .ok c' := by
  unfold may_start_new_cycle baking.dawn_of_a_new_cycle at h
  cases hlast : baking.last_of_a_cycle c c.level with
  | false =>
    simp only [level_storage.current, raw_context.current_level, hlast] at h
    cases h
    exact .inl ⟨rfl, rfl⟩
  | true =>
    simp only [level_storage.current, raw_context.current_level, hlast, if_true] at h
    obtain ⟨⟨c1, unrevealed⟩, hseed, h⟩ := bind_inv h
    obtain ⟨c2, hroll, h⟩ := bind_inv h
    obtain ⟨⟨c3, _, _⟩, hdelegate, h⟩ := bind_inv h
    obtain ⟨c4, hbootstrap, h⟩ := bind_inv h
    cases h
    exact .inr ⟨rfl, c1, unrevealed, c2, c3, hseed, hroll, hdelegate, hbootstrap⟩

/-- Votes, constants and levels are what they were. -/
structure Same_votes (c c' : Context) : Prop where
  votes : c'.votes = c.votes
  constants : c'.constants.fixed = c.constants.fixed
  first_level : c'.first_level = c.first_level
  level : c'.level = c.level

namespace Same_votes

variable {c'' : Context}

omit [Environment] in
theorem refl (c : Context) : Same_votes c c := ⟨rfl, rfl, rfl, rfl⟩

omit [Environment] in
theorem trans (h : Same_votes c c') (h' : Same_votes c' c'') : Same_votes c c'' where
  votes := h'.votes.trans h.votes
  constants := h'.constants.trans h.constants
  first_level := h'.first_level.trans h.first_level
  level := h'.level.trans h.level

/-- Moving tokens leaves the votes. -/
theorem of_moved (h : Tokens_moved c c') : Same_votes c c' where
  votes := h.votes
  constants := congrArg Constants.fixed h.constants
  first_level := congrArg (·.first_level) h.elsewhere
  level := h.level

omit [Environment] in
theorem of_cycles_only (h : cycles.Only c c') : Same_votes c c' := by
  rw [h]
  exact ⟨rfl, rfl, rfl, rfl⟩

omit [Environment] in
theorem of_ramped (h : Ramped c c') : Same_votes c c' := by
  have hfixed := h.fixed
  rw [h.only] at hfixed ⊢
  exact ⟨rfl, hfixed, rfl, rfl⟩

end Same_votes

variable {block_delay : Int64} {metadata : Block_metadata}

/-- A new cycle leaves the votes. -/
theorem may_start_new_cycle_same_votes
    (h : may_start_new_cycle c = .ok (c', updates, deactivated)) :
    Same_votes c c' := by
  rcases may_start_new_cycle_success h with ⟨_, rfl⟩ |
    ⟨_, c1, unrevealed, c2, c3, hseed, hroll, hdelegate, hbootstrap⟩
  · exact .refl _
  · have hsame2 := (Same_votes.of_cycles_only
      ((seed_storage.cycle_end_only hseed).of_part seeds_part)).trans
      (.of_cycles_only ((roll_storage.cycle_end_only hroll).of_part snapshots_part))
    have hsame3 := hsame2.trans (.of_moved (delegate_storage.cycle_end_moved hdelegate))
    exact hsame3.trans (.of_ramped (bootstrap_storage.cycle_end_ramped hbootstrap))

/-- The calls of `finalize_application` before a cycle may end. -/
structure Closing (c : Context) (protocol_data : Block_header_contents)
    (delegate : Public_key_hash) (c' : Context) : Prop where
  calls : ∃ c1 reward c2 c3 c4,
    raw_context.add_deposit c delegate c.constants.block_security_deposit = .ok c1 ∧
    baking.baking_reward c1 protocol_data.priority c.included_endorsements = .ok reward ∧
    raw_context.add_rewards c1 reward = .ok c2 ∧
    freeze_deposits c2 = .ok c3 ∧
    freeze_baker_income c3 protocol_data delegate = .ok c4 ∧
    may_snapshot_roll c4 = .ok c'

/-- A block is closed, then a new cycle begins, then a new voting period. -/
theorem finalize_application_closing
    (h : finalize_application c protocol_data delegate block_delay = .ok (c', metadata)) :
    ∃ c1 c2 updates deactivated, Closing c protocol_data delegate c1 ∧
      may_start_new_cycle c1 = .ok (c2, updates, deactivated) ∧
      amendment.may_start_new_voting_period c2 = .ok c' := by
  obtain ⟨_, _, h⟩ := bind_inv h
  obtain ⟨c1, hdeposit, h⟩ := bind_inv h
  obtain ⟨reward, hreward, h⟩ := bind_inv h
  obtain ⟨c2, hadd, h⟩ := bind_inv h
  obtain ⟨c3, hdeposits, h⟩ := bind_inv h
  obtain ⟨c4, hincome, h⟩ := bind_inv h
  obtain ⟨c5, hsnapshot, h⟩ := bind_inv h
  obtain ⟨⟨c6, updates, deactivated⟩, hcycle, h⟩ := bind_inv h
  obtain ⟨c7, hperiod, h⟩ := bind_inv h
  obtain ⟨_, _, h⟩ := bind_inv h
  cases h
  exact ⟨c5, c6, updates, deactivated,
    ⟨c1, reward, c2, c3, c4, hdeposit, hreward, hadd, hdeposits, hincome, hsnapshot⟩, hcycle, hperiod⟩

/-- What surrounds the accounts is what it was. -/
structure Same_setting (c c' : Context) : Prop where
  cycles : c'.cycles = c.cycles
  votes : c'.votes = c.votes
  constants : c'.constants = c.constants
  first_level : c'.first_level = c.first_level
  level : c'.level = c.level

/-- Before a cycle ends, a nonce is recorded and rolls are copied. -/
theorem Closing.recorded (h : Closing c protocol_data delegate c') :
    ∃ c1 c2, Same_setting c c1 ∧
      (protocol_data.seed_nonce_hash = none ∧ c2 = c1 ∨
        ∃ unrevealed, protocol_data.seed_nonce_hash.isSome ∧
          nonce_storage.record_hash c1 unrevealed = .ok c2) ∧
      may_snapshot_roll c2 = .ok c' := by
  obtain ⟨c1, _, c2, c3, c4, hdeposit, _, hadd, hdeposits, hincome, hsnapshot⟩ := h.calls
  obtain ⟨_, _, hdeposit⟩ := bind_inv hdeposit
  cases hdeposit
  obtain ⟨_, _, rfl⟩ := raw_context.add_rewards_spec.of_ok hadd
  obtain ⟨c5, hmoved, hrecord⟩ := freeze_baker_income_moved hincome
  have hmoved5 := (freeze_deposits_moved hdeposits).trans hmoved
  refine ⟨c5, c4, ⟨?_, ?_, ?_, ?_, ?_⟩, hrecord, hsnapshot⟩
  · exact hmoved5.cycles
  · exact hmoved5.votes
  · exact hmoved5.constants
  · exact congrArg (·.first_level) hmoved5.elsewhere
  · exact hmoved5.level

/-- Closing a block leaves the votes. -/
theorem Closing.same_votes (h : Closing c protocol_data delegate c') : Same_votes c c' := by
  obtain ⟨c1, c2, hsame, hrecord, hsnapshot⟩ := h.recorded
  have hsame1 : Same_votes c c1 :=
    ⟨hsame.votes, congrArg Constants.fixed hsame.constants, hsame.first_level, hsame.level⟩
  have hsame2 : Same_votes c c2 := by
    rcases hrecord with ⟨_, rfl⟩ | ⟨unrevealed, _, hrecord⟩
    · exact hsame1
    · exact hsame1.trans (.of_cycles_only ((nonce_storage.record_hash_only hrecord).of_part seeds_part))
  exact hsame2.trans (.of_cycles_only ((may_snapshot_roll_only hsnapshot).of_part snapshots_part))

/-- Votes are written at the very end of a block only. -/
theorem finalize_application_votes
    (h : finalize_application c protocol_data delegate block_delay = .ok (c', metadata)) :
    ∃ c1, Same_votes c c1 ∧ amendment.may_start_new_voting_period c1 = .ok c' := by
  obtain ⟨c1, c2, _, _, hclosing, hcycle, hperiod⟩ := finalize_application_closing h
  exact ⟨c2, hclosing.same_votes.trans (may_start_new_cycle_same_votes hcycle), hperiod⟩

end apply

end plexus
