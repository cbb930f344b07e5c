import Plexus.Chains

/-! The slots of the endorsers while a block is validated: a delegate's slots are
counted once. -/

namespace plexus

open List

namespace main

open baking

variable [Environment]

omit [Environment] in
/-- The delegate whose endorsement a receipt is for. -/
def endorser : Option Contents_result_list → Option Public_key_hash
  | some (.Endorsement_result _ delegate _) => some delegate
  | _ => none

/-- The slots while a block is validated. -/
structure Slots (c : Context) (receipts : List (Option Contents_result_list)) : Prop where
  once : ∀ slot, assigned c.allowed_endorsements slot =
    if slot < c.constants.endorsers_per_block then 1 else 0
  all : all_slots c.allowed_endorsements = c.constants.endorsers_per_block
  included : c.included_endorsements = used_slots c.allowed_endorsements
  used : ∀ delegate ∈ receipts.filterMap endorser, ∃ pk slots,
    c.allowed_endorsements.lookup delegate = some (pk, slots, true)
  nodup : (receipts.filterMap endorser).Nodup

variable {c : Context}

theorem Begun.slots {c1 : Context} {level : Raw_level} (h : Begun c level c1) : Slots c1 [] := by
  obtain ⟨_, _, _, _, hrights⟩ := h
  have hassigned := endorsement_rights_assigned hrights
  exact ⟨hassigned.once, hassigned.all, hassigned.used_slots_eq.symm, by simp, by simp⟩

variable {receipts : List (Option Contents_result_list)}

omit [Environment] in
/-- An operation that does not endorse leaves the slots alone. -/
theorem Slots.of_eq {c' : Context} {receipt : Option Contents_result_list} (h : Slots c receipts)
    (hallowed : c'.allowed_endorsements = c.allowed_endorsements)
    (hincluded : c'.included_endorsements = c.included_endorsements)
    (hconstants : c'.constants = c.constants) (hreceipt : endorser receipt = none) :
    Slots c' (receipt :: receipts) := by
  constructor
  · rw [hallowed, hconstants]
    exact h.once
  · rw [hallowed, hconstants]
    exact h.all
  · rw [hallowed, hincluded]
    exact h.included
  · rw [hallowed, filterMap_cons_none hreceipt]
    exact h.used
  · rw [filterMap_cons_none hreceipt]
    exact h.nodup

omit [Environment] in
/-- Marking a delegate as used changes nothing but the count of used slots. -/
theorem Slots.mark {c' : Context} {delegate : Public_key_hash} {pk : Public_key} {slots : List Nat}
    {updates : delegate_storage.Balance_updates} (h : Slots c receipts)
    (hrights : c.allowed_endorsements.lookup delegate = some (pk, slots, false))
    (hallowed : c'.allowed_endorsements =
      c.allowed_endorsements.put delegate (some (pk, slots, true)))
    (hincluded : c'.included_endorsements = c.included_endorsements + slots.length)
    (hconstants : c'.constants = c.constants) :
    Slots c' (some (.Endorsement_result updates delegate slots) :: receipts) := by
  have hput (g : Public_key_hash → Public_key × List Nat × Bool → Nat) : c'.allowed_endorsements.sum
      g + g delegate (pk, slots, false) = c.allowed_endorsements.sum g + g delegate
      (pk, slots, true) := by
    have hput := Store.sum_put_add c.allowed_endorsements delegate (pk, slots, true) g
    rw [hrights, ← hallowed] at hput
    exact hput
  have hendorsers : (some (.Endorsement_result updates delegate slots) :: receipts).filterMap
      endorser = delegate :: receipts.filterMap endorser := rfl
  constructor
  · intro slot
    have hsum := hput fun _ right => right.2.1.count slot
    rw [hconstants, ← h.once slot]
    exact Nat.add_right_cancel hsum
  · have hsum := hput fun _ right => right.2.1.length
    rw [hconstants, ← h.all]
    exact Nat.add_right_cancel hsum
  · have hsum := hput fun _ right => if right.2.2 then right.2.1.length else 0
    rw [hincluded, h.included]
    exact hsum.symm
  · intro d hd
    rw [hendorsers, mem_cons] at hd
    rw [hallowed]
    by_cases hdd : d = delegate
    · rw [hdd, Store.lookup_put_self]
      exact ⟨pk, slots, rfl⟩
    · rw [Store.lookup_put_ne _ hdd]
      exact h.used d (hd.resolve_left hdd)
  · rw [hendorsers, nodup_cons]
    refine ⟨?_, h.nodup⟩
    intro hmem
    obtain ⟨pk', _, hlookup⟩ := h.used delegate hmem
    rw [hrights] at hlookup
    cases hlookup

theorem Validating.slots (henv : Lawful_environment) {data : Validation_state}
    (h : Validating c data receipts) : Slots data.ctxt receipts := by
  refine (h.induction henv (fun _ _ => Begun.slots) ?_ ?_).2
  · exact fun _ _ ih => ih.of_eq rfl rfl rfl rfl
  · intro c1 c2 contents result receipts _ hstep ih
    rcases hstep.endorsements with
      ⟨updates, delegate, pk, slots, rfl, hrights, hallowed, hincluded⟩ |
        ⟨hresult, hallowed, hincluded⟩
    · exact ih.mark hrights hallowed hincluded hstep.constants
    · refine ih.of_eq hallowed hincluded hstep.constants ?_
      cases result with
      | Endorsement_result updates delegate slots => exact absurd rfl (hresult updates delegate slots)
      | _ => rfl

/-! Assertions on the endorsements. -/

omit [Environment] in
/-- The count passes the check of the reward for the block. -/
theorem Slots.baking_reward_ne {c1 : Context} (h : Slots c receipts) {delegate : Public_key_hash}
    {deposit : Mine} (hdeposit : raw_context.add_deposit c delegate deposit = .ok c1)
    (priority : Nat) :
    baking_reward c1 priority c.included_endorsements ≠ fail .Incorrect_number_of_endorsements := by
  have hconstants : c1.constants = c.constants := by
    obtain ⟨_, _, hdeposit⟩ := Result.bind_inv hdeposit
    cases hdeposit
    rfl
  have hle : c.included_endorsements ≤ c1.constants.endorsers_per_block := by
    rw [hconstants, h.included, ← h.all]
    exact used_slots_le c.allowed_endorsements
  intro hfail
  unfold baking_reward at hfail
  rw [decide_eq_true hle] at hfail
  rcases Qty.mul_error hfail with heq | ⟨_, _, heq⟩
  · cases heq
  · cases heq

/-- While a block is validated, the count of included endorsements is the number
of slots of the delegates that endorsed. Every slot belongs to exactly one
delegate, and no delegate endorses twice. The count stays within bounds, and the
assertions on endorsements hold. -/
theorem endorsement_slots_accounted (henv : Lawful_environment) {c : Context}
    {data : Validation_state} {receipts : List (Option Contents_result_list)}
    (h : Validating c data receipts) :
    data.ctxt.included_endorsements = used_slots data.ctxt.allowed_endorsements ∧
    (∀ slot < data.ctxt.constants.endorsers_per_block,
      ∃! delegate, Has_slot data.ctxt.allowed_endorsements slot delegate) ∧
    (∀ ctxt level rights, endorsement_rights ctxt level = .ok rights →
      ∀ slot < ctxt.constants.endorsers_per_block, ∃! delegate, Has_slot rights slot delegate) ∧
    (receipts.filterMap endorser).Nodup ∧
    data.ctxt.included_endorsements ≤ data.ctxt.constants.endorsers_per_block ∧
    (∀ delegate deposit ctxt priority,
      raw_context.add_deposit data.ctxt delegate deposit = .ok ctxt →
      baking_reward ctxt priority data.ctxt.included_endorsements ≠
        fail .Incorrect_number_of_endorsements) ∧
    (∀ operation, (apply_operation data operation).outcome ≠ .raise .Assert_record_endorsement) ∧
    (1 ≤ c.constants.endorsers_per_block →
      (∀ chain_id predecessor_timestamp predecessor_fitness block_header,
        begin_application chain_id c predecessor_timestamp predecessor_fitness block_header ≠
          .raise .Assert_init_endorsements ∧
        begin_partial_application chain_id c predecessor_timestamp predecessor_fitness
          block_header ≠ .raise .Assert_init_endorsements) ∧
      ∀ chain_id predecessor_timestamp pred_level pred_fitness predecessor timestamp protocol_data,
        begin_construction chain_id c predecessor_timestamp pred_level pred_fitness predecessor
          timestamp protocol_data ≠ .raise .Assert_init_endorsements) := by
  have hslots := h.slots henv
  have hinit : 1 ≤ c.constants.endorsers_per_block →
      ¬ Begin_raised c.constants.endorsers_per_block .Assert_init_endorsements := by
    intro hone hraised
    cases hraised with
    | draw hdraw => cases hdraw
    | init_endorsements hzero => omega
  refine ⟨hslots.included, ?_, ?_, hslots.nodup, ?_, ?_, ?_, ?_⟩
  · intro slot hslot
    apply existsUnique_has_slot
    rw [hslots.once, if_pos hslot]
  · intro ctxt level rights hrights slot hslot
    apply existsUnique_has_slot
    rw [(endorsement_rights_assigned hrights).once, if_pos hslot]
  · rw [hslots.included, ← hslots.all]
    exact used_slots_le data.ctxt.allowed_endorsements
  · exact fun _ _ _ priority hdeposit => hslots.baking_reward_ne hdeposit priority
  · intro operation hraise
    cases apply_operation_raises henv (h.closed henv) operation _ hraise with
    | draw hdraw => cases hdraw
    | manager hmanager => cases hmanager
  · intro hone
    refine ⟨?_, ?_⟩
    · intro chain_id predecessor_timestamp predecessor_fitness block_header
      exact ⟨fun hraise => hinit hone (begin_application_spec.raises _ hraise),
        fun hraise => hinit hone (begin_partial_application_spec.raises _ hraise)⟩
    · intro chain_id predecessor_timestamp pred_level pred_fitness predecessor timestamp
        protocol_data hraise
      exact hinit hone (begin_construction_spec.raises _ hraise)

omit [Environment] in
theorem endorsement_slots_accounted_first_endorsement :
    let _ := unscripted_environment
    ∃ c0 data receipt, Validating c0 data [receipt] ∧ data.ctxt.included_endorsements = 30 ∧
      data.ctxt.included_endorsements = used_slots data.ctxt.allowed_endorsements := by
  intro _
  have hreturns : (do
      let c0 ← init_storage.prepare_first_block init_storage.single_delegate 1 0 0
      let data ← begin_application ⟨0⟩ c0 0 [] (plain_block 1)
      let r ← apply_operation data first_endorsement
      pure (decide (r.1.ctxt.included_endorsements = 30)) : Carbonated Bool).outcome.returns id =
        true := by
    decide +kernel
  simp only [Traced.returns_bind_iff, Traced.returns_pure, Traced.outcome_monadLift, id_eq,
    decide_eq_true_eq] at hreturns
  obtain ⟨c0, _, data, hbegin, ⟨data', receipt⟩, hoperation, hincluded⟩ := hreturns
  have hvalidating := (Validating.begin_application hbegin).apply_operation hoperation
  exact ⟨c0, data', receipt, hvalidating, hincluded,
    (endorsement_slots_accounted unscripted_environment_lawful hvalidating).1⟩

end main

end plexus
