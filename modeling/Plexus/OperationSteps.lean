import Plexus.Exceptions

/-! One operation of a block: the tokens it moves, and what it does besides. -/

namespace plexus

open Result raw_context Qty

open Traced (outcome_bind)

/-- The context without accounts, rolls, the freezer and the income of the
baker, which is where the functions that move tokens write. -/
def Context.elsewhere (c : Context) : Context :=
  { c.surroundings with
    freezer := Freezer.empty
    fees := Qty.zero
    rewards := Qty.zero
    commitments := Store.empty
    storage_space_to_pay := c.storage_space_to_pay }

namespace Context

variable {c c' : Context}

theorem elsewhere_of_surroundings_eq (h : c'.surroundings = c.surroundings)
    (hspace : c'.storage_space_to_pay = c.storage_space_to_pay) : c'.elsewhere = c.elsewhere :=
  congrArg₂ (fun (s : Context) (storage_space_to_pay : Option ℤ) =>
    { s with
      freezer := Freezer.empty
      fees := Qty.zero
      rewards := Qty.zero
      commitments := Store.empty
      storage_space_to_pay }) h hspace

/-- What is kept elsewhere, without the endorsements, the nonces and the votes
that operations record. -/
def background (c : Context) : Context :=
  { c.elsewhere with
    included_endorsements := 0
    allowed_endorsements := Store.empty
    cycles := Cycles.empty
    votes := Votes.empty }

theorem background_eq (c : Context) :
    c.background = { c.elsewhere with
      included_endorsements := 0
      allowed_endorsements := Store.empty
      cycles := Cycles.empty
      votes := Votes.empty } := rfl

end Context

/-! The functions that move tokens. -/

namespace delegate_storage

variable {c c' : Context}

/-- Freezing is not seen elsewhere. -/
theorem Refrozen.elsewhere {contracts : Contracts} (h : Refrozen contracts c c') :
    c'.elsewhere = c.elsewhere :=
  (congrArg Context.elsewhere h).trans rfl

end delegate_storage

/-- A credit is not seen elsewhere. -/
theorem contract_storage.credit_elsewhere [Environment] {c c' : Context} {contract : Contract}
    {amount : Tez} {mine_amount : Mine}
    (h : (credit c contract amount mine_amount).outcome = .ok c') :
    c'.elsewhere = c.elsewhere :=
  Context.elsewhere_of_surroundings_eq
    (credit_spec.within.returned _ _ h rfl).surroundings
    (congrArg (·.storage_space_to_pay) (credit_rest h))

namespace raw_context

variable {c c' : Context}

/-- Rewards are added to those of the block. -/
theorem add_rewards_spec {rewards : Tez} :
    (add_rewards c rewards).Meets fun c' => ∃ new_rewards : Tez,
      new_rewards.amount = c.rewards.amount + rewards.amount ∧
      c' = { c with rewards := new_rewards } := by
  refine .bind add_spec fun new_rewards hadd => ?_
  exact meets_ok ⟨new_rewards, hadd, rfl⟩

end raw_context

/-! Operations of bakers and delegates. -/

variable {op : Endorsement_operation}

namespace baking

variable [Environment]

/-- The endorser that is found has the rights it is found with. -/
theorem find_endorser_lookup {endorsements : Endorsement_rights} {chain_id : Chain_id}
    {pkh : Public_key_hash} {slots : List Nat} {used : Bool}
    (h : find_endorser endorsements chain_id op = some (pkh, slots, used)) :
    ∃ pk, endorsements.lookup pkh = some (pk, slots, used) := by
  refine List.foldlRecOn (motive := fun acc => ∀ pkh slots used, acc = some (pkh, slots, used) →
    ∃ pk, endorsements.lookup pkh = some (pk, slots, used)) _ _ (by simp) ?_ pkh slots used h
  intro acc hacc key _ pkh' slots' used' heq
  split at heq
  · exact hacc pkh' slots' used' heq
  · next pk s u hlookup =>
    split at heq
    · cases heq
      exact ⟨pk, hlookup⟩
    · exact hacc pkh' slots' used' heq

/-- The endorsers of the block before are known. -/
theorem check_endorsement_rights_spec {c : Context} {chain_id : Chain_id}
    (h : op.level + 1 = c.level.level) :
    (check_endorsement_rights c chain_id op).Meets fun r =>
      find_endorser c.allowed_endorsements chain_id op = some r := by
  have hlevel : op.level + 1 = (level_storage.current c).level := h
  unfold check_endorsement_rights
  dsimp only
  rw [if_pos hlevel, bind_ok]
  split
  · exact meets_fail
  · next v hfind => exact meets_ok hfind

end baking

namespace apply

open delegate_storage contract_storage nonce_storage amendment Indexed_data_storage

variable [Environment] {c c' : Context} {result : Contents_result_list} {chain_id : Chain_id}
  {baker : Public_key_hash}

variable {pred_block : Block_hash}

variable {delegate : Public_key_hash} {updates : Balance_updates}

/-- What an operation does besides moving tokens. -/
inductive Operation_step (c c' : Context) : Contents_list → Contents_result_list → Prop where
  | endorsement {level : Raw_level} {updates : Balance_updates} {delegate : Public_key_hash}
      {pk : Public_key} {slots : List Nat}
      (hrights : c.allowed_endorsements.lookup delegate = some (pk, slots, false))
      (h : c'.elsewhere = { c.elsewhere with
        included_endorsements := c.included_endorsements + slots.length
        allowed_endorsements := c.allowed_endorsements.put delegate (some (pk, slots, true)) }) :
      Operation_step c c' (.Endorsement level) (.Endorsement_result updates delegate slots)
  | seed_nonce_revelation {level : Raw_level} {nonce : MBytes} {updates : Balance_updates}
      {c0 c1 : Context} (h0 : c0.elsewhere = c.elsewhere)
      (hreveal : nonce_storage.reveal c0 (level_storage.from_raw c0 level) nonce = .ok c1)
      (h : c'.elsewhere = c1.elsewhere) :
      Operation_step c c' (.Seed_nonce_revelation level nonce)
        (.Seed_nonce_revelation_result updates)
  | proposals {source : Public_key_hash} {period : Voting_period} {proposals : List Nat}
      {c0 c1 : Context} (h0 : c0.elsewhere = c.elsewhere)
      (hrecord : amendment.record_proposals c0 source proposals = .ok c1)
      (h : c'.elsewhere = c1.elsewhere) :
      Operation_step c c' (.Proposals source period proposals) .Proposals_result
  | ballot {source : Public_key_hash} {period : Voting_period} {proposal : Nat} {ballot : Ballot}
      {c0 c1 : Context} (h0 : c0.elsewhere = c.elsewhere)
      (hrecord : amendment.record_ballot c0 source proposal ballot = .ok c1)
      (h : c'.elsewhere = c1.elsewhere) :
      Operation_step c c' (.Ballot source period proposal ballot) .Ballot_result
  | other {contents : Contents_list} {result : Contents_result_list}
      (hresult : ∀ updates delegate slots, result ≠ .Endorsement_result updates delegate slots)
      (h : c'.elsewhere = c.elsewhere) : Operation_step c c' contents result

variable {contents : Contents_list}

/-- Only what is kept elsewhere counts. -/
theorem Operation_step.congr {c0 c1 : Context} (hstep : Operation_step c0 c1 contents result)
    (h0 : c0.elsewhere = c.elsewhere) (h1 : c'.elsewhere = c1.elsewhere) :
    Operation_step c c' contents result := by
  cases hstep with
  | endorsement hrights heq =>
    have hallowed : c0.allowed_endorsements = c.allowed_endorsements :=
      congrArg (·.allowed_endorsements) h0
    have hincluded : c0.included_endorsements = c.included_endorsements :=
      congrArg (·.included_endorsements) h0
    rw [hallowed] at hrights
    rw [h0, hallowed, hincluded] at heq
    exact .endorsement hrights (h1.trans heq)
  | seed_nonce_revelation h hreveal heq =>
    exact .seed_nonce_revelation (h.trans h0) hreveal (h1.trans heq)
  | proposals h hrecord heq => exact .proposals (h.trans h0) hrecord (h1.trans heq)
  | ballot h hrecord heq => exact .ballot (h.trans h0) hrecord (h1.trans heq)
  | other hresult heq => exact .other hresult (h1.trans (heq.trans h0))

section

variable (h : Operation_step c c' contents result)

include h

/-- No operation writes anything else. -/
theorem Operation_step.background_eq :
    c'.background = c.background := by
  cases h with
  | endorsement _ h =>
    rw [c'.background_eq, h]
    rfl
  | seed_nonce_revelation h0 hreveal h =>
    rw [c'.background_eq, h, reveal_only hreveal, c.background_eq, ← h0]
    rfl
  | proposals h0 hrecord h =>
    rw [c'.background_eq, h, record_proposals_only hrecord, c.background_eq, ← h0]
    rfl
  | ballot h0 hrecord h =>
    rw [c'.background_eq, h, record_ballot_only hrecord, c.background_eq, ← h0]
    rfl
  | other _ h => rw [c'.background_eq, h, c.background_eq]

theorem Operation_step.level : c'.level = c.level :=
  congrArg (·.level) h.background_eq

theorem Operation_step.constants :
    c'.constants = c.constants :=
  congrArg (·.constants) h.background_eq

/-- Endorsements are recorded by operations that endorse only. -/
theorem Operation_step.endorsements :
    (∃ updates delegate pk slots, result = .Endorsement_result updates delegate slots ∧
      c.allowed_endorsements.lookup delegate = some (pk, slots, false) ∧
      c'.allowed_endorsements = c.allowed_endorsements.put delegate (some (pk, slots, true)) ∧
      c'.included_endorsements = c.included_endorsements + slots.length) ∨
    (∀ updates delegate slots, result ≠ .Endorsement_result updates delegate slots) ∧
      c'.allowed_endorsements = c.allowed_endorsements ∧
      c'.included_endorsements = c.included_endorsements := by
  have hsame (c0 c1 : Context) (h0 : c0.elsewhere = c.elsewhere) (h1 : c'.elsewhere = c1.elsewhere)
      (h : c1.allowed_endorsements = c0.allowed_endorsements ∧ c1.included_endorsements =
      c0.included_endorsements) : c'.allowed_endorsements = c.allowed_endorsements ∧
      c'.included_endorsements = c.included_endorsements := by
    exact ⟨(congrArg (·.allowed_endorsements) h1).trans (h.1.trans
        (congrArg (·.allowed_endorsements) h0)),
      (congrArg (·.included_endorsements) h1).trans (h.2.trans
        (congrArg (·.included_endorsements) h0))⟩
  cases h with
  | endorsement hrights h =>
    exact .inl ⟨_, _, _, _, rfl, hrights, congrArg (·.allowed_endorsements) h,
      congrArg (·.included_endorsements) h⟩
  | seed_nonce_revelation h0 hreveal h =>
    refine .inr ⟨by simp, hsame _ _ h0 h ?_⟩
    rw [reveal_only hreveal]
    exact ⟨rfl, rfl⟩
  | proposals h0 hrecord h =>
    refine .inr ⟨by simp, hsame _ _ h0 h ?_⟩
    rw [record_proposals_only hrecord]
    exact ⟨rfl, rfl⟩
  | ballot h0 hrecord h =>
    refine .inr ⟨by simp, hsame _ _ h0 h ?_⟩
    rw [record_ballot_only hrecord]
    exact ⟨rfl, rfl⟩
  | other hresult h => exact .inr ⟨hresult, hsame c c' rfl rfl (hsame c c rfl h ⟨rfl, rfl⟩)⟩

end

/-- The slots of an endorser are recorded, and its deposit and reward frozen. -/
theorem apply_endorsement_spec :
    (apply_endorsement c chain_id pred_block op).Meets fun r =>
      Block_run c r.1 ∧ Operation_step c r.1 (.Endorsement op.level) r.2 := by
  refine .bind fail_unless_spec fun _ _ => ?_
  refine .bind fail_unless_spec fun _ hlevel => ?_
  refine .bind (baking.check_endorsement_rights_spec (of_decide_eq_true hlevel)) ?_
  rintro ⟨_, _, used⟩ hfind
  obtain ⟨pk, hlookup⟩ := baking.find_endorser_lookup hfind
  cases used with
  | true => exact meets_fail
  | false =>
    dsimp only
    rw [if_neg Bool.false_ne_true, record_endorsement, hlookup]
    refine .seq (meets_ok rfl) ?_
    refine .bind (total_mul _ _).meets fun deposit _ => ?_
    refine .bind freeze_deposit_spec.total.meets fun c2 hdeposit => ?_
    refine .bind Single_data_storage.get_spec fun priority _ => ?_
    refine .bind (total_mul _ _).meets fun reward _ => ?_
    refine .bind credit_frozen_rewards_spec.total.meets fun c3 hrewards => ?_
    refine meets_ok ⟨.head (.same ?_) (.head (.freeze_deposit _ _ trivial hdeposit)
      (.single (.freeze_rewards _ _ hrewards))), .endorsement hlookup ?_⟩
    · exact ⟨rfl, rfl, rfl, rfl, rfl, rfl, rfl⟩
    · rw [(freeze_rewards_refrozen hrewards).elsewhere, (freeze_deposit_refrozen hdeposit).elsewhere]
      rfl

theorem total_reveal (c : Context) (level : Level) (nonce : MBytes) :
    (reveal c level nonce).Total := by
  have hunrevealed : (get_unrevealed c level).Total := by
    unfold get_unrevealed
    split
    · exact total_fail _
    · split
      · exact total_fail _
      · split
        · exact total_fail _
        · refine total_bind get_spec.total fun status _ => ?_
          cases status
          · exact total_ok _
          · exact total_fail _
  refine total_bind hunrevealed fun unrevealed _ => ?_
  exact total_bind fail_unless_spec.total fun _ _ => set_spec.total

/-- A revelation is a step that rewards the baker. -/
theorem apply_seed_nonce_revelation_spec {level : Raw_level} {nonce : MBytes} :
    (apply_seed_nonce_revelation c baker level nonce).Meets fun r =>
      Block_run c r.1 ∧ Operation_step c r.1 (.Seed_nonce_revelation level nonce) r.2 := by
  refine .bind (total_reveal _ _ _).meets fun c1 hreveal => ?_
  refine .bind add_rewards_spec ?_
  rintro _ ⟨_, _, rfl⟩
  refine meets_ok ⟨?_, .seed_nonce_revelation rfl hreveal rfl⟩
  have honly := (reveal_only hreveal).of_part seeds_part
  refine .head (.same (.of_cycles_only honly)) (.single (.same ?_))
  exact ⟨rfl, rfl, rfl, rfl, rfl, rfl, rfl⟩

/-- An evidence takes from the delegate and gives to the baker. -/
theorem punish_and_reward_spec {level : Level} :
    (punish_and_reward c baker delegate level).Meets fun r =>
      Block_run c r.1 ∧ r.1.elsewhere = c.elsewhere := by
  refine .bind punish_spec.total.meets ?_
  rintro ⟨c1, _⟩ hpunish
  refine .bind add_spec fun burned _ => ?_
  refine .bind add_rewards_spec ?_
  rintro _ ⟨_, _, rfl⟩
  refine meets_ok ⟨(Relation.ReflTransGen.single (.punish _ _ _ hpunish)).tail (.same ?_),
    (punish_refrozen hpunish).elsewhere⟩
  exact ⟨rfl, rfl, rfl, rfl, rfl, rfl, rfl⟩

/-- An evidence punishes and rewards; finding the culprit draws rolls. -/
theorem apply_double_endorsement_evidence_spec {op1 op2 : Endorsement_operation} :
    (apply_double_endorsement_evidence c chain_id baker op1 op2).Ends Draw_raised fun r =>
      Block_run c r.1 ∧ Operation_step c r.1 (.Double_endorsement_evidence op1 op2) r.2 := by
  unfold apply_double_endorsement_evidence
  split
  · refine .bind (level_storage.last_allowed_fork_level_raises c).ends fun _ _ => ?_
    refine .bind fail_unless_spec.ends fun _ _ => ?_
    refine .bind fail_unless_spec.ends fun _ _ => ?_
    refine .bind (baking.check_endorsement_rights_raises c _ _).ends fun _ _ => ?_
    refine .bind (baking.check_endorsement_rights_raises c _ _).ends fun _ _ => ?_
    refine .bind fail_unless_spec.ends fun _ _ => ?_
    refine .bind fail_unless_spec.ends fun _ _ => ?_
    refine .bind punish_and_reward_spec.ends ?_
    rintro ⟨c1, _⟩ ⟨hrun, helsewhere⟩
    exact ends_ok ⟨hrun, .other (by simp) helsewhere⟩
  · exact meets_fail.ends

/-- The same for two blocks of one baker. -/
theorem apply_double_baking_evidence_spec {bh1 bh2 : Block_header} :
    (apply_double_baking_evidence c chain_id baker bh1 bh2).Ends Draw_raised fun r =>
      Block_run c r.1 ∧ Operation_step c r.1 (.Double_baking_evidence bh1 bh2) r.2 := by
  refine .bind fail_unless_spec.ends fun _ _ => ?_
  refine .bind raw_level_repr.of_int32_spec.ends fun _ _ => ?_
  refine .bind (level_storage.last_allowed_fork_level_raises c).ends fun _ _ => ?_
  refine .bind fail_unless_spec.ends fun _ _ => ?_
  refine .bind fail_unless_spec.ends fun _ _ => ?_
  refine .bind (roll_storage.Random.owner_raises c _ _ _).ends fun _ _ => ?_
  refine .bind (baking.total_check_signature _ _ _).raises.ends fun _ _ => ?_
  refine .bind (roll_storage.Random.owner_raises c _ _ _).ends fun _ _ => ?_
  refine .bind (baking.total_check_signature _ _ _).raises.ends fun _ _ => ?_
  refine .bind fail_unless_spec.ends fun _ _ => ?_
  refine .bind fail_unless_spec.ends fun _ _ => ?_
  refine .bind punish_and_reward_spec.ends ?_
  rintro ⟨c1, _⟩ ⟨hrun, helsewhere⟩
  exact ends_ok ⟨hrun, .other (by simp) helsewhere⟩

/-- An activation credits a committed account. -/
theorem apply_activate_account_spec {R : Exn → Prop} {pkh activation_code : Nat} :
    (apply_activate_account c pkh activation_code).outcome.Ends R fun r =>
      Block_run c r.1 ∧ Operation_step c r.1 (.Activate_account pkh activation_code) r.2 := by
  unfold apply_activate_account
  dsimp only
  split
  · exact meets_fail.ends
  · rw [outcome_bind]
    refine .bind delete_spec.total.raises.ends fun c1 hdelete => ?_
    rw [outcome_bind]
    refine .bind (Result.Raises.ends credit_spec.weaken.within.raised)
      fun c2 hcredit => ?_
    have honly := Storage.Commitments_in.delete hdelete
    refine ends_ok ⟨.head (.same (.of_commitments_only honly)) (.single (.credit _ _ _ hcredit)),
      .other (by simp) ?_⟩
    rw [credit_elsewhere hcredit, honly]
    rfl

/-- Checking a voter raises nothing. -/
theorem check_voter_raises {R : Exn → Prop} (operation : Operation) (source : Public_key_hash)
    (period : Voting_period) : (check_voter c operation source period).Raises R := by
  refine raises_bind (roll_storage.Delegate.total_delegate_pubkey c source).raises fun _ _ => ?_
  refine raises_bind (total_check_signature _ _).raises fun _ _ => ?_
  exact fail_unless_spec.total.raises

/-- What a batch can raise. -/
theorem apply_manager_operations_raises (henv : Lawful_environment)
    (hclosed : c.storage_space_to_pay = none) (mode : Unparsing_mode) (operation : Operation)
    (contents_list : List Manager_contents) :
    (apply_manager_operations c chain_id mode baker operation contents_list).outcome.Raises
      (Raised True) := by
  unfold apply_manager_operations
  rw [outcome_bind]
  have hprecheck : Metered .batch (Raised True) c _ some :=
    precheck_manager_contents_list_metered c operation contents_list
  refine raises_bind hprecheck.raised fun c1 h1 => ?_
  have hclosed1 : c1.storage_space_to_pay = none := by
    rw [(precheck_manager_contents_list_effect baker c.level h1).space, hclosed]
  unfold apply_manager_contents_list
  rw [outcome_bind]
  refine raises_bind ?_ fun r _ => ?_
  · intro x hx
    have hraised := (apply_manager_contents_list_rec_metered henv hclosed1 _).raised x hx
    exact hraised.mono fun _ => trivial
  · obtain ⟨o, _⟩ := r
    cases o <;> exact (total_ok _).raises

variable {mode : Unparsing_mode} {operation : Operation}

/-- An operation that is accepted is a run of calls on accounts, rolls and the
freezer, and does one thing besides. -/
theorem apply_contents_list_spec (henv : Lawful_environment)
    (hclosed : c.storage_space_to_pay = none) :
    (apply_contents_list c chain_id mode pred_block baker operation).outcome.Ends
      (Operation_raised c) fun r =>
        Block_run c r.1 ∧ Operation_step c r.1 operation.contents r.2 := by
  unfold apply_contents_list
  cases operation.contents with
  | Endorsement level =>
    exact (@apply_endorsement_spec ⟨operation.branch, level, operation.signature⟩ _ _ _ _).ends
  | Seed_nonce_revelation level nonce => exact apply_seed_nonce_revelation_spec.ends
  | Double_endorsement_evidence op1 op2 =>
    exact apply_double_endorsement_evidence_spec.mono fun _ => .draw
  | Double_baking_evidence bh1 bh2 =>
    exact apply_double_baking_evidence_spec.mono fun _ => .draw
  | Activate_account id activation_code => exact apply_activate_account_spec
  | Proposals source period proposals =>
    rw [outcome_bind]
    refine .bind (check_voter_raises _ _ _).ends fun _ _ => ?_
    rw [outcome_bind]
    refine .bind (record_proposals_spec .longer_than).raises.ends fun c1 hrecord => ?_
    exact ends_ok ⟨.single (.same (.of_votes_only (record_proposals_only hrecord))),
      .proposals rfl hrecord rfl⟩
  | Ballot source period proposal ballot =>
    rw [outcome_bind]
    refine .bind (check_voter_raises _ _ _).ends fun _ _ => ?_
    rw [outcome_bind]
    refine .bind record_ballot_spec.total.raises.ends fun c1 hrecord => ?_
    exact ends_ok ⟨.single (.same (.of_votes_only (record_ballot_only hrecord))),
      .ballot rfl hrecord rfl⟩
  | Manager_operations op rest =>
    rw [outcome_bind]
    refine .bind ((apply_manager_operations_raises henv hclosed mode operation _).ends.mono
      fun _ => .manager) ?_
    rintro ⟨c1, _⟩ hmanager
    obtain ⟨hrun, hsurroundings, hclosed'⟩ := apply_manager_operations_run henv hclosed hmanager
    exact ends_ok ⟨hrun, .other (by simp)
      (Context.elsewhere_of_surroundings_eq hsurroundings (hclosed'.trans hclosed.symm))⟩

/-- The nonce of an operation is set up before it and removed after it. -/
theorem apply_operation_spec (henv : Lawful_environment) (hclosed : c.storage_space_to_pay = none)
    {hash : Operation_hash} :
    (apply_operation c chain_id mode pred_block baker hash operation).outcome.Ends
      (Operation_raised (init_origination_nonce c hash)) fun r =>
        Block_run c r.1 ∧ Operation_step c r.1 operation.contents r.2 := by
  unfold apply_operation
  rw [outcome_bind]
  have hclosed0 : (init_origination_nonce c hash).storage_space_to_pay = none := hclosed
  refine .bind (apply_contents_list_spec henv hclosed0) ?_
  rintro ⟨c1, _⟩ ⟨hrun, hstep⟩
  refine ends_ok ⟨.head (.same ?_) (hrun.tail (.same ?_)), hstep.congr rfl rfl⟩ <;>
  exact ⟨rfl, rfl, rfl, rfl, rfl, rfl, rfl⟩

end apply

end plexus
