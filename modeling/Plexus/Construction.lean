import Plexus.Genesis
import Plexus.Main

/-! A block is built exactly as it is applied, up to the checks of its header. -/

namespace plexus

open Traced

open Result (bind_ok bind_inv)

namespace main

open alpha_context (Validation_result)

variable [Environment]

/-- Two modes in which operations are applied in the same way. -/
structure Same_block (mode mode' : Validation_mode) : Prop where
  block : mode'.block = mode.block
  ignores : ∀ operation, mode'.ignores operation = mode.ignores operation

variable {mode : Validation_mode}

omit [Environment] in
theorem Same_block.symm {mode' : Validation_mode} (h : Same_block mode mode') :
    Same_block mode' mode where
  block := h.block.symm
  ignores operation := (h.ignores operation).symm

variable {data : Validation_state}

/-- Operations are applied in the same way in both modes. -/
theorem apply_operation_mode {data1 : Validation_state} {operation : Operation}
    {receipt : Option Contents_result_list} (hsame : Same_block data.mode mode)
    (h : (apply_operation data operation).outcome = .ok (data1, receipt)) :
    data1.mode = data.mode ∧
      (apply_operation { data with mode } operation).outcome = .ok ({ data1 with mode }, receipt) := by
  unfold apply_operation at h ⊢
  rw [hsame.ignores]
  split at h
  · next hignores =>
    cases h
    rw [if_pos hignores]
    exact ⟨rfl, rfl⟩
  · next hignores =>
    rw [if_neg hignores, hsame.block]
    obtain ⟨⟨ctxt, result⟩, hresult, h⟩ := outcome_inv h
    cases h
    refine ⟨rfl, ?_⟩
    rw [outcome_bind_eq_ok_iff]
    exact ⟨(ctxt, result), hresult, rfl⟩

/-- So are lists of them. -/
theorem apply_operations_mode {data1 : Validation_state} {operations : List Operation}
    {receipts : List (Option Contents_result_list)} (hsame : Same_block data.mode mode)
    (h : (apply_operations data operations).outcome = .ok (data1, receipts)) :
    data1.mode = data.mode ∧
      (apply_operations { data with mode } operations).outcome =
        .ok ({ data1 with mode }, receipts) := by
  induction operations generalizing data receipts with
  | nil =>
    cases h
    exact ⟨rfl, rfl⟩
  | cons operation rest ih =>
    unfold apply_operations at h ⊢
    obtain ⟨⟨_, _⟩, hoperation, h⟩ := outcome_inv h
    obtain ⟨⟨_, _⟩, hrest, h⟩ := outcome_inv h
    cases h
    obtain ⟨hmode2, hoperation'⟩ := apply_operation_mode hsame hoperation
    rw [← hmode2] at hsame
    obtain ⟨hmode3, hrest'⟩ := ih hsame hrest
    refine ⟨hmode3.trans hmode2, ?_⟩
    rw [outcome_bind_eq_ok_iff]
    refine ⟨_, hoperation', ?_⟩
    rw [outcome_bind_eq_ok_iff]
    exact ⟨_, hrest', rfl⟩

/-- Operations and the end of a block do not depend on who goes through them. -/
theorem complete_mode {operations : List Operation}
    {r : Validation_result × List (Option Contents_result_list) × Block_metadata}
    (hsame : Same_block data.mode mode)
    (hfinalize : ∀ data1 : Validation_state, data1.mode = data.mode →
      finalize_block { data1 with mode } = finalize_block data1)
    (h : (complete data operations).outcome = .ok r) :
    (complete { data with mode } operations).outcome = .ok r := by
  unfold complete at h ⊢
  rw [outcome_bind_eq_ok_iff] at h ⊢
  obtain ⟨⟨data1, _⟩, hoperations, h⟩ := h
  obtain ⟨hmode, hoperations'⟩ := apply_operations_mode hsame hoperations
  refine ⟨_, hoperations', ?_⟩
  dsimp only at h ⊢
  rw [hfinalize data1 hmode]
  exact h

/-! The beginning of a block. -/

/-- The checks of a header that the baker of a block does not make. -/
structure Accepted (ctxt : Context) (chain_id : Chain_id) (block_header : Block_header)
    (delegate_pk : Public_key) : Prop where
  proof_of_work : baking.check_proof_of_work_stamp ctxt block_header = .ok ()
  fitness_gap : baking.check_fitness_gap ctxt block_header = .ok ()
  signature : baking.check_signature block_header chain_id delegate_pk = .ok ()
  commitment : block_header.contents.seed_nonce_hash.isSome =
    (level_storage.current ctxt).expected_commitment

/-- The header of a block on top of `predecessor_context` passes these checks
for the delegate that has the right to bake. -/
def Header_accepted (chain_id : Chain_id) (predecessor_context : Context)
    (predecessor_timestamp : Int64) (predecessor_fitness : List MBytes)
    (block_header : Block_header) : Prop :=
  ∃ ctxt0 ctxt delegate_pk block_delay,
    alpha_context.prepare predecessor_context block_header.level block_header.timestamp
      predecessor_fitness = .ok ctxt0 ∧
    Storage.Block_priority.set ctxt0 block_header.contents.priority = .ok ctxt ∧
    baking.check_baking_rights ctxt block_header.contents predecessor_timestamp =
      .ok (delegate_pk, block_delay) ∧
    Accepted ctxt chain_id block_header delegate_pk

variable {ctxt ctxt' : Context} {pred_timestamp block_delay : Int64} {delegate_pk : Public_key}

/-- The rights of the baker are checked in both modes. -/
theorem begin_full_construction_eq_ok_iff {contents : Block_header_contents} :
    apply.begin_full_construction ctxt pred_timestamp contents =
        .ok (ctxt', delegate_pk, block_delay) ↔
      ∃ ctxt1, Storage.Block_priority.set ctxt contents.priority = .ok ctxt1 ∧
        baking.check_baking_rights ctxt1 contents pred_timestamp = .ok (delegate_pk, block_delay) ∧
        apply.begin_endorsements ctxt1 = .ok ctxt' := by
  unfold apply.begin_full_construction
  constructor
  · intro h
    obtain ⟨ctxt1, hpriority, h⟩ := bind_inv h
    obtain ⟨⟨pk, _⟩, hrights, h⟩ := bind_inv h
    obtain ⟨_, hendorsements, h⟩ := bind_inv h
    cases h
    exact ⟨ctxt1, hpriority, hrights, hendorsements⟩
  · rintro ⟨ctxt1, hpriority, hrights, hendorsements⟩
    rw [hpriority, bind_ok, hrights, bind_ok]
    dsimp only
    rw [hendorsements, bind_ok]
    rfl

/-- What beginning to apply a block checks. -/
theorem begin_application_eq_ok_iff {chain_id : Chain_id} {block_header : Block_header} :
    apply.begin_application ctxt chain_id block_header pred_timestamp =
        .ok (ctxt', delegate_pk, block_delay) ↔
      ∃ ctxt1, Storage.Block_priority.set ctxt block_header.contents.priority = .ok ctxt1 ∧
        baking.check_baking_rights ctxt1 block_header.contents pred_timestamp =
          .ok (delegate_pk, block_delay) ∧
        apply.begin_endorsements ctxt1 = .ok ctxt' ∧
        Accepted ctxt1 chain_id block_header delegate_pk := by
  unfold apply.begin_application
  constructor
  · intro h
    obtain ⟨ctxt1, hpriority, h⟩ := bind_inv h
    obtain ⟨_, hproof, h⟩ := bind_inv h
    obtain ⟨_, hfitness, h⟩ := bind_inv h
    obtain ⟨⟨pk, _⟩, hrights, h⟩ := bind_inv h
    obtain ⟨_, hsignature, h⟩ := bind_inv h
    obtain ⟨_, hcommitment, h⟩ := bind_inv h
    obtain ⟨_, hendorsements, h⟩ := bind_inv h
    cases h
    rw [fail_unless_eq_ok_iff, decide_eq_true_iff] at hcommitment
    exact ⟨ctxt1, hpriority, hrights, hendorsements, hproof, hfitness, hsignature, hcommitment⟩
  · rintro ⟨ctxt1, hpriority, hrights, hendorsements, haccepted⟩
    rw [hpriority, bind_ok, haccepted.proof_of_work, bind_ok, haccepted.fitness_gap, bind_ok,
      hrights, bind_ok]
    dsimp only
    rw [haccepted.signature, bind_ok, haccepted.commitment, decide_eq_true rfl]
    change (do
      let ctxt ← apply.begin_endorsements ctxt1
      pure (ctxt, delegate_pk, block_delay)) = _
    rw [hendorsements, bind_ok]
    rfl

section Modes

variable {chain_id : Chain_id} {predecessor_context : Context} {predecessor_timestamp : Int64}
  {pred_level : Int32} {pred_fitness : List MBytes} {block_header : Block_header}
  {operations : List Operation}
  {r : Validation_result × List (Option Contents_result_list) × Block_metadata}

omit [Environment] in
/-- The two modes of one block. -/
theorem same_block (block_header : Block_header) (baker : Public_key_hash) (block_delay : Int64) :
    Same_block (.Application block_header baker block_delay)
      (.Full_construction block_header.predecessor block_header.contents baker block_delay) where
  block := rfl
  ignores _ := rfl

/-- A block is valid with a given context, given receipts and given metadata
exactly when its baker can build it with them and its header passes the checks
of proof of work, fitness, signature and commitment. -/
theorem construction_agrees_with_application (hlevel : block_header.level = pred_level + 1) :
    (validate_block chain_id predecessor_context predecessor_timestamp pred_fitness block_header
        operations).outcome = .ok r ↔
      (construct_block chain_id predecessor_context predecessor_timestamp pred_level pred_fitness
        block_header.predecessor block_header.timestamp block_header.contents
        operations).outcome = .ok r ∧
      Header_accepted chain_id predecessor_context predecessor_timestamp pred_fitness
        block_header := by
  unfold validate_block construct_block
  rw [outcome_bind_eq_ok_iff, outcome_bind_eq_ok_iff, outcome_monadLift]
  unfold begin_application begin_construction
  rw [← hlevel]
  constructor
  · rintro ⟨data, hbegin, h⟩
    obtain ⟨ctxt0, hprepare, hbegin⟩ := bind_inv hbegin
    obtain ⟨⟨ctxt, pk, delay⟩, happlication, hbegin⟩ := bind_inv hbegin
    cases hbegin
    obtain ⟨ctxt1, hpriority, hrights, hendorsements, haccepted⟩ :=
      begin_application_eq_ok_iff.mp happlication
    refine ⟨⟨_, ?_, complete_mode (same_block block_header _ delay) ?_ h⟩, ctxt0, ctxt1, pk, delay,
      hprepare, hpriority, hrights, haccepted⟩
    · dsimp only
      rw [hprepare, bind_ok,
        begin_full_construction_eq_ok_iff.mpr ⟨ctxt1, hpriority, hrights, hendorsements⟩]
      rfl
    · rintro ⟨mode, chain_id', ctxt', op_count⟩ rfl
      rfl
  · rintro ⟨⟨data, hconstruction, h⟩, ctxt0, ctxt1, pk, delay, hprepare, hpriority, hrights,
      haccepted⟩
    dsimp only at hconstruction
    rw [hprepare, bind_ok] at hconstruction
    obtain ⟨⟨ctxt, pk', _⟩, hfull, hconstruction⟩ := bind_inv hconstruction
    cases hconstruction
    obtain ⟨_, hpriority', hrights', hendorsements⟩ := begin_full_construction_eq_ok_iff.mp hfull
    rw [hpriority] at hpriority'
    cases hpriority'
    rw [hrights] at hrights'
    cases hrights'
    refine ⟨_, ?_, complete_mode (same_block block_header _ delay).symm ?_ h⟩
    · rw [hprepare, bind_ok, begin_application_eq_ok_iff.mpr
        ⟨ctxt1, hpriority, hrights, hendorsements, haccepted⟩]
      rfl
    · rintro ⟨mode, chain_id', ctxt', op_count⟩ rfl
      rfl

end Modes

/-- The blocks of a chain on top of the first one, five minutes apart. -/
def plain_block (number : Nat) : Block_header where
  level := 1 + Int32.ofNat number
  predecessor := ⟨0⟩
  timestamp := 300 * Int64.ofNat number
  fitness := [[1], [0, 0, 0, 0, 0, 0, 0, UInt8.ofNat number]]
  contents := { priority := 0, seed_nonce_hash := none, proof_of_work_nonce := [] }
  signature := 0

/-- The endorsement of the first block by its only delegate. -/
def first_endorsement : Operation where
  branch := ⟨0⟩
  contents := .Endorsement 1
  signature := some 0

omit [Environment] in
theorem construction_agrees_with_application_second_block :
    let _ := unscripted_environment
    ∃ c0 r, (init_storage.prepare_first_block init_storage.single_delegate 1 0 0).outcome = .ok c0 ∧
      (validate_block ⟨0⟩ c0 0 [] (plain_block 1) [first_endorsement]).outcome = .ok r ∧
      (construct_block ⟨0⟩ c0 0 1 [] (plain_block 1).predecessor (plain_block 1).timestamp
        (plain_block 1).contents [first_endorsement]).outcome = .ok r := by
  intro _
  have hreturns : (do
      let c0 ← init_storage.prepare_first_block init_storage.single_delegate 1 0 0
      let _ ← validate_block ⟨0⟩ c0 0 [] (plain_block 1) [first_endorsement]
      pure true : Carbonated Bool).outcome.returns id = true := by
    decide +kernel
  simp only [returns_bind_iff, returns_pure] at hreturns
  obtain ⟨c0, hgenesis, r, hvalidate, _⟩ := hreturns
  have hlevel : (plain_block 1).level = 1 + 1 := by decide
  obtain ⟨hconstruct, _⟩ := (construction_agrees_with_application hlevel).mp hvalidate
  exact ⟨c0, r, hgenesis, hvalidate, hconstruct⟩

end main

end plexus
