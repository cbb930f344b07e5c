import Plexus.Construction
import Plexus.EndorsementRights
import Plexus.Finalization

/-! Chains of blocks, and the states a block goes through while it is
validated. -/

namespace plexus

open raw_context alpha_context Result

open Traced (outcome_inv)


namespace main

variable [Environment]

/-- A state reached on the way through a block on top of `c`, in any mode, with
the receipts of the operations so far. -/
inductive Validating (c : Context) :
    Validation_state → List (Option Contents_result_list) → Prop where
  | begin_application {chain_id : Chain_id} {predecessor_timestamp : Int64}
      {predecessor_fitness : List MBytes} {block_header : Block_header} {data : Validation_state}
      (h : begin_application chain_id c predecessor_timestamp predecessor_fitness block_header =
        .ok data) : Validating c data []
  | begin_partial_application {chain_id : Chain_id} {predecessor_timestamp : Int64}
      {predecessor_fitness : List MBytes} {block_header : Block_header} {data : Validation_state}
      (h : begin_partial_application chain_id c predecessor_timestamp predecessor_fitness
        block_header = .ok data) : Validating c data []
  | begin_construction {chain_id : Chain_id} {predecessor_timestamp : Int64} {pred_level : Int32}
      {pred_fitness : List MBytes} {predecessor : Block_hash} {timestamp : Int64}
      {protocol_data : Option Block_header_contents} {data : Validation_state}
      (h : begin_construction chain_id c predecessor_timestamp pred_level pred_fitness predecessor
        timestamp protocol_data = .ok data) : Validating c data []
  | apply_operation {data data' : Validation_state} {operation : Operation}
      {receipts : List (Option Contents_result_list)} {receipt : Option Contents_result_list}
      (hdata : Validating c data receipts)
      (h : (apply_operation data operation).outcome = .ok (data', receipt)) :
      Validating c data' (receipt :: receipts)

variable {data : Validation_state} {data' : Validation_state}

/-- An operation that is looked at takes one step; one that is not changes
nothing. -/
theorem apply_operation_cases {operation : Operation} {receipt : Option Contents_result_list}
    (h : (apply_operation data operation).outcome = .ok (data', receipt)) :
    receipt = none ∧ data'.ctxt = data.ctxt ∨
      ∃ result, receipt = some result ∧
        (apply.apply_operation data.ctxt data.chain_id .Optimized data.mode.block.1
          data.mode.block.2 (Environment.hash_operation operation) operation).outcome =
          .ok (data'.ctxt, result) := by
  unfold apply_operation at h
  split at h
  · cases h
    exact .inl ⟨rfl, rfl⟩
  · obtain ⟨⟨ctxt, result⟩, hoperation, h⟩ := outcome_inv h
    cases h
    exact .inr ⟨result, rfl, hoperation⟩

/-- What an operation of a block can raise. -/
theorem apply_operation_raises (henv : Lawful_environment)
    (hclosed : data.ctxt.storage_space_to_pay = none) (operation : Operation) :
    (apply_operation data operation).outcome.Raises (Operation_raised
      (init_origination_nonce data.ctxt (Environment.hash_operation operation))) := by
  unfold apply_operation
  split
  · exact (total_ok _).raises
  · rw [Traced.outcome_bind]
    refine raises_bind (apply.apply_operation_spec henv hclosed).raises fun _ _ => ?_
    exact (total_ok _).raises

/-! The beginning of a block. -/

omit [Environment] in
/-- The context of a block before its endorsers are known. -/
def opening (c : Context) (level : Raw_level) (timestamp fitness : Int64)
    (block_priority : Option Nat) : Context :=
  { raw_context.prepare c level timestamp fitness with fitness := 1 + fitness, block_priority }

/-- How a block at a level is begun on top of `c`, in every mode. -/
inductive Begun (c : Context) (level : Raw_level) : Context → Prop where
  | intro (timestamp fitness : Int64) (block_priority : Option Nat) {pred_level : Level}
      {rights : baking.Endorsement_rights}
      (hpred : level_storage.pred (opening c level timestamp fitness block_priority)
        (opening c level timestamp fitness block_priority).level = some pred_level)
      (hrights : baking.endorsement_rights (opening c level timestamp fitness block_priority)
        pred_level = .ok rights) :
      Begun c level { opening c level timestamp fitness block_priority with
        allowed_endorsements := rights }

variable {c c' : Context} {timestamp : Int64}

omit [Environment] in
/-- Preparing a block for its level fails or sets its level, time and fitness.
-/
theorem prepare_spec {level : Int32} {fitness : List MBytes} :
    (prepare c level timestamp fitness).Meets fun c' =>
      ∃ fitness, c' = prepare c level.toInt.toNat timestamp fitness := by
  refine .seq raw_level_repr.of_int32_spec ?_
  refine .bind (fitness_repr.total_to_int64 fitness).meets fun fitness' _ => ?_
  exact meets_ok ⟨fitness', rfl⟩

variable {level : Raw_level} {fitness pred_timestamp block_delay : Int64}
  {block_priority : Option Nat} {chain_id : Chain_id} {block_header : Block_header}

/-- The endorsers are drawn, and they have all the slots. -/
theorem begin_endorsements_spec :
    (apply.begin_endorsements
      { prepare c level timestamp fitness with block_priority }).Ends
      (Begin_raised c.constants.endorsers_per_block) (Begun c level) := by
  unfold apply.begin_endorsements
  dsimp only
  split
  · exact ends_raise .Assert_genesis
  · next pred_level hpred =>
    refine .bind (Draw_raised.begin (baking.endorsement_rights_raises _ _)).ends
      fun rights hrights => ?_
    unfold init_endorsements
    split
    · next hkeys =>
      refine ends_raise (.init_endorsements ?_)
      have hall := (baking.endorsement_rights_assigned hrights).all
      rw [baking.all_slots, Store.sum, hkeys, Finset.sum_empty] at hall
      exact hall.symm
    · exact ends_ok (.intro timestamp fitness block_priority hpred hrights)

/-- How a block that is being baked begins. -/
theorem begin_full_construction_spec {contents : Block_header_contents} :
    (apply.begin_full_construction (prepare c level timestamp fitness) pred_timestamp
      contents).Ends (Begin_raised c.constants.endorsers_per_block) fun r => Begun c level r.1 := by
  refine .bind Single_data_storage.set_spec.ends ?_
  rintro _ rfl
  refine .bind (Draw_raised.begin (baking.check_baking_rights_raises _ _ _)).ends fun _ _ => ?_
  exact .bind begin_endorsements_spec fun _ hbegun => ends_ok hbegun

/-- How a block that is applied begins. -/
theorem apply_begin_application_spec :
    (apply.begin_application (prepare c level timestamp fitness) chain_id block_header
      pred_timestamp).Ends (Begin_raised c.constants.endorsers_per_block)
        fun r => Begun c level r.1 := by
  refine .bind Single_data_storage.set_spec.ends ?_
  rintro _ rfl
  refine .bind (baking.total_check_proof_of_work_stamp _ _).raises.ends fun _ _ => ?_
  refine .bind (baking.total_check_fitness_gap _ _).raises.ends fun _ _ => ?_
  refine .bind (Draw_raised.begin (baking.check_baking_rights_raises _ _ _)).ends fun _ _ => ?_
  refine .bind (baking.total_check_signature _ _ _).raises.ends fun _ _ => ?_
  refine .bind fail_unless_spec.ends fun _ _ => ?_
  exact .bind begin_endorsements_spec fun _ hbegun => ends_ok hbegun

omit [Environment] in
/-- What every mode does before it looks at the header. -/
theorem prepare_bind_ends {level : Int32} {fitness : List MBytes}
    {f : Context → Tzresult Validation_state} {R : Exn → Prop} {Q : Validation_state → Prop}
    (hf : ∀ fitness, (f (prepare c level.toInt.toNat timestamp fitness)).Ends R Q) :
    (prepare c level timestamp fitness >>= f).Ends R Q := by
  refine .bind prepare_spec.ends ?_
  rintro _ ⟨fitness', rfl⟩
  exact hf fitness'

variable {predecessor_timestamp : Int64} {predecessor_fitness : List MBytes}

/-- The same as the shell calls it. -/
theorem begin_application_spec :
    (begin_application chain_id c predecessor_timestamp predecessor_fitness block_header).Ends
      (Begin_raised c.constants.endorsers_per_block) fun data =>
        Begun c block_header.level.toInt.toNat data.ctxt :=
  prepare_bind_ends fun _ => .bind apply_begin_application_spec fun _ hbegun => ends_ok hbegun

/-- The same for a block whose operations are checked only. -/
theorem begin_partial_application_spec :
    (begin_partial_application chain_id c predecessor_timestamp predecessor_fitness
      block_header).Ends (Begin_raised c.constants.endorsers_per_block) fun data =>
        Begun c block_header.level.toInt.toNat data.ctxt :=
  prepare_bind_ends fun _ => .bind apply_begin_application_spec fun _ hbegun => ends_ok hbegun

/-- The same for a mempool and for a block that is being baked. -/
theorem begin_construction_spec {pred_level : Int32} {predecessor : Block_hash}
    {protocol_data : Option Block_header_contents} :
    (begin_construction chain_id c predecessor_timestamp pred_level predecessor_fitness predecessor
      timestamp protocol_data).Ends (Begin_raised c.constants.endorsers_per_block) fun data =>
        ∃ level, Begun c level data.ctxt := by
  refine prepare_bind_ends fun fitness => ?_
  cases protocol_data with
  | none =>
    exact .bind begin_endorsements_spec fun _ hbegun => ends_ok ⟨_, hbegun⟩
  | some contents =>
    exact .bind begin_full_construction_spec fun _ hbegun => ends_ok ⟨_, hbegun⟩

/-- At the beginning of a block nothing is being paid for. -/
theorem Begun.closed (h : Begun c level c') : c'.storage_space_to_pay = none := by
  obtain ⟨_, _, _, _, _⟩ := h
  rfl

/-- The level of a block is computed from its raw level. -/
theorem Begun.level_eq (h : Begun c level c') :
    c'.level = level_repr.from_raw c.first_level c.constants.blocks_per_cycle
      c.constants.blocks_per_voting_period c.constants.blocks_per_commitment level := by
  obtain ⟨_, _, _, _, _⟩ := h
  rfl

theorem Begun.first_level (h : Begun c level c') : c'.first_level = c.first_level := by
  obtain ⟨_, _, _, _, _⟩ := h
  rfl

/-- Beginning a block leaves seeds and snapshots alone. -/
theorem Begun.cycles (h : Begun c level c') : c'.cycles = c.cycles := by
  obtain ⟨_, _, _, _, _⟩ := h
  rfl

variable {receipts : List (Option Contents_result_list)}

/-- What holds when a block is begun and is kept by every operation holds while
the block is validated. -/
theorem Validating.induction (henv : Lawful_environment)
    {P : Context → List (Option Contents_result_list) → Prop}
    (begun : ∀ level c1, Begun c level c1 → P c1 [])
    (ignored : ∀ c1 receipts, P c1 receipts → P c1 (none :: receipts))
    (applied : ∀ c1 c2 contents result receipts, Block_run c1 c2 →
      apply.Operation_step c1 c2 contents result → P c1 receipts →
      P c2 (some result :: receipts)) (h : Validating c data receipts) :
    data.ctxt.storage_space_to_pay = none ∧ P data.ctxt receipts := by
  have hbegun : ∀ {level c1}, Begun c level c1 → c1.storage_space_to_pay = none ∧ P c1 [] :=
    fun {level c1} h => ⟨h.closed, begun level c1 h⟩
  induction h with
  | begin_application h => exact hbegun (begin_application_spec.of_ok h)
  | begin_partial_application h => exact hbegun (begin_partial_application_spec.of_ok h)
  | begin_construction h =>
    obtain ⟨_, h⟩ := begin_construction_spec.of_ok h
    exact hbegun h
  | @apply_operation data data' operation receipts receipt hdata h ih =>
    obtain ⟨hclosed, hP⟩ := ih
    rcases apply_operation_cases h with ⟨rfl, heq⟩ | ⟨result, rfl, hoperation⟩
    · rw [heq]
      exact ⟨hclosed, ignored _ _ hP⟩
    · obtain ⟨hrun, hstep⟩ := (apply.apply_operation_spec henv hclosed).of_ok hoperation
      refine ⟨?_, applied _ _ _ _ _ hrun hstep hP⟩
      exact (congrArg (·.storage_space_to_pay) hstep.background_eq).trans hclosed

/-! Whole chains. -/

/-- The contexts of the chains that start with a genesis block for `param`. -/
inductive Chain (param : Parameters) : Context → Prop where
  | genesis {c : Context} {level : Raw_level} {timestamp fitness : Int64}
      (h : (init_storage.prepare_first_block param level timestamp fitness).outcome = .ok c) :
      Chain param c
  | block {c : Context} {chain_id : Chain_id} {predecessor_timestamp : Int64}
      {predecessor_fitness : List MBytes} {block_header : Block_header}
      {operations : List Operation} {result : alpha_context.Validation_result}
      {receipts : List (Option Contents_result_list)} {metadata : Block_metadata}
      (hc : Chain param c) (hlevel : block_header.level.toInt = c.level.level + 1)
      (h : (validate_block chain_id c predecessor_timestamp predecessor_fitness block_header
        operations).outcome = .ok (result, receipts, metadata)) : Chain param result.context

/-- The states of a chain between two blocks, and between two operations of a
block on top of it. -/
inductive Reached (param : Parameters) : Context → Prop where
  | chain {c : Context} (h : Chain param c) : Reached param c
  | validating {c : Context} {data : Validation_state}
      {receipts : List (Option Contents_result_list)} (hc : Chain param c)
      (hdata : Validating c data receipts) (hlevel : data.ctxt.level.level = c.level.level + 1) :
      Reached param data.ctxt

/-- The states of a chain inside a block: the genesis block, and a block on top
of the chain after any of its operations. -/
inductive In_block (param : Parameters) : Context → Prop where
  | genesis {c : Context} {level : Raw_level} {timestamp fitness : Int64}
      (h : (init_storage.prepare_first_block param level timestamp fitness).outcome = .ok c) :
      In_block param c
  | validating {c : Context} {data : Validation_state}
      {receipts : List (Option Contents_result_list)} (hc : Chain param c)
      (hdata : Validating c data receipts) (hlevel : data.ctxt.level.level = c.level.level + 1) :
      In_block param data.ctxt

/-- How a block that is applied ends. -/
structure Finalized (c c' : Context) : Prop where
  preserved : 0 < c'.constants.preserved_cycles
  finalize : ∃ protocol_data delegate block_delay metadata,
    protocol_data.seed_nonce_hash.isSome = c.level.expected_commitment ∧
    apply.finalize_application c protocol_data delegate block_delay = .ok (c', metadata)

/-- A block is finalised only if cycles are preserved. -/
theorem finalize_full_success {op_count : Nat} {protocol_data : Block_header_contents}
    {baker : Public_key_hash} {result : Validation_result} {metadata : Block_metadata}
    (h : finalize_full c op_count protocol_data baker block_delay = .ok (result, metadata)) :
    0 < result.context.constants.preserved_cycles ∧
      apply.finalize_application c protocol_data baker block_delay =
        .ok (result.context, metadata) := by
  obtain ⟨⟨c1, _⟩, hfinalize, h⟩ := bind_inv h
  obtain ⟨_, hresult, h⟩ := bind_inv h
  cases h
  obtain ⟨_, hfork, hresult⟩ := bind_inv hresult
  obtain ⟨_, hsub, _⟩ := bind_inv hfork
  cases hresult
  exact ⟨(cycle_repr.sub_eq_ok_iff.mp hsub).1, hfinalize⟩

/-- Between two operations nothing is being paid for. -/
theorem Validating.closed (henv : Lawful_environment) (h : Validating c data receipts) :
    data.ctxt.storage_space_to_pay = none :=
  (h.induction henv (P := fun _ _ => True) (fun _ _ _ => trivial) (fun _ _ _ => trivial)
    fun _ _ _ _ _ _ _ _ => trivial).1

/-- The operations of a block are applied one after the other. -/
theorem Validating.apply_operations (henv : Lawful_environment) {operations : List Operation}
    {earlier : List (Option Contents_result_list)} (hdata : Validating c data earlier)
    (h : (apply_operations data operations).outcome = .ok (data', receipts)) :
    Validating c data' (receipts.reverse ++ earlier) ∧ data'.ctxt.level = data.ctxt.level := by
  induction operations generalizing data earlier receipts with
  | nil =>
    cases h
    exact ⟨hdata, rfl⟩
  | cons operation operations ih =>
    rw [main.apply_operations] at h
    obtain ⟨⟨_, _⟩, hoperation, h⟩ := outcome_inv h
    obtain ⟨⟨_, _⟩, hoperations, h⟩ := outcome_inv h
    cases h
    obtain ⟨hdata', hlevel⟩ := ih (.apply_operation hdata hoperation) hoperations
    refine ⟨?_, hlevel.trans ?_⟩
    · rw [List.reverse_cons, List.append_assoc]
      exact hdata'
    · rcases apply_operation_cases hoperation with ⟨_, heq⟩ | ⟨result, _, hresult⟩
      · rw [heq]
      · exact ((apply.apply_operation_spec henv (hdata.closed henv)).of_ok hresult).2.level

/-- A block that is applied is begun, goes through its operations and ends. -/
theorem validate_block_success (henv : Lawful_environment) {chain_id : Chain_id}
    {predecessor_timestamp : Int64} {predecessor_fitness : List MBytes}
    {block_header : Block_header} {operations : List Operation}
    {result : Validation_result} {metadata : Block_metadata}
    (h : (validate_block chain_id c predecessor_timestamp predecessor_fitness block_header
      operations).outcome = .ok (result, receipts, metadata)) :
    ∃ data, Validating c data receipts.reverse ∧
      data.ctxt.level.level = block_header.level.toInt.toNat ∧
      Finalized data.ctxt result.context := by
  obtain ⟨data, hbegin, h⟩ := outcome_inv h
  rw [Traced.outcome_monadLift] at hbegin
  obtain ⟨⟨data1, _⟩, hoperations, h⟩ := outcome_inv h
  obtain ⟨⟨_, _⟩, hfinalize, h⟩ := outcome_inv h
  cases h
  rw [Traced.outcome_monadLift] at hfinalize
  obtain ⟨hmode, _⟩ := apply_operations_mode ⟨rfl, fun _ => rfl⟩ hoperations
  obtain ⟨hdata, hlevel⟩ := (Validating.begin_application hbegin).apply_operations henv hoperations
  rw [List.append_nil] at hdata
  have hbegun := begin_application_spec.of_ok hbegin
  obtain ⟨c0, hprepare, hbegin⟩ := bind_inv hbegin
  obtain ⟨⟨c1, pk, _⟩, happlication, hbegin⟩ := bind_inv hbegin
  cases hbegin
  obtain ⟨c2, hpriority, _, _, haccepted⟩ := begin_application_eq_ok_iff.mp happlication
  have hlevel2 : c2.level = c1.level := by
    rw [Single_data_storage.set_eq_ok_iff] at hpriority
    obtain ⟨_, rfl⟩ := hpriority
    obtain ⟨_, rfl⟩ := prepare_spec.of_ok hprepare
    exact hbegun.level_eq.symm
  refine ⟨data1, hdata, ?_, ?_⟩
  · rw [hlevel, hbegun.level_eq]
    rfl
  · unfold finalize_block at hfinalize
    rw [hmode] at hfinalize
    obtain ⟨hpreserved, hfinalize⟩ := finalize_full_success hfinalize
    refine ⟨hpreserved, _, _, _, _, ?_, hfinalize⟩
    rw [haccepted.commitment, hlevel]
    exact congrArg (·.expected_commitment) hlevel2

/-! Chains all of whose blocks meet a condition. -/

inductive Chain_where (S : Context → Prop) (param : Parameters) : Context → Prop where
  | genesis {c : Context} {level : Raw_level} {timestamp fitness : Int64}
      (h : (init_storage.prepare_first_block param level timestamp fitness).outcome = .ok c)
      (hS : S c) : Chain_where S param c
  | block {c : Context} {chain_id : Chain_id} {predecessor_timestamp : Int64}
      {predecessor_fitness : List MBytes} {block_header : Block_header}
      {operations : List Operation} {result : alpha_context.Validation_result}
      {receipts : List (Option Contents_result_list)} {metadata : Block_metadata}
      (hc : Chain_where S param c) (hlevel : block_header.level.toInt = c.level.level + 1)
      (h : (validate_block chain_id c predecessor_timestamp predecessor_fitness block_header
        operations).outcome = .ok (result, receipts, metadata)) (hS : S result.context) :
      Chain_where S param result.context

/-- The states of such a chain between two blocks, and between two operations of
a block on top of it. -/
inductive Reached_where (S : Context → Prop) (param : Parameters) : Context → Prop where
  | chain {c : Context} (h : Chain_where S param c) : Reached_where S param c
  | validating {c : Context} {data : Validation_state}
      {receipts : List (Option Contents_result_list)} (hc : Chain_where S param c)
      (hdata : Validating c data receipts) (hlevel : data.ctxt.level.level = c.level.level + 1) :
      Reached_where S param data.ctxt

/-- The states of such a chain inside a block. -/
inductive In_block_where (S : Context → Prop) (param : Parameters) : Context → Prop where
  | genesis {c : Context} {level : Raw_level} {timestamp fitness : Int64}
      (h : (init_storage.prepare_first_block param level timestamp fitness).outcome = .ok c) :
      In_block_where S param c
  | validating {c : Context} {data : Validation_state}
      {receipts : List (Option Contents_result_list)} (hc : Chain_where S param c)
      (hdata : Validating c data receipts) (hlevel : data.ctxt.level.level = c.level.level + 1) :
      In_block_where S param data.ctxt

section

variable {S : Context → Prop} {param : Parameters} {c : Context}

/-- The condition holds at the head of the chain. -/
theorem Chain_where.condition (h : Chain_where S param c) : S c := by
  cases h with
  | genesis _ hS => exact hS
  | block _ _ _ hS => exact hS

/-- A chain with a condition is a chain. -/
theorem Chain_where.chain (h : Chain_where S param c) : Chain param c := by
  induction h with
  | genesis h _ => exact .genesis h
  | block _ hlevel h _ ih => exact .block ih hlevel h

/-- A state in a block without its condition. -/
theorem In_block_where.in_block (h : In_block_where S param c) : In_block param c := by
  cases h with
  | genesis h => exact .genesis h
  | validating hc hdata hlevel => exact .validating hc.chain hdata hlevel

/-- A chain is one with no condition. -/
theorem Chain.always (h : Chain param c) : Chain_where (fun _ => True) param c := by
  induction h with
  | genesis h => exact .genesis h trivial
  | block _ hlevel h ih => exact .block ih hlevel h trivial

theorem In_block.always (h : In_block param c) : In_block_where (fun _ => True) param c := by
  cases h with
  | genesis h => exact .genesis h
  | validating hc hdata hlevel => exact .validating hc.always hdata hlevel

/-- A reached state is one with no condition. -/
theorem Reached.always (h : Reached param c) : Reached_where (fun _ => True) param c := by
  cases h with
  | chain hc => exact .chain hc.always
  | validating hc hdata hlevel => exact .validating hc.always hdata hlevel

end

section Induction

variable (henv : Lawful_environment) {param : Parameters} {S P Q : Context → Prop}
  (genesis : ∀ c level timestamp fitness,
    (init_storage.prepare_first_block param level timestamp fitness).outcome = .ok c → P c)
  (begun : ∀ c c1, S c → Begun c (c.level.level + 1) c1 → P c → Q c1)
  (applied : ∀ c1 c2 contents result, Block_run c1 c2 →
    apply.Operation_step c1 c2 contents result → Q c1 → Q c2)
  (finalized : ∀ c1 c2, S c2 → Finalized c1 c2 → Q c1 → P c2)

include henv begun applied

/-- What the beginning and every operation keep holds while a block is
validated. -/
theorem Validating.next_level (h : Validating c data receipts) (hS : S c) (hc : P c)
    (hlevel : data.ctxt.level.level = c.level.level + 1) : Q data.ctxt := by
  refine (h.induction henv (P := fun c1 _ => c1.level.level = c.level.level + 1 → Q c1) ?_ ?_ ?_).2
    hlevel
  · intro level c1 hbegun hlevel
    rw [hbegun.level_eq] at hlevel
    have heq : level = c.level.level + 1 := hlevel
    rw [heq] at hbegun
    exact begun c c1 hS hbegun hc
  · exact fun _ _ ih => ih
  · intro c1 c2 contents result _ hrun hstep ih hlevel
    rw [hstep.level] at hlevel
    exact applied c1 c2 contents result hrun hstep (ih hlevel)

include genesis finalized

/-- What holds in the genesis block and is kept by every block holds in all of a
chain. `Q` is what holds inside of a block. -/
theorem Chain_where.induction (h : Chain_where S param c) : P c := by
  induction h with
  | genesis h _ => exact genesis _ _ _ _ h
  | @block c chain_id _ _ block_header _ result receipts _ hc hlevel h hS ih =>
    obtain ⟨_, hdata, hlevel', hfinalized⟩ := validate_block_success henv h
    refine finalized _ _ hS hfinalized ?_
    apply Validating.next_level henv begun applied hdata hc.condition ih
    rw [hlevel', hlevel]
    rfl

/-- The induction over all reached states: `P` holds between blocks and `Q`
within them. -/
theorem Reached_where.induction (h : Reached_where S param c) : S c ∧ P c ∨ Q c := by
  cases h with
  | chain hc => exact .inl ⟨hc.condition, hc.induction henv genesis begun applied finalized⟩
  | validating hc hdata hlevel =>
    exact .inr (Validating.next_level henv begun applied hdata hc.condition
      (hc.induction henv genesis begun applied finalized) hlevel)

end Induction

/-! Constants and levels. -/

/-- The constants of the chain, without those that are ramped up, and the levels
counted with them. -/
structure Grounded (param : Parameters) (c : Context) : Prop where
  fixed : c.constants.fixed = param.constants.fixed
  level : c.level = level_storage.from_raw c c.level.level
  first_level : c.first_level ≤ c.level.level

omit [Environment] in
/-- Levels depend on constants that never change. -/
theorem from_raw_of_fixed (hfixed : c'.constants.fixed = c.constants.fixed)
    (hfirst : c'.first_level = c.first_level) (l : Raw_level) :
    level_storage.from_raw c' l = level_storage.from_raw c l := by
  have hcycle : c'.constants.blocks_per_cycle = c.constants.blocks_per_cycle :=
    congrArg (·.blocks_per_cycle) hfixed
  have hperiod : c'.constants.blocks_per_voting_period = c.constants.blocks_per_voting_period :=
    congrArg (·.blocks_per_voting_period) hfixed
  have hcommitment : c'.constants.blocks_per_commitment = c.constants.blocks_per_commitment :=
    congrArg (·.blocks_per_commitment) hfixed
  unfold level_storage.from_raw
  rw [hfirst, hcycle, hperiod, hcommitment]

variable {param : Parameters}

omit [Environment] in
/-- Being grounded is about the level and the fixed constants. -/
theorem Grounded.of_same (h : Grounded param c) (hfixed : c'.constants.fixed = c.constants.fixed)
    (hfirst : c'.first_level = c.first_level) (hlevel : c'.level = c.level) :
    Grounded param c' := by
  refine ⟨hfixed.trans h.fixed, ?_, ?_⟩
  · rw [from_raw_of_fixed hfixed hfirst, hlevel]
    exact h.level
  · rw [hfirst, hlevel]
    exact h.first_level

omit [Environment] in
theorem Grounded.of_same_votes (h : Grounded param c) (hsame : apply.Same_votes c c') :
    Grounded param c' :=
  h.of_same hsame.constants hsame.first_level hsame.level

variable {c1 : Context}

/-- A block begins at a grounded state. -/
theorem Begun.grounded (hbegun : Begun c (c.level.level + 1) c1) (h : Grounded param c) :
    Grounded param c1 := by
  have hfirst_level := h.first_level
  have hfixed := h.fixed
  obtain ⟨_, _, _, _, _⟩ := hbegun
  exact ⟨hfixed, rfl, Nat.le_succ_of_le hfirst_level⟩

/-- Operations change no level. -/
theorem operation_grounded {c2 : Context} {contents : Contents_list} {result : Contents_result_list}
    (hstep : apply.Operation_step c1 c2 contents result) (h : Grounded param c1) :
    Grounded param c2 :=
  h.of_same (congrArg Constants.fixed hstep.constants) (congrArg (·.first_level) hstep.background_eq)
    hstep.level

/-- Nor does the end of a block. -/
theorem Finalized.grounded {c2 : Context} (hfinalized : Finalized c1 c2) (h : Grounded param c1) :
    Grounded param c2 := by
  obtain ⟨_, _, _, _, _, hfinalize⟩ := hfinalized.finalize
  obtain ⟨c3, hsame, hperiod⟩ := apply.finalize_application_votes hfinalize
  have hsame' : apply.Same_votes c3 { c2 with votes := c3.votes } := by
    rw [amendment.may_start_new_voting_period_only hperiod]
    exact ⟨rfl, rfl, rfl, rfl⟩
  exact (h.of_same_votes hsame).of_same hsame'.constants hsame'.first_level hsame'.level

/-- The first block is grounded, at the first level. -/
theorem genesis_grounded (henv : Lawful_environment) {fitness : Int64}
    (h : (init_storage.prepare_first_block param level timestamp fitness).outcome = .ok c) :
    Grounded param c ∧ c.level.level = c.first_level := by
  obtain ⟨c1, c2, c3, c4, c5, ⟨_, _, hconstants, hfirst, hlevel⟩, hseed, _,
    ⟨_, _, hfixed3, hfirst3, hlevel3⟩, hcycles, hinit, hlistings⟩ :=
    init_storage.prepare_first_block_success henv h
  rw [seed_storage.init_only hseed] at hfixed3 hfirst3 hlevel3
  have hlevel_eq : c1.level.level = c1.first_level := by
    rw [hfirst, hlevel]
    rfl
  have h1 : Grounded param c1 := by
    refine ⟨by rw [hconstants], ?_, hlevel_eq.ge⟩
    rw [hlevel_eq, hfirst]
    exact hlevel
  have hc : c.constants.fixed = c3.constants.fixed ∧ c.first_level = c3.first_level ∧
      c.level = c3.level := by
    rw [vote_storage.freeze_listings_only hlistings, vote_storage.init_only hinit,
      roll_storage.init_first_cycles_only hcycles]
    exact ⟨rfl, rfl, rfl⟩
  refine ⟨h1.of_same (hc.1.trans hfixed3) (hc.2.1.trans hfirst3) (hc.2.2.trans hlevel3), ?_⟩
  rw [hc.2.2, hc.2.1, hlevel3, hfirst3]
  exact hlevel_eq

/-- The context after some blocks with their operations. All contexts on the way
pass a test. -/
def baked (param : Parameters) (test : Context → Bool)
    (block : Nat → Block_header × List Operation) : Nat → Carbonated Context
  | 0 => do
    let c ← init_storage.prepare_first_block param 1 0 0
    fail_unless (test c) .Invalid_arg
    pure c
  | number + 1 => do
    let c ← baked param test block number
    let (header, operations) := block (number + 1)
    fail_unless (decide (header.level.toInt = c.level.level + 1)) .Invalid_arg
    let (result, _, _) ← validate_block ⟨0⟩ c (block number).1.timestamp (block number).1.fitness
      header operations
    fail_unless (test result.context) .Invalid_arg
    pure result.context

/-- A run that bakes and tests blocks is a chain with that condition. -/
theorem baked_chain {S : Context → Prop} {test : Context → Bool}
    {block : Nat → Block_header × List Operation} {number : Nat} (hS : ∀ c, test c = true → S c)
    (h : (baked param test block number).outcome = .ok c) : Chain_where S param c := by
  induction number generalizing c with
  | zero =>
    unfold baked at h
    simp only [Traced.outcome_bind_eq_ok_iff, Traced.outcome_monadLift, fail_unless_eq_ok_iff] at h
    obtain ⟨_, hgenesis, _, htest, h⟩ := h
    cases h
    exact .genesis hgenesis (hS _ htest)
  | succ number ih =>
    unfold baked at h
    simp only [Traced.outcome_bind_eq_ok_iff, Traced.outcome_monadLift, fail_unless_eq_ok_iff,
      decide_eq_true_eq] at h
    obtain ⟨c0, hbaked, _, hlevel, ⟨_, _, _⟩, hblock, _, htest, h⟩ := h
    cases h
    exact .block (ih hbaked) hlevel hblock (hS _ htest)

end main

end plexus
