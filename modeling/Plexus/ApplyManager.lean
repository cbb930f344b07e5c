import Plexus.FeesStorage

namespace plexus

/-! Results of manager operations. -/

open delegate_storage (Balance_updates cleanup_balance_updates)

/-- The fields shared by `Transaction_result` and `MineTransaction_result`. -/
structure Transaction_receipt where
  storage : Option Expr
  big_map_diff : Option Big_map_diff
  balance_updates : Balance_updates
  originated_contracts : List Contract
  consumed_gas : ℤ
  storage_size : ℤ
  paid_storage_size_diff : ℤ
  allocated_destination_contract : Bool

structure Origination_receipt where
  big_map_diff : Option Big_map_diff
  balance_updates : Balance_updates
  originated_contracts : List Contract
  consumed_gas : ℤ
  storage_size : ℤ
  paid_storage_size_diff : ℤ

inductive Successful_manager_operation_result where
  | Reveal_result (consumed_gas : ℤ)
  | Transaction_result (receipt : Transaction_receipt)
  | MineTransaction_result (receipt : Transaction_receipt)
  | Origination_result (receipt : Origination_receipt)
  | Delegation_result (consumed_gas : ℤ)

inductive Manager_operation_result where
  | Applied (result : Successful_manager_operation_result)
  | Backtracked (result : Successful_manager_operation_result) (errors : Option Trace)
  | Failed (kind : Manager_kind) (errors : Trace)
  | Skipped (kind : Manager_kind)

structure Internal_operation_result where
  op : Internal_operation
  result : Manager_operation_result

structure Manager_contents_result where
  balance_updates : Balance_updates
  operation_result : Manager_operation_result
  internal_operation_results : List Internal_operation_result

namespace apply

variable [Environment]

/-! Application of one operation. -/

variable (ctxt : Context) (mode : Unparsing_mode)

/-- An implicit destination that does not exist yet will be allocated, which
the payer has to pay for. -/
def allocate_destination (payer destination : Contract) :
    Tzresult (Context × Balance_updates × Bool) :=
  match contract_repr.is_implicit destination with
  | none => pure (ctxt, [], false)
  | some _ =>
    if contract_storage.allocated ctxt destination then pure (ctxt, [], false)
    else do
      let (ctxt, origination_burn) ← fees_storage.origination_burn ctxt
      pure (ctxt, [(.Contract payer, .MineDebited origination_burn)], true)

/-- Whether an expression is `Unit`. -/
def is_unit : Expr → Bool
  | .Prim .D_Unit [] _ => true
  | _ => false

/-- A contract without script is called with `Unit` at its default entry
point only. -/
def call_unscripted (parameters : Lazy_expr) (entrypoint : String)
    (destination : Contract) : Carbonated Context := do
  fail_unless (decide (entrypoint = "default")) (.No_such_entrypoint entrypoint)
  let (arg, ctxt) ← script.force_decode ctxt parameters
  let ctxt ← raw_context.consume_gas ctxt (script_repr.deserialized_cost arg)
  fail_unless (is_unit arg) (.Bad_contract_parameter destination)
  pure ctxt

/-- What the two kinds of transaction do once the amounts have been spent.
`transfer` are the balance updates of the transfer itself. -/
def credit_and_call (before_operation ctxt : Context) (mode : Unparsing_mode)
    (payer source : Contract) (chain_id : Chain_id) (amount : Tez) (mine_amount : Mine)
    (parameters : Lazy_expr) (entrypoint : String) (destination : Contract)
    (transfer : Balance_updates) :
    Carbonated (Context × Transaction_receipt × List Internal_operation) := do
  let (ctxt, maybe_burn_balance_update, allocated_destination_contract) ←
    allocate_destination ctxt payer destination
  let ctxt ← contract_storage.credit ctxt destination amount mine_amount
  let (ctxt, script) ← contract_storage.get_script ctxt destination
  match script with
  | none =>
    let ctxt ← call_unscripted ctxt parameters entrypoint destination
    pure (ctxt,
      { storage := none
        big_map_diff := none
        balance_updates := cleanup_balance_updates (transfer ++ maybe_burn_balance_update)
        originated_contracts := []
        consumed_gas :=
          raw_context.gas_consumed before_operation.operation_gas ctxt.operation_gas
        storage_size := 0
        paid_storage_size_diff := 0
        allocated_destination_contract }, [])
  | some script =>
    let (parameter, ctxt) ← plexus.script.force_decode ctxt parameters
    let ctxt ← raw_context.consume_gas ctxt (script_repr.deserialized_cost parameter)
    let { ctxt, storage, big_map_diff, operations } ← Environment.execute ctxt mode
      { source, payer, self := destination, amount, mine_amount, chain_id } script parameter
      entrypoint
    let ctxt ← contract_storage.update_script_storage ctxt destination storage big_map_diff
    let (ctxt, new_size, paid_storage_size_diff, fees) ←
      fees_storage.record_paid_storage_space ctxt destination
    let originated_contracts ←
      contract_storage.originated_from_current_nonce before_operation ctxt
    pure (ctxt,
      { storage := some storage
        big_map_diff
        balance_updates := cleanup_balance_updates ((.Contract payer, .MineDebited fees) :: transfer)
        originated_contracts
        consumed_gas :=
          raw_context.gas_consumed before_operation.operation_gas ctxt.operation_gas
        storage_size := new_size
        paid_storage_size_diff
        allocated_destination_contract }, operations)

def apply_transaction (before_operation ctxt : Context) (mode : Unparsing_mode)
    (payer source : Contract) (chain_id : Chain_id) (amount : Tez) (parameters : Lazy_expr)
    (entrypoint : String) (destination : Contract) :
    Carbonated (Context × Transaction_receipt × List Internal_operation) := do
  let ctxt ← contract_storage.spend ctxt source amount
  credit_and_call before_operation ctxt mode payer source chain_id amount Qty.zero parameters
    entrypoint destination
    [(.Contract source, .Debited amount), (.Contract destination, .Credited amount)]

def apply_mine_transaction (before_operation ctxt : Context) (mode : Unparsing_mode)
    (payer source : Contract) (chain_id : Chain_id) (amount : Mine) (parameters : Lazy_expr)
    (entrypoint : String) (destination : Contract) :
    Carbonated (Context × Transaction_receipt × List Internal_operation) := do
  let ctxt ← contract_storage.mine_spend ctxt source amount
  credit_and_call before_operation ctxt mode payer source chain_id Qty.zero amount parameters
    entrypoint destination
    [(.Contract source, .MineDebited amount), (.Contract destination, .MineCredited amount)]

/-- Typecheck the script of an origination and give its big maps their final
identifiers. -/
def prepare_script (script : Script) :
    Carbonated (Script × Option Big_map_diff × Context) := do
  let (unparsed_storage, ctxt) ← plexus.script.force_decode ctxt script.storage
  let ctxt ← raw_context.consume_gas ctxt (script_repr.deserialized_cost unparsed_storage)
  let (unparsed_code, ctxt) ← plexus.script.force_decode ctxt script.code
  let ctxt ← raw_context.consume_gas ctxt (script_repr.deserialized_cost unparsed_code)
  let (parsed_script, ctxt) ← Environment.parse_script ctxt script
  let (to_duplicate, ctxt) ← Environment.collect_big_maps ctxt parsed_script
  let (storage, big_map_diff, ctxt) ←
    Environment.extract_big_map_diff ctxt .Optimized parsed_script to_duplicate
  let (storage, ctxt) ← Environment.unparse_data ctxt .Optimized storage
  pure ({ script with storage := script_repr.lazy_expr storage }, big_map_diff, ctxt)

/-- The address of a new contract. One that a script has already handed out
cannot come from outside. -/
def originated_address (internal : Bool) (preorigination : Option Contract) :
    Tzresult (Context × Contract) :=
  match preorigination with
  | some contract => if internal then .ok (ctxt, contract) else .raise .Assert_internal
  | none => contract_storage.fresh_contract_from_current_nonce ctxt

def apply_origination (before_operation ctxt : Context) (payer source : Contract)
    (internal : Bool) (delegate : Option Public_key_hash) (script : Script) (credit : Tez)
    (preorigination : Option Contract) : Carbonated (Context × Origination_receipt) := do
  let (script, big_map_diff, ctxt) ← prepare_script ctxt script
  let ctxt ← contract_storage.spend ctxt source credit
  let (ctxt, contract) ← originated_address ctxt internal preorigination
  let ctxt ← contract_storage.originate ctxt false contract credit (script, big_map_diff) delegate
  let (ctxt, origination_burn) ← fees_storage.origination_burn ctxt
  let (ctxt, size, paid_storage_size_diff, fees) ←
    fees_storage.record_paid_storage_space ctxt contract
  pure (ctxt,
    { big_map_diff
      balance_updates := cleanup_balance_updates
        [(.Contract payer, .MineDebited fees), (.Contract payer, .MineDebited origination_burn),
          (.Contract source, .Debited credit), (.Contract contract, .Credited credit)]
      originated_contracts := [contract]
      consumed_gas := raw_context.gas_consumed before_operation.operation_gas ctxt.operation_gas
      storage_size := size
      paid_storage_size_diff })

def apply_manager_operation_content
    (payer source : Contract) (chain_id : Chain_id) (internal : Bool)
    (operation : Manager_operation) :
    Carbonated (Context × Successful_manager_operation_result × List Internal_operation) := do
  let before_operation := ctxt
  contract_storage.must_exist ctxt source
  let ctxt ← raw_context.consume_gas ctxt gas_limit_repr.manager_operation
  match operation with
  | .Reveal _ =>
    pure (ctxt, .Reveal_result
      (raw_context.gas_consumed before_operation.operation_gas ctxt.operation_gas), [])
  | .Transaction amount parameters entrypoint destination =>
    let (ctxt, receipt, operations) ← apply_transaction before_operation ctxt mode payer source
      chain_id amount parameters entrypoint destination
    pure (ctxt, .Transaction_result receipt, operations)
  | .MineTransaction amount parameters entrypoint destination =>
    let (ctxt, receipt, operations) ← apply_mine_transaction before_operation ctxt mode payer source
      chain_id amount parameters entrypoint destination
    pure (ctxt, .MineTransaction_result receipt, operations)
  | .Origination delegate script credit preorigination =>
    let (ctxt, receipt) ← apply_origination before_operation ctxt payer source internal delegate
      script credit preorigination
    pure (ctxt, .Origination_result receipt, [])
  | .Delegation delegate =>
    let ctxt ← delegate_storage.set ctxt source delegate
    pure (ctxt, .Delegation_result
      (raw_context.gas_consumed before_operation.operation_gas ctxt.operation_gas), [])

/-! Internal operations. -/

/-- One operation of the worklist. A nonce is used only once. -/
def apply_internal_operation (payer : Contract)
    (chain_id : Chain_id) (op : Internal_operation) :
    Carbonated (Context × Successful_manager_operation_result × List Internal_operation) :=
  if raw_context.internal_nonce_already_recorded ctxt op.nonce then
    fail (.Internal_operation_replay op)
  else
    apply_manager_operation_content (raw_context.record_internal_nonce ctxt op.nonce) mode payer
      op.source chain_id true op.operation

/-- The worklist. `none` stands for the failure of an operation, which skips
those that follow it. -/
def apply_internal_loop (mode : Unparsing_mode) (payer : Contract) (chain_id : Chain_id) :
    Nat → Context → List Internal_operation_result → List Internal_operation →
      Carbonated (Option Context × List Internal_operation_result)
  | _, ctxt, applied, [] => pure (some ctxt, applied.reverse)
  | 0, _, _, _ :: _ => (Result.div : Tzresult _)
  | fuel + 1, ctxt, applied, op :: rest => do
    let outcome ← (apply_internal_operation ctxt mode payer chain_id op).attempt
    match outcome with
    | .error errors =>
      let result : Internal_operation_result :=
        ⟨op, .Failed (manager_kind op.operation) errors⟩
      let skipped := (rest.map fun op =>
        (⟨op, .Skipped (manager_kind op.operation)⟩ : Internal_operation_result)).reverse
      pure (none, (skipped ++ result :: applied).reverse)
    | .ok (ctxt, result, emitted) =>
      apply_internal_loop mode payer chain_id fuel ctxt (⟨op, .Applied result⟩ :: applied)
        (rest ++ emitted)

/-- Every operation of the worklist consumes gas, so that there are not more
rounds than gas. The gas of a manager operation is always limited. -/
def worklist_fuel : Gas → Nat
  | .Limited remaining => remaining.toNat
  | .Unaccounted => 0

def apply_internal_manager_operations
    (payer : Contract) (chain_id : Chain_id) (ops : List Internal_operation) :
    Carbonated (Option Context × List Internal_operation_result) :=
  apply_internal_loop mode payer chain_id (worklist_fuel ctxt.operation_gas + 1) ctxt [] ops

/-! Precheck. -/

/-- `Operation.check_signature` of an operation that is not an endorsement -/
def check_signature (key : Public_key) (operation : Operation) : Tzresult Unit :=
  match operation.signature with
  | none => fail .Missing_signature
  | some signature =>
    if Environment.check_operation .Generic_operation key signature operation then pure ()
    else fail .Invalid_signature

/-- The gas for decoding the parameters of a transaction. -/
def precheck_parameters (parameters : Lazy_expr) : Carbonated Context := do
  trace .Gas_quota_exceeded_init_deserialize
    (raw_context.check_enough_gas ctxt (script_repr.minimal_deserialize_cost parameters))
  let (_, ctxt) ← trace_carbonated .Gas_quota_exceeded_init_deserialize
    (script.force_decode ctxt parameters)
  pure ctxt

/-- The gas for decoding the script of an origination. The context of the first
check is dropped. -/
def precheck_script (script : Script) : Carbonated Context := do
  trace .Gas_quota_exceeded_init_deserialize do
    let ctxt ←
      (raw_context.consume_gas ctxt (script_repr.minimal_deserialize_cost script.code)).outcome
    raw_context.check_enough_gas ctxt (script_repr.minimal_deserialize_cost script.storage)
  let (_, ctxt) ← trace_carbonated .Gas_quota_exceeded_init_deserialize
    (plexus.script.force_decode ctxt script.code)
  let (_, ctxt) ← trace_carbonated .Gas_quota_exceeded_init_deserialize
    (plexus.script.force_decode ctxt script.storage)
  pure ctxt

def precheck_manager_operation (source : Public_key_hash) :
    Manager_operation → Carbonated Context
  | .Reveal pk => contract_storage.reveal_manager_key ctxt source pk
  | .Transaction _ parameters _ _ => precheck_parameters ctxt parameters
  | .MineTransaction _ parameters _ _ => precheck_parameters ctxt parameters
  | .Origination _ script _ _ => precheck_script ctxt script
  | .Delegation _ => pure ctxt

def precheck_manager_contents (raw_operation : Operation)
    (op : Manager_contents) : Carbonated Context := do
  raw_context.check_gas_limit ctxt op.gas_limit
  let ctxt := raw_context.set_gas_limit ctxt op.gas_limit
  fees_storage.check_storage_limit ctxt op.storage_limit
  contract_storage.must_be_allocated ctxt (contract_repr.implicit_contract op.source)
  contract_storage.check_counter_increment ctxt op.source op.counter
  let ctxt ← precheck_manager_operation ctxt op.source op.operation
  let public_key ← contract_storage.get_manager_key ctxt op.source
  check_signature public_key raw_operation
  let ctxt ← contract_storage.increment_counter ctxt op.source
  let ctxt ← contract_storage.mine_spend ctxt (contract_repr.implicit_contract op.source) op.fee
  raw_context.add_mine_fees ctxt op.fee

def precheck_manager_contents_list (ctxt : Context) (raw_operation : Operation) :
    List Manager_contents → Carbonated Context
  | [] => pure ctxt
  | op :: rest => do
    let ctxt ← precheck_manager_contents ctxt raw_operation op
    precheck_manager_contents_list ctxt raw_operation rest

/-! Batches. -/

/-- `none` stands for `Failure`. -/
def apply_manager_contents (chain_id : Chain_id)
    (op : Manager_contents) :
    Carbonated (Option Context × Manager_operation_result × List Internal_operation_result) := do
  let ctxt := raw_context.set_gas_limit ctxt op.gas_limit
  let ctxt ← fees_storage.start_counting_storage_fees ctxt
  let source := contract_repr.implicit_contract op.source
  let outcome ←
    (apply_manager_operation_content ctxt mode source source chain_id false op.operation).attempt
  match outcome with
  | .error errors => pure (none, .Failed (manager_kind op.operation) errors, [])
  | .ok (ctxt, operation_results, internal_operations) =>
    let (ctxt_result, internal_operations_results) ←
      apply_internal_manager_operations ctxt mode source chain_id internal_operations
    match ctxt_result with
    | none => pure (none, .Applied operation_results, internal_operations_results)
    | some ctxt =>
      let burned ← (fees_storage.burn_storage_fees ctxt op.storage_limit source).attempt
      match burned with
      | .ok ctxt => pure (some ctxt, .Applied operation_results, internal_operations_results)
      | .error errors =>
        pure (none, .Backtracked operation_results (some errors), internal_operations_results)

def skipped_operation_result : Manager_operation → Manager_operation_result
  | .Reveal _ => .Applied (.Reveal_result 0)
  | operation => .Skipped (manager_kind operation)

/-- The fee is reported with every content, applied or not. -/
def fee_balance_updates (baker : Public_key_hash) (level : Level) (op : Manager_contents) :
    Balance_updates :=
  cleanup_balance_updates
    [(.Contract (contract_repr.implicit_contract op.source), .MineDebited op.fee),
      (.Fees baker level.cycle, .MineCredited op.fee)]

def mark_skipped (baker : Public_key_hash) (level : Level) (contents_list : List Manager_contents) :
    List Manager_contents_result :=
  contents_list.map fun op =>
    { balance_updates := fee_balance_updates baker level op
      operation_result := skipped_operation_result op.operation
      internal_operation_results := [] }

/-- Without contents there is nothing to do; the source has no such batch. -/
def apply_manager_contents_list_rec (ctxt : Context) (mode : Unparsing_mode)
    (baker : Public_key_hash) (chain_id : Chain_id) :
    List Manager_contents → Carbonated (Option Context × List Manager_contents_result)
  | [] => pure (some ctxt, [])
  | op :: rest => do
    let level := raw_context.current_level ctxt
    let (ctxt_result, operation_result, internal_operation_results) ←
      apply_manager_contents ctxt mode chain_id op
    let result : Manager_contents_result :=
      { balance_updates := fee_balance_updates baker level op
        operation_result
        internal_operation_results }
    match ctxt_result with
    | none => pure (none, result :: mark_skipped baker level rest)
    | some ctxt =>
      let (ctxt_result, results) ← apply_manager_contents_list_rec ctxt mode baker chain_id rest
      pure (ctxt_result, result :: results)

def mark_manager_operation_result : Manager_operation_result → Manager_operation_result
  | .Applied (.Reveal_result consumed_gas) => .Applied (.Reveal_result consumed_gas)
  | .Applied result => .Backtracked result none
  | .Backtracked result errors => .Backtracked result errors
  | .Failed kind errors => .Failed kind errors
  | .Skipped kind => .Skipped kind

def mark_internal_operation_results (r : Internal_operation_result) : Internal_operation_result :=
  { r with result := mark_manager_operation_result r.result }

def mark_backtracked (results : List Manager_contents_result) : List Manager_contents_result :=
  results.map fun op =>
    { balance_updates := op.balance_updates
      operation_result := mark_manager_operation_result op.operation_result
      internal_operation_results :=
        op.internal_operation_results.map mark_internal_operation_results }

def apply_manager_contents_list (baker : Public_key_hash)
    (chain_id : Chain_id) (contents_list : List Manager_contents) :
    Carbonated (Context × List Manager_contents_result) := do
  let (ctxt_result, results) ←
    apply_manager_contents_list_rec ctxt mode baker chain_id contents_list
  match ctxt_result with
  | none => pure (ctxt, mark_backtracked results)
  | some ctxt => pure (big_map.cleanup_temporary ctxt, results)

/-! Lazy expressions are decoded in place: after `precheck`, the operation
holds the values that were decoded. -/

def forced_operation : Manager_operation → Manager_operation
  | .Reveal pk => .Reveal pk
  | .Transaction amount parameters entrypoint destination =>
    .Transaction amount (script_repr.forced parameters) entrypoint destination
  | .MineTransaction amount parameters entrypoint destination =>
    .MineTransaction amount (script_repr.forced parameters) entrypoint destination
  | .Origination delegate script credit preorigination =>
    .Origination delegate
      { code := script_repr.forced script.code, storage := script_repr.forced script.storage }
      credit preorigination
  | .Delegation delegate => .Delegation delegate

def forced_contents (op : Manager_contents) : Manager_contents :=
  { op with operation := forced_operation op.operation }

/-- The two branches of `apply_contents_list` for manager operations. -/
def apply_manager_operations (chain_id : Chain_id) (mode : Unparsing_mode)
    (baker : Public_key_hash) (operation : Operation) (contents_list : List Manager_contents) :
    Carbonated (Context × List Manager_contents_result) := do
  let ctxt ← precheck_manager_contents_list ctxt operation contents_list
  apply_manager_contents_list ctxt mode baker chain_id (contents_list.map forced_contents)

end apply

end plexus
