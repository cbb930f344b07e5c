import Plexus.Apply

/-! `main.ml`: the entry points a node calls to apply a block, to check it
without its context, or to build one. -/

namespace plexus

/-- `Signature.Public_key_hash.zero` -/
def Public_key_hash.zero : Public_key_hash := .Ed25519 0

namespace fitness_repr

/-- `MBytes.set_int64` of a new buffer: most significant byte first. -/
def int64_to_bytes (i : Int64) : MBytes :=
  [(i.toUInt64 >>> 56).toUInt8, (i.toUInt64 >>> 48).toUInt8, (i.toUInt64 >>> 40).toUInt8,
    (i.toUInt64 >>> 32).toUInt8, (i.toUInt64 >>> 24).toUInt8, (i.toUInt64 >>> 16).toUInt8,
    (i.toUInt64 >>> 8).toUInt8, i.toUInt64.toUInt8]

def from_int64 (fitness : Int64) : List MBytes := [version_number, int64_to_bytes fitness]

end fitness_repr

namespace operation_repr

def acceptable_passes (op : Operation) : List Nat :=
  match op.contents with
  | .Endorsement _ => [0]
  | .Proposals .. => [1]
  | .Ballot .. => [1]
  | .Seed_nonce_revelation .. => [2]
  | .Double_endorsement_evidence .. => [2]
  | .Double_baking_evidence .. => [2]
  | .Activate_account .. => [2]
  | .Manager_operations .. => [3]

end operation_repr

namespace alpha_context

/-- `Init_storage.prepare`: what a node hands over is decoded first. -/
def prepare (ctxt : Context) (level : Int32) (timestamp : Int64) (fitness : List MBytes) :
    Tzresult Context := do
  let level ← raw_level_repr.of_int32 level
  let fitness ← fitness_repr.to_int64 fitness
  pure (raw_context.prepare ctxt level timestamp fitness)

/-- `Updater.validation_result` -/
structure Validation_result where
  context : Context
  fitness : List MBytes
  message : Option String
  max_operations_ttl : Nat
  last_allowed_fork_level : Raw_level

def finalize (commit_message : Option String) (c : Context) : Tzresult Validation_result := do
  let last_allowed_fork_level ← level_storage.last_allowed_fork_level c
  pure
    { context := c
      fitness := fitness_repr.from_int64 c.fitness
      message := commit_message
      max_operations_ttl := 60
      last_allowed_fork_level }

end alpha_context

namespace main

open alpha_context (Validation_result)

inductive Validation_mode where
  | Application (block_header : Block_header) (baker : Public_key_hash) (block_delay : Int64)
  | Partial_application (block_header : Block_header) (baker : Public_key_hash)
      (block_delay : Int64)
  | Partial_construction (predecessor : Block_hash)
  | Full_construction (predecessor : Block_hash) (protocol_data : Block_header_contents)
      (baker : Public_key_hash) (block_delay : Int64)

structure Validation_state where
  mode : Validation_mode
  chain_id : Chain_id
  ctxt : Context
  op_count : Nat

variable [Environment] (chain_id : Chain_id) (predecessor_context : Context)

def begin_partial_application (ancestor_context : Context)
    (predecessor_timestamp : Int64) (predecessor_fitness : List MBytes)
    (block_header : Block_header) : Tzresult Validation_state := do
  let ctxt ← alpha_context.prepare ancestor_context block_header.level block_header.timestamp
    predecessor_fitness
  let (ctxt, baker, block_delay) ←
    apply.begin_application ctxt chain_id block_header predecessor_timestamp
  let mode := .Partial_application block_header (Environment.public_key_hash baker) block_delay
  pure { mode, chain_id, ctxt, op_count := 0 }

variable (predecessor_timestamp : Int64)

def begin_application (predecessor_fitness : List MBytes)
    (block_header : Block_header) : Tzresult Validation_state := do
  let ctxt ← alpha_context.prepare predecessor_context block_header.level block_header.timestamp
    predecessor_fitness
  let (ctxt, baker, block_delay) ←
    apply.begin_application ctxt chain_id block_header predecessor_timestamp
  let mode := .Application block_header (Environment.public_key_hash baker) block_delay
  pure { mode, chain_id, ctxt, op_count := 0 }

def begin_construction (pred_level : Int32) (pred_fitness : List MBytes)
    (predecessor : Block_hash) (timestamp : Int64)
    (protocol_data : Option Block_header_contents) : Tzresult Validation_state := do
  let level := pred_level + 1
  let ctxt ← alpha_context.prepare predecessor_context level timestamp pred_fitness
  match protocol_data with
  | none =>
    let ctxt ← apply.begin_partial_construction ctxt
    pure { mode := .Partial_construction predecessor, chain_id, ctxt, op_count := 0 }
  | some contents =>
    let (ctxt, baker, block_delay) ←
      apply.begin_full_construction ctxt predecessor_timestamp contents
    let mode :=
      .Full_construction predecessor contents (Environment.public_key_hash baker) block_delay
    pure { mode, chain_id, ctxt, op_count := 0 }

omit [Environment] in
/-- The predecessor and the baker that operations are applied with. -/
def Validation_mode.block : Validation_mode → Block_hash × Public_key_hash
  | .Partial_application block_header baker _ => (block_header.predecessor, baker)
  | .Application block_header baker _ => (block_header.predecessor, baker)
  | .Full_construction predecessor _ baker _ => (predecessor, baker)
  | .Partial_construction predecessor => (predecessor, Public_key_hash.zero)

omit [Environment] in
/-- Multipass validation only considers operations in pass 0. -/
def Validation_mode.ignores (mode : Validation_mode) (operation : Operation) : Bool :=
  match mode with
  | .Partial_application .. => !(operation_repr.acceptable_passes operation).contains 0
  | _ => false

/-- Without a receipt, the operation was not looked at. -/
def apply_operation (data : Validation_state) (operation : Operation) :
    Carbonated (Validation_state × Option Contents_result_list) :=
  if data.mode.ignores operation then
    pure ({ data with op_count := data.op_count + 1 }, none)
  else do
    let (predecessor, baker) := data.mode.block
    let (ctxt, result) ← apply.apply_operation data.ctxt data.chain_id .Optimized predecessor baker
      (Environment.hash_operation operation) operation
    pure ({ data with ctxt, op_count := data.op_count + 1 }, some result)

omit [Environment] in
/-- The metadata of a block that is not applied. -/
def partial_metadata (baker : Public_key_hash) (level : Level)
    (voting_period_kind : Voting_period_kind) : Block_metadata where
  baker
  level
  voting_period_kind
  nonce_hash := none
  consumed_gas := 0
  deactivated := []
  balance_updates := []

omit [Environment] in
def commit_message (level : Raw_level) (fitness : Int64) (priority op_count : Nat) : String :=
  "lvl " ++ toString level ++ ", fit 1:" ++ toString fitness ++ ", prio " ++ toString priority ++
    ", " ++ toString op_count ++ " ops"

/-- The end of a block that is applied or built. -/
def finalize_full (ctxt : Context) (op_count : Nat) (protocol_data : Block_header_contents)
    (baker : Public_key_hash) (block_delay : Int64) :
    Tzresult (Validation_result × Block_metadata) := do
  let (ctxt, receipt) ← apply.finalize_application ctxt protocol_data baker block_delay
  let level := level_storage.current ctxt
  let message := commit_message level.level ctxt.fitness protocol_data.priority op_count
  let result ← alpha_context.finalize (some message) ctxt
  pure (result, receipt)

def finalize_block (data : Validation_state) : Tzresult (Validation_result × Block_metadata) :=
  match data.mode with
  | .Partial_construction _ => do
    let level := level_storage.current data.ctxt
    let voting_period_kind ← Storage.Vote.Current_period_kind.get data.ctxt
    let ctxt ← apply.freeze_deposits data.ctxt
    let result ← alpha_context.finalize none ctxt
    pure (result, partial_metadata Public_key_hash.zero level voting_period_kind)
  | .Partial_application block_header baker block_delay => do
    let level := level_storage.current data.ctxt
    apply.check_minimum_endorsements data.ctxt block_header.contents block_delay
      data.ctxt.included_endorsements
    let voting_period_kind ← Storage.Vote.Current_period_kind.get data.ctxt
    let result ← alpha_context.finalize none data.ctxt
    pure (result, partial_metadata baker level voting_period_kind)
  | .Application block_header baker block_delay =>
    finalize_full data.ctxt data.op_count block_header.contents baker block_delay
  | .Full_construction _ protocol_data baker block_delay =>
    finalize_full data.ctxt data.op_count protocol_data baker block_delay

/-! Whole blocks. -/

def apply_operations (data : Validation_state) :
    List Operation → Carbonated (Validation_state × List (Option Contents_result_list))
  | [] => pure (data, [])
  | operation :: rest => do
    let (data, receipt) ← apply_operation data operation
    let (data, receipts) ← apply_operations data rest
    pure (data, receipt :: receipts)

/-- The operations and the end of a block. -/
def complete (data : Validation_state) (operations : List Operation) :
    Carbonated (Validation_result × List (Option Contents_result_list) × Block_metadata) := do
  let (data, receipts) ← apply_operations data operations
  let (result, metadata) ← finalize_block data
  pure (result, receipts, metadata)

/-- A block that is applied. -/
def validate_block (predecessor_fitness : List MBytes)
    (block_header : Block_header) (operations : List Operation) :
    Carbonated (Validation_result × List (Option Contents_result_list) × Block_metadata) := do
  let data ← begin_application chain_id predecessor_context predecessor_timestamp
    predecessor_fitness block_header
  complete data operations

/-- A block that is built by its baker. -/
def construct_block (pred_level : Int32) (pred_fitness : List MBytes)
    (predecessor : Block_hash) (timestamp : Int64) (protocol_data : Block_header_contents)
    (operations : List Operation) :
    Carbonated (Validation_result × List (Option Contents_result_list) × Block_metadata) := do
  let data ← begin_construction chain_id predecessor_context predecessor_timestamp pred_level
    pred_fitness predecessor timestamp (some protocol_data)
  complete data operations

end main

end plexus
