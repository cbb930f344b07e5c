import Plexus.Shell.ChainTraversal

/-! Validation of blocks (`block_validation.ml`, `block_validator_process.ml`):
the checks of the shell around the application of a block by its protocol. -/

namespace plexus.block_validation

open state
export state (Block_hash Block_header Exn Operation Operation_hash)

abbrev Protocol_hash := Nat

/-- What the shell finds wrong with a block, or the protocol, with errors of
type `E`. -/
inductive Block_error (E : Type) where
  | Cannot_parse_operation (operation : Operation_hash)
  | Invalid_fitness (expected found : Fitness)
  | Non_increasing_timestamp
  | Non_increasing_fitness
  | Invalid_level (expected found : Nat)
  | Invalid_proto_level (expected found : Nat)
  | Replayed_operation (operation : Operation_hash)
  | Outdated_operation (operation : Operation_hash) (originating_block : Block_hash)
  | Unexpected_number_of_validation_passes (passes : Nat)
  | Too_many_operations (pass found : Nat) (max : Int)
  | Oversized_operation (operation : Operation_hash) (size max : Nat)
  | Unallowed_pass (operation : Operation_hash) (pass : Nat) (allowed_pass : List Nat)
  | Cannot_parse_block_header
  | Economic_protocol_error (errors : List E)
deriving DecidableEq, Repr

/-- Exceptions that are caught as errors. -/
inductive Caught where
  | Unix_error (errno fn msg : String)
  | Other (exn : String)
deriving DecidableEq, Repr

inductive Error (E : Type) where
  | State (error : state.Error)
  | Proto (error : E)
  | Exn (exn : Caught)
  | Invalid_block (block : Block_hash) (error : Block_error E)
  | Unavailable_protocol (block : Block_hash) (protocol : Protocol_hash)
  | Cannot_serialize_operation_metadata
  | Failed_to_get_live_blocks (block : Block_hash)
  | System_error (errno fn msg : String)
deriving DecidableEq, Repr

abbrev Tzresult (E α : Type) := Result (List (Error E)) Exn α

def invalid_block {E α : Type} (block : Block_hash) (error : Block_error E) : Tzresult E α :=
  .error [.Invalid_block block error]

def fail_unless {E : Type} (cond : Prop) [Decidable cond] (failure : Tzresult E Unit) :
    Tzresult E Unit :=
  if cond then .ok () else failure

/-- How many operations of a pass a block may have. -/
structure Quota where
  max_op : Option Nat
deriving DecidableEq, Repr

inductive Test_chain_status where
  | Not_running
  | Forking (protocol : Protocol_hash) (expiration : Int)
  | Running (chain_id : Nat) (genesis : Block_hash) (protocol : Protocol_hash) (expiration : Int)
deriving DecidableEq, Repr

structure Validation_result (Context : Type) where
  context : Context
  fitness : Fitness
  message : Option String
  max_operations_ttl : Int
  last_allowed_fork_level : Int

/-- A protocol as the validation of blocks uses it, with its codecs. The
functions `..._to_bytes` raise an exception when the value has no encoding, and
the one of receipts also when it is not read back. -/
structure Registered_protocol (Context E : Type) where
  hash : Protocol_hash
  validation_state : Type
  block_header_data : Type
  block_header_metadata : Type
  operation_data : Type
  operation_receipt : Type
  max_operation_data_length : Nat
  validation_passes : List Quota
  block_header_data_of_bytes : Bytes → Option block_header_data
  operation_data_of_bytes : Bytes → Option operation_data
  block_header_metadata_to_bytes : block_header_metadata → Except Exn Bytes
  operation_receipt_to_bytes : operation_receipt → Except Caught Bytes
  acceptable_passes : Block_hash → operation_data → List Nat
  begin_application : (chain_id : Nat) → (predecessor_context : Context) →
    (predecessor_timestamp : Int) → (predecessor_fitness : Fitness) → Shell_header →
    block_header_data → Except (List E) validation_state
  apply_operation : validation_state → Block_hash → operation_data →
    Except (List E) (validation_state × operation_receipt)
  finalize_block : validation_state →
    Except (List E) (Validation_result Context × block_header_metadata)
  init : Context → Shell_header → Except (List E) (Validation_result Context)

/-- What block validation takes from the rest of the node: contexts, the
registered protocols, and the sizes of operations. -/
class Validation_env extends Chain_env where
  Context : Type
  error : Type
  get_protocol : Context → Protocol_hash
  set_protocol : Context → Protocol_hash → Context
  get_test_chain : Context → Test_chain_status
  set_test_chain : Context → Test_chain_status → Context
  commit : (time : Int) → (message : Option String) → Context → Context_hash
  compute_testchain_genesis : Block_hash → Block_hash
  chain_id_of_block_hash : Block_hash → Nat
  registered_protocol : Protocol_hash → Option (Registered_protocol Context error)
  operation_length : Operation → Nat

variable [Validation_env]

export Validation_env (Context error)

structure Validation_store where
  context_hash : Context_hash
  message : Option String
  max_operations_ttl : Nat
  last_allowed_fork_level : Int
deriving DecidableEq, Repr

structure Applied where
  validation_store : Validation_store
  block_metadata : Bytes
  ops_metadata : List (List Bytes)
  forking_testchain : Bool
deriving DecidableEq, Repr

structure Apply_environment where
  max_operations_ttl : Nat
  chain_id : Nat
  predecessor_block_header : Block_header
  predecessor_context : Context
  user_activated_upgrades : List (Nat × Protocol_hash)
  user_activated_protocol_overrides : List (Protocol_hash × Protocol_hash)

def update_testchain_status (ctxt : Context) (predecessor_header : Block_header)
    (timestamp : Int) : Context :=
  match Validation_env.get_test_chain ctxt with
  | .Not_running => ctxt
  | .Running _ _ _ expiration =>
    if expiration ≤ timestamp then Validation_env.set_test_chain ctxt .Not_running else ctxt
  | .Forking protocol expiration =>
    let predecessor_hash := Chain_env.hash predecessor_header
    let genesis := Validation_env.compute_testchain_genesis predecessor_hash
    let chain_id := Validation_env.chain_id_of_block_hash genesis
    Validation_env.set_test_chain ctxt (.Running chain_id genesis protocol expiration)

def is_testchain_forking (ctxt : Context) : Bool :=
  match Validation_env.get_test_chain ctxt with
  | .Not_running | .Running _ _ _ _ => false
  | .Forking _ _ => true

/-- The table built from the list keeps the last entry of a level. -/
def get_forced_protocol_upgrade (user_activated_upgrades : List (Nat × Protocol_hash))
    (level : Nat) : Option Protocol_hash :=
  user_activated_upgrades.reverse.lookup level

def may_force_protocol_upgrade (user_activated_upgrades : List (Nat × Protocol_hash))
    (level : Nat) (validation_result : Validation_result Context) : Validation_result Context :=
  match get_forced_protocol_upgrade user_activated_upgrades level with
  | none => validation_result
  | some hash =>
    { validation_result with
      context := Validation_env.set_protocol validation_result.context hash }

/-- Applies user activated updates, based either on the level of the block or on
voted protocols. -/
def may_patch_protocol (user_activated_upgrades : List (Nat × Protocol_hash))
    (user_activated_protocol_overrides : List (Protocol_hash × Protocol_hash)) (level : Nat)
    (validation_result : Validation_result Context) : Validation_result Context :=
  let protocol := Validation_env.get_protocol validation_result.context
  match user_activated_protocol_overrides.lookup protocol with
  | none => may_force_protocol_upgrade user_activated_upgrades level validation_result
  | some replacement_protocol =>
    { validation_result with
      context := Validation_env.set_protocol validation_result.context replacement_protocol }

/-- The errors of two computations that both ran. -/
def join (tx tl : Tzresult error Unit) : Tzresult error Unit :=
  match tx, tl with
  | .ok (), .ok () => .ok ()
  | .error exn1, .error exn2 => .error (exn1 ++ exn2)
  | .ok (), .error exn => .error exn
  | .error exn, .ok () => .error exn
  | .raise exn, _ => .raise exn
  | _, .raise exn => .raise exn
  | .div, _ => .div
  | _, .div => .div

def iter_p {α : Type} (f : α → Tzresult error Unit) : List α → Tzresult error Unit
  | [] => .ok ()
  | x :: l => join (f x) (iter_p f l)

def iteri2_p {α β : Type} (f : Nat → α → β → Tzresult error Unit) :
    Nat → List α → List β → Tzresult error Unit
  | _, [], [] => .ok ()
  | _, [], _ :: _ => .raise (.Invalid_argument "Error_monad.iteri2_p")
  | _, _ :: _, [] => .raise (.Invalid_argument "Error_monad.iteri2_p")
  | i, x1 :: l1, x2 :: l2 => join (f i x1 x2) (iteri2_p f (i + 1) l1 l2)

section Make

variable (Proto : Registered_protocol Context error)

def check_block_header (predecessor_block_header : Block_header) (hash : Block_hash)
    (block_header : Block_header) : Tzresult error Unit := do
  let validation_passes := Proto.validation_passes.length
  fail_unless (predecessor_block_header.shell.level + 1 = block_header.shell.level)
    (invalid_block hash (.Invalid_level (predecessor_block_header.shell.level + 1)
      block_header.shell.level))
  fail_unless (predecessor_block_header.shell.timestamp < block_header.shell.timestamp)
    (invalid_block hash .Non_increasing_timestamp)
  fail_unless
    (Fitness.compare predecessor_block_header.shell.fitness block_header.shell.fitness = .lt)
    (invalid_block hash .Non_increasing_fitness)
  fail_unless (block_header.shell.validation_passes = validation_passes)
    (invalid_block hash
      (.Unexpected_number_of_validation_passes block_header.shell.validation_passes))

variable (block_hash : Block_hash)

def parse_block_header (block_header : Block_header) :
    Tzresult error Proto.block_header_data :=
  match Proto.block_header_data_of_bytes block_header.protocol_data with
  | none => invalid_block block_hash .Cannot_parse_block_header
  | some protocol_data => .ok protocol_data

def check_operation_quota (operations : List (List Operation)) :
    Tzresult error Unit :=
  iteri2_p (fun i ops quota => do
    fail_unless (quota.max_op.all fun max => ops.length ≤ max)
      (invalid_block block_hash (.Too_many_operations (i + 1) ops.length
        (match quota.max_op with | none => -1 | some max => max)))
    iter_p (fun op =>
      let size := Validation_env.operation_length op
      fail_unless (size ≤ Proto.max_operation_data_length)
        (invalid_block block_hash (.Oversized_operation (Chain_env.operation_hash op) size
          Proto.max_operation_data_length))) ops) 0 operations Proto.validation_passes

def parse_operation (pass : Nat) (op : Operation) :
    Tzresult error (Block_hash × Proto.operation_data) :=
  let op_hash := Chain_env.operation_hash op
  match Proto.operation_data_of_bytes op.proto with
  | none => invalid_block block_hash (.Cannot_parse_operation op_hash)
  | some protocol_data => do
    let allowed_pass := Proto.acceptable_passes op.branch protocol_data
    fail_unless (pass ∈ allowed_pass)
      (invalid_block block_hash (.Unallowed_pass op_hash pass allowed_pass))
    return (op.branch, protocol_data)

def parse_operations (operations : List (List Operation)) :
    Tzresult error (List (List (Block_hash × Proto.operation_data))) :=
  operations.zipIdx.mapM fun (ops, pass) => ops.mapM (parse_operation Proto block_hash pass)

/-- Applies the operations of one pass. The receipts are collected in front. -/
def apply_operations (state : Proto.validation_state)
    (ops : List (Block_hash × Proto.operation_data)) :
    Except (List error) (Proto.validation_state × List Proto.operation_receipt) := do
  let (state, acc) ← ops.foldlM (fun (state, acc) (branch, data) => do
    let (state, op_metadata) ← Proto.apply_operation state branch data
    return (state, op_metadata :: acc)) (state, [])
  return (state, acc.reverse)

/-- The application by the protocol. -/
def apply_protocol (chain_id : Nat) (context : Context) (predecessor_block_header : Block_header)
    (shell : Shell_header) (protocol_data : Proto.block_header_data)
    (operations : List (List (Block_hash × Proto.operation_data))) :
    Except (List error) (Validation_result Context × Proto.block_header_metadata ×
      List (List Proto.operation_receipt)) := do
  let state ← Proto.begin_application chain_id context predecessor_block_header.shell.timestamp
    predecessor_block_header.shell.fitness shell protocol_data
  let (state, ops_metadata) ← operations.foldlM (fun (state, acc) ops => do
    let (state, ops_metadata) ← apply_operations Proto state ops
    return (state, ops_metadata :: acc)) (state, [])
  let ops_metadata := ops_metadata.reverse
  let (validation_result, block_data) ← Proto.finalize_block state
  return (validation_result, block_data, ops_metadata)

/-- An error of the protocol makes the block invalid. -/
def economic_protocol_result {α : Type} (block_hash : Block_hash) :
    Except (List error) α → Tzresult error α
  | .error err => invalid_block block_hash (.Economic_protocol_error err)
  | .ok o => .ok o

/-- When the block changes the protocol, the new one initialises its context. -/
def may_init_protocol (new_protocol : Protocol_hash)
    (shell : Shell_header) (validation_result : Validation_result Context) :
    Tzresult error (Validation_result Context) :=
  if new_protocol = Proto.hash then .ok validation_result
  else
    match Validation_env.registered_protocol new_protocol with
    | none => .error [.Unavailable_protocol block_hash new_protocol]
    | some NewProto =>
      match NewProto.init validation_result.context shell with
      | .error err => .error (err.map .Proto)
      | .ok validation_result => .ok validation_result

def block_metadata_bytes (block_data : Proto.block_header_metadata) : Tzresult error Bytes :=
  match Proto.block_header_metadata_to_bytes block_data with
  | .error exn => .raise exn
  | .ok bytes => .ok bytes

/-- Checks that the metadata are serializable and deserializable. -/
def ops_metadata_bytes (ops_metadata : List (List Proto.operation_receipt)) :
    Tzresult error (List (List Bytes)) :=
  match ops_metadata.mapM (·.mapM Proto.operation_receipt_to_bytes) with
  | .error exn => .error [.Cannot_serialize_operation_metadata, .Exn exn]
  | .ok bytes => .ok bytes

/-- The application of a block by the protocol of its predecessor. -/
def apply_block_with (env : Apply_environment) (block_header : Block_header)
    (operations : List (List Operation)) : Tzresult error Applied := do
  let predecessor_block_header := env.predecessor_block_header
  let block_hash := Chain_env.hash block_header
  check_block_header Proto predecessor_block_header block_hash block_header
  let protocol_data ← parse_block_header Proto block_hash block_header
  check_operation_quota Proto block_hash operations
  let context := update_testchain_status env.predecessor_context predecessor_block_header
    block_header.shell.timestamp
  let operations ← parse_operations Proto block_hash operations
  let (validation_result, block_data, ops_metadata) ← economic_protocol_result block_hash
    (apply_protocol Proto env.chain_id context predecessor_block_header block_header.shell
      protocol_data operations)
  let forking_testchain := is_testchain_forking validation_result.context
  let validation_result := may_patch_protocol env.user_activated_upgrades
    env.user_activated_protocol_overrides block_header.shell.level validation_result
  let new_protocol := Validation_env.get_protocol validation_result.context
  let expected_proto_level :=
    if new_protocol = Proto.hash then predecessor_block_header.shell.proto_level
    else (predecessor_block_header.shell.proto_level + 1) % 256
  fail_unless (block_header.shell.proto_level = expected_proto_level)
    (invalid_block block_hash
      (.Invalid_proto_level expected_proto_level block_header.shell.proto_level))
  fail_unless (Fitness.compare validation_result.fitness block_header.shell.fitness = .eq)
    (invalid_block block_hash
      (.Invalid_fitness block_header.shell.fitness validation_result.fitness))
  let validation_result ←
    may_init_protocol Proto block_hash new_protocol block_header.shell validation_result
  let max_operations_ttl :=
    (max 0 (min ((env.max_operations_ttl : Int) + 1) validation_result.max_operations_ttl)).toNat
  let block_metadata ← block_metadata_bytes Proto block_data
  let ops_metadata ← ops_metadata_bytes Proto ops_metadata
  let context_hash := Validation_env.commit block_header.shell.timestamp validation_result.message
    validation_result.context
  return {
    validation_store := {
      context_hash
      message := validation_result.message
      max_operations_ttl
      last_allowed_fork_level := validation_result.last_allowed_fork_level }
    block_metadata
    ops_metadata
    forking_testchain }

end Make

def apply (env : Apply_environment) (block_header : Block_header)
    (operations : List (List Operation)) : Tzresult error Applied :=
  let block_hash := Chain_env.hash block_header
  let pred_protocol_hash := Validation_env.get_protocol env.predecessor_context
  match Validation_env.registered_protocol pred_protocol_hash with
  | none => .error [.Unavailable_protocol block_hash pred_protocol_hash]
  | some Proto =>
    match apply_block_with Proto env block_header operations with
    | .error (.Exn (.Unix_error errno fn msg) :: _) => .error [.System_error errno fn msg]
    | res => res

/-- Every operation is new: in none of the live blocks, and not before in the
block. -/
def assert_no_duplicate_operations (block_hash : Block_hash)
    (live_operations : Finset Operation_hash) (operations : List (List Operation)) :
    Tzresult error (Finset Operation_hash) :=
  operations.foldlM (fun live_operations ops => ops.foldlM (fun live_operations op =>
    let oph := Chain_env.operation_hash op
    if oph ∈ live_operations then invalid_block block_hash (.Replayed_operation oph)
    else .ok (insert oph live_operations)) live_operations) live_operations

/-- Every operation is made for a live block. -/
def assert_operation_liveness (block_hash : Block_hash) (live_blocks : Finset Block_hash)
    (operations : List (List Operation)) : Tzresult error Unit :=
  operations.forM fun ops => ops.forM fun op =>
    if op.branch ∉ live_blocks then
      invalid_block block_hash (.Outdated_operation (Chain_env.operation_hash op) op.branch)
    else .ok ()

def check_liveness (live_blocks : Finset Block_hash) (live_operations : Finset Operation_hash)
    (block_hash : Block_hash) (operations : List (List Operation)) : Tzresult error Unit := do
  let _ ← assert_no_duplicate_operations block_hash live_operations operations
  assert_operation_liveness block_hash live_blocks operations

/-- An error of the store. -/
def lift {α : Type} (trace : List (Error error)) : state.Tzresult α → Tzresult error α
  | .ok a => .ok a
  | .error err => .error (trace ++ err.map .State)
  | .raise exn => .raise exn
  | .div => .div

/-- The live sets of a block: those kept for the current head, or computed ones. -/
def live_sets (chain_state : Chain_state) (predecessor : Block) (max_operations_ttl : Nat) :
    Tzresult error (Finset Block_hash × Finset Operation_hash) :=
  let chain_data := chain_state.data
  if chain_data.current_head.equal predecessor then
    .ok (chain_data.live_blocks, chain_data.live_operations)
  else
    lift [.Failed_to_get_live_blocks predecessor.hash]
      (chain_traversal.live_blocks chain_state.block_store predecessor max_operations_ttl)

/-- Validates a block above `predecessor`. `env` has the arguments of the
process that applies blocks; its lifetime of operations and its header of the
predecessor are those of the store. -/
def apply_block (chain_state : Chain_state) (env : Apply_environment) (predecessor : Block)
    (header : Block_header) (operations : List (List Operation)) : Tzresult error Applied := do
  let max_operations_ttl ←
    lift [] (Block.max_operations_ttl chain_state.block_store predecessor)
  let (live_blocks, live_operations) ← live_sets chain_state predecessor max_operations_ttl
  let block_hash := Chain_env.hash header
  check_liveness live_blocks live_operations block_hash operations
  apply { env with max_operations_ttl, predecessor_block_header := predecessor.header } header
    operations

end plexus.block_validation
