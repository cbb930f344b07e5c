import Plexus.Storage

namespace plexus

inductive Unparsing_mode where
  | Optimized
  | Readable
deriving DecidableEq, Repr

/-- What a script sees of the operation that calls it. -/
structure Step_constants where
  source : Contract
  payer : Contract
  self : Contract
  amount : Tez
  mine_amount : Mine
  chain_id : Chain_id

/-- What a run of a script returns. -/
structure Execution_result where
  ctxt : Context
  storage : Expr
  big_map_diff : Option Big_map_diff
  operations : List Internal_operation

/-- The code the protocol calls and this model does not contain: hashing,
signatures, binary encodings, and the typechecker and interpreter of scripts. -/
class Environment where
  /-- `Signature.Public_key.hash` -/
  public_key_hash : Public_key → Public_key_hash
  /-- `Contract_hash.hash_bytes` of an encoded origination nonce -/
  contract_hash : contract_repr.Origination_nonce → Contract_hash
  /-- `Signature.check` of an unsigned operation -/
  check_operation : Watermark → Public_key → Nat → Operation → Bool
  check_endorsement : Watermark → Public_key → Nat → Endorsement_operation → Bool
  check_block_header : Watermark → Public_key → Block_header → Bool
  block_header_hash : Block_header → Block_hash
  /-- the first eight bytes of the hash of a header with an empty signature -/
  proof_of_work_stamp : Block_header → UInt64
  /-- `Operation.hash` -/
  hash_operation : Operation → Operation_hash
  /-- `Nonce_hash.hash_bytes` -/
  nonce_hash : MBytes → Nat
  /-- `State_hash.hash_bytes` -/
  state_hash : List MBytes → State_hash
  /-- how often a loop that draws random numbers is tried: the model says that
  it runs forever when all these rounds draw badly -/
  rounds : Nat
  /-- `Operation_hash.hash_bytes` -/
  operation_hash : List MBytes → Operation_hash
  /-- `Signature.Public_key.to_b58check` -/
  public_key_to_b58check : Public_key → String
  /-- `Blinded_public_key_hash.of_ed25519_pkh` -/
  blinded_public_key_hash : Nat → Nat → Nat
  /-- the binary encoding of expressions -/
  expr_to_bytes : Expr → Option MBytes
  expr_of_bytes : MBytes → Option Expr
  /-- a typechecked script, and its storage -/
  Ex_script : Type
  Ex_storage : Type
  parse_script : Context → Script → Carbonated (Ex_script × Context)
  collect_big_maps : Context → Ex_script → Carbonated (List ℤ × Context)
  extract_big_map_diff : Context → Unparsing_mode → Ex_script → List ℤ →
    Carbonated (Ex_storage × Option Big_map_diff × Context)
  unparse_data : Context → Unparsing_mode → Ex_storage → Carbonated (Expr × Context)
  /-- `Script_interpreter.execute` -/
  execute : Context → Unparsing_mode → Step_constants → Script → Expr → String →
    Carbonated Execution_result

namespace contract_repr

variable [Environment]

def originated_contract (nonce : Origination_nonce) : Contract :=
  .Originated (Environment.contract_hash nonce)

/-- The addresses made from the nonces between two. -/
def originated_contracts (since_nonce until_nonce : Origination_nonce) : Tzresult (List Contract) :=
  if since_nonce.operation_hash = until_nonce.operation_hash then
    .ok ((List.range' since_nonce.origination_index
      (until_nonce.origination_index - since_nonce.origination_index)).map fun origination_index =>
        originated_contract { until_nonce with origination_index })
  else .raise .Assert_originated_contracts

end contract_repr

/-! Lazily decoded expressions. -/

namespace script_repr

variable [Environment]

open gas_limit_repr

def lazy_expr (expr : Expr) : Lazy_expr := .Value expr

/-- The value of a lazy expression and the cost of decoding it, which is paid
once. -/
def force_decode (lexpr : Lazy_expr) : Tzresult (Expr × Cost) :=
  match lexpr with
  | .Value v => .ok (v, free)
  | .Both _ v => .ok (v, free)
  | .Bytes b =>
    match Environment.expr_of_bytes b with
    | some v => .ok (v, deserialized_cost v)
    | none => fail .Lazy_script_decode

/-- The lazy expression as `force_decode` leaves it. -/
def forced (lexpr : Lazy_expr) : Lazy_expr :=
  match lexpr with
  | .Value v => .Value v
  | .Both b v => .Both b v
  | .Bytes b =>
    match Environment.expr_of_bytes b with
    | some v => .Both b v
    | none => .Bytes b

def force_bytes (expr : Lazy_expr) : Tzresult (MBytes × Cost) :=
  match expr with
  | .Value v =>
    match Environment.expr_to_bytes v with
    | some bytes => .ok (bytes, add (traversal_cost v) (serialized_cost bytes))
    | none => fail .Lazy_script_decode
  | .Both b _ => .ok (b, free)
  | .Bytes b => .ok (b, free)

mutual

def strip_annotations : Expr → Expr
  | .Int n => .Int n
  | .String s => .String s
  | .Bytes s => .Bytes s
  | .Prim name args _ => .Prim name (strip_annotations_list args) []
  | .Seq args => .Seq (strip_annotations_list args)

def strip_annotations_list : List Expr → List Expr
  | [] => []
  | arg :: rest => strip_annotations arg :: strip_annotations_list rest

end

end script_repr

namespace script

variable [Environment]

/-- `Alpha_context.Script.force_decode` -/
def force_decode (ctxt : Context) (lexpr : Lazy_expr) : Carbonated (Expr × Context) := do
  let (v, cost) ← script_repr.force_decode lexpr
  let ctxt ← raw_context.consume_gas ctxt cost
  pure (v, ctxt)

end script

/-! Carbonated storage. -/

/-- `Make_carbonated_map_expr`: the code or the storage of scripts. An entry is
kept as the bytes of the expression; its stored form has a length in front. -/
structure Carbonated_map_expr where
  absolute_key : Contract → Key
  store : Context → Store Contract MBytes
  update : Context → Store Contract MBytes → Context

namespace Carbonated_map_expr

variable [Environment] (s : Carbonated_map_expr)

open gas_limit_repr

/-- The length of the stored form of a lazy expression. -/
def stored_length (bytes : MBytes) : ℤ := 4 + bytes.length

variable (ctxt : Context) (contract : Contract)

def existing_size : ℤ × Bool :=
  match (s.store ctxt).lookup contract with
  | none => (0, false)
  | some bytes => (stored_length bytes, true)

def mem : Carbonated (Context × Bool) := do
  let ctxt ← raw_context.consume_gas ctxt (read_bytes_cost 0)
  pure (ctxt, ((s.store ctxt).lookup contract).isSome)

variable (value : Lazy_expr)

def consume_deserialize_gas : Carbonated Context := do
  raw_context.check_enough_gas ctxt (script_repr.minimal_deserialize_cost value)
  let (_, value_cost) ← script_repr.force_decode value
  raw_context.consume_gas ctxt value_cost

def get_option :
    Carbonated (Context × Option Lazy_expr) := do
  let ctxt ← raw_context.consume_gas ctxt (read_bytes_cost 0)
  match (s.store ctxt).lookup contract with
  | none => pure (ctxt, none)
  | some bytes =>
    let ctxt ← raw_context.consume_gas ctxt (read_bytes_cost (stored_length bytes))
    let ctxt ← consume_deserialize_gas ctxt (.Bytes bytes)
    pure (ctxt, some (script_repr.forced (.Bytes bytes)))

/-- What `set` and `init` consume before they write. -/
def consume_serialize_write_gas :
    Carbonated (Context × MBytes) := do
  let (bytes, value_cost) ← script_repr.force_bytes value
  let ctxt ← raw_context.consume_gas ctxt value_cost
  let ctxt ← raw_context.consume_gas ctxt (write_bytes_cost (stored_length bytes))
  pure (ctxt, bytes)

def set : Carbonated (Context × ℤ) := do
  let (prev_size, _) := s.existing_size ctxt contract
  let (ctxt, bytes) ← consume_serialize_write_gas ctxt value
  match (s.store ctxt).lookup contract with
  | none => fail (.Storage_error (.Missing_key (s.absolute_key contract) .Set))
  | some _ =>
    pure (s.update ctxt ((s.store ctxt).put contract (some bytes)), stored_length bytes - prev_size)

def init :
    Carbonated (Context × ℤ) := do
  let (ctxt, bytes) ← consume_serialize_write_gas ctxt value
  match (s.store ctxt).lookup contract with
  | some _ => fail (.Storage_error (.Existing_key (s.absolute_key contract)))
  | none => pure (s.update ctxt ((s.store ctxt).put contract (some bytes)), stored_length bytes)

def remove : Carbonated (Context × ℤ × Bool) := do
  let (prev_size, existed) := s.existing_size ctxt contract
  let ctxt ← raw_context.consume_gas ctxt (write_bytes_cost 0)
  pure (s.update ctxt ((s.store ctxt).put contract none), prev_size, existed)

end Carbonated_map_expr

namespace Storage

namespace Contract

@[simps store update] def Code : Carbonated_map_expr where
  absolute_key := .code
  store ctxt := ctxt.scripts.code
  update ctxt s := ctxt.with_scripts { ctxt.scripts with code := s }

set_option linter.dupNamespace false in
@[simps store update] def Storage : Carbonated_map_expr where
  absolute_key := .storage
  store ctxt := ctxt.scripts.storage
  update ctxt s := ctxt.with_scripts { ctxt.scripts with storage := s }

end Contract

namespace Big_map.Contents

variable [Environment]

open gas_limit_repr

variable (ctxt : Context) (big_map : ℤ)

/-- The entries of one big map. -/
def entries : Store Nat Expr :=
  (ctxt.big_maps.contents.lookup big_map).getD Store.empty

def with_entries (entries : Store Nat Expr) : Context :=
  ctxt.with_big_maps { ctxt.big_maps with
    contents := ctxt.big_maps.contents.put big_map (some entries) }

def length (value : Expr) : ℤ := ((Environment.expr_to_bytes value).getD []).length

def existing_size (key_hash : Nat) : ℤ × Bool :=
  match (entries ctxt big_map).lookup key_hash with
  | none => (0, false)
  | some value => (length value, true)

def init_set (key_hash : Nat) (value : Expr) :
    Carbonated (Context × ℤ × Bool) := do
  let (prev_size, existed) := existing_size ctxt big_map key_hash
  let ctxt ← raw_context.consume_gas ctxt (alloc_mbytes_cost (length value))
  let ctxt ← raw_context.consume_gas ctxt (write_bytes_cost (length value))
  pure (with_entries ctxt big_map ((entries ctxt big_map).put key_hash (some value)),
    length value - prev_size, existed)

def remove (key_hash : Nat) :
    Carbonated (Context × ℤ × Bool) := do
  let (prev_size, existed) := existing_size ctxt big_map key_hash
  let ctxt ← raw_context.consume_gas ctxt (write_bytes_cost 0)
  pure (with_entries ctxt big_map ((entries ctxt big_map).put key_hash none), prev_size, existed)

end Big_map.Contents

end Storage

end plexus
