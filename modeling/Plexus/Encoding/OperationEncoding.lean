import Plexus.Lib.DataEncoding
import Plexus.Qty

/-! The binary format of operations. Hashes, keys and signatures are kept here
as the byte strings that they are. -/

namespace plexus.operation_encoding

open Data_encoding

mutual

/-- Annotations are written with spaces between them. They can be told apart if
none is empty, longer than 255 bytes or contains a space. -/
def well_annotated : Expr → Bool
  | .Prim _ args annot =>
    annot.all (fun a => a ≠ "" && !a.contains ' ' && decide (a.utf8ByteSize ≤ 255)) &&
      well_annotated_list args
  | .Seq args => well_annotated_list args
  | _ => true

def well_annotated_list : List Expr → Bool
  | [] => true
  | e :: es => well_annotated e && well_annotated_list es

end

/-- The codecs of what operations are made of and this development does not
contain, and the hash function: public keys are read as they are written, and
the bytes of a well annotated expression are read as that expression. -/
class Codecs where
  Public_key : Type
  public_key : Encoding Public_key
  public_key_exact : public_key.Exact
  expr_to_bytes : Expr → Option Bytes
  expr_of_bytes : Bytes → Option Expr
  expr_of_to : ∀ e b, well_annotated e → expr_to_bytes e = some b → expr_of_bytes b = some e
  unit_bytes : Bytes
  unit_to_bytes : expr_to_bytes (.Prim .D_Unit [] []) = some unit_bytes
  Operation_hash : Type
  /-- `Operation_hash.hash_bytes` -/
  hash_bytes : Bytes → Operation_hash

/-! Keys, contracts and amounts. -/

inductive Public_key_hash where
  | Ed25519 (hash : Fixed 20)
  | Secp256k1 (hash : Fixed 20)
  | P256 (hash : Fixed 20)

def public_key_hash_encoding : Encoding Public_key_hash :=
  union
    [⟨0, Fixed 20, fixed 20, fun | .Ed25519 x => some x | _ => none, .Ed25519⟩,
      ⟨1, Fixed 20, fixed 20, fun | .Secp256k1 x => some x | _ => none, .Secp256k1⟩,
      ⟨2, Fixed 20, fixed 20, fun | .P256 x => some x | _ => none, .P256⟩]

inductive Contract where
  | Implicit (pkh : Public_key_hash)
  | Originated (hash : Fixed 20)

/-- `Contract_repr.encoding` -/
def contract_encoding : Encoding Contract :=
  union
    [⟨0, Public_key_hash, public_key_hash_encoding, fun | .Implicit k => some k | _ => none,
        .Implicit⟩,
      ⟨1, Fixed 20, add_padding (fixed 20) 1, fun | .Originated k => some k | _ => none,
        .Originated⟩]

/-- `Qty_repr.encoding` -/
def qty_encoding (id : Token) : Encoding (Qty id) :=
  conv (fun q => some q.amount.toNat)
    (fun m => if m < 2 ^ 63 then Qty.of_mutez (Int64.ofNat m) else none) (n 10)

/-- `check_size 10 n`, for integers that are not negative -/
def z_encoding : Encoding ℤ :=
  conv (fun z => if 0 ≤ z then some z.toNat else none) (fun m => some (m : ℤ)) (n 10)

def ballot_encoding : Encoding Ballot :=
  conv (fun | .Yay => some 0 | .Nay => some 1 | .Pass => some 2)
    (fun | 0 => some .Yay | 1 => some .Nay | 2 => some .Pass | _ => none) uint8

abbrev Signature := Fixed 64

def signature_zero : Signature := ⟨List.replicate 64 0, List.length_replicate⟩

/-! Block headers and endorsements, as they are found in evidences. -/

structure Block_header where
  level : Int32
  proto_level : ℕ
  predecessor : Fixed 32
  timestamp : Int64
  validation_passes : ℕ
  operations_hash : Fixed 32
  fitness : List Bytes
  context : Fixed 32
  priority : ℕ
  proof_of_work_nonce : Fixed 8
  seed_nonce_hash : Option (Fixed 32)
  signature : Signature

/-- `Block_header_repr.encoding`: the header of the shell, the contents and the
signature. -/
def block_header_encoding : Encoding Block_header :=
  conv
    (fun h => some (((h.level, h.proto_level, h.predecessor, h.timestamp, h.validation_passes,
      h.operations_hash, h.fitness, h.context)),
      (h.priority, h.proof_of_work_nonce, h.seed_nonce_hash), h.signature))
    (fun ((level, proto_level, predecessor, timestamp, validation_passes, operations_hash, fitness,
        context), (priority, proof_of_work_nonce, seed_nonce_hash), signature) =>
      some { level, proto_level, predecessor, timestamp, validation_passes, operations_hash, fitness,
             context, priority, proof_of_work_nonce, seed_nonce_hash, signature })
    (pair
      (pair int32 (pair uint8 (pair (fixed 32) (pair int64 (pair uint8 (pair (fixed 32)
        (pair (dynamic_size (list_variable bytes)) (fixed 32))))))))
      (pair (pair uint16 (pair (fixed 8) (opt (fixed 32)))) (fixed 64)))

structure Inlined_endorsement where
  branch : Fixed 32
  level : Int32
  signature : Option Signature

/-- The contents of an inlined endorsement. -/
def endorsement_contents_encoding : Encoding Int32 := union [⟨0, Int32, int32, some, id⟩]

/-- `endorsement_encoding` -/
def inlined_endorsement_encoding : Variable_encoding Inlined_endorsement :=
  conv_variable (fun o => some (o.branch, o.level, o.signature))
    (fun (branch, level, signature) => some { branch, level, signature })
    (pair_variable (fixed 32) (pair_variable endorsement_contents_encoding (varopt (fixed 64))))

/-! Operations. The parameters of a transaction and the script of an
origination are left open: what a script is kept as differs from how it is
written. -/

section Operations

variable [Codecs]

inductive Manager_operation (p s : Type) where
  | Reveal (public_key : Codecs.Public_key)
  | Transaction (amount : Tez) (destination : Contract) (parameters : p)
  | MineTransaction (amount : Mine) (destination : Contract) (parameters : p)
  | Origination (credit : Tez) (delegate : Option Public_key_hash) (script : s)
  | Delegation (delegate : Option Public_key_hash)

structure Manager_header where
  source : Public_key_hash
  fee : Mine
  counter : ℤ
  gas_limit : ℤ
  storage_limit : ℤ

inductive Contents (p s : Type) where
  | Endorsement (level : Int32)
  | Seed_nonce_revelation (level : Int32) (nonce : Fixed 32)
  | Double_endorsement_evidence (op1 op2 : Inlined_endorsement)
  | Double_baking_evidence (bh1 bh2 : Block_header)
  | Activate_account (id : Fixed 20) (activation_code : Fixed 20)
  | Proposals (source : Public_key_hash) (period : Int32) (proposals : List (Fixed 32))
  | Ballot (source : Public_key_hash) (period : Int32) (proposal : Fixed 32) (ballot : Ballot)
  | Manager_operation (header : Manager_header) (operation : Manager_operation p s)

variable {p s : Type}

/-! The cases of manager operations, under the tags of internal operations. -/

def manager_reveal_case : Case (Manager_operation p s) :=
  ⟨0, Codecs.Public_key, Codecs.public_key, fun | .Reveal k => some k | _ => none, .Reveal⟩

variable (parameters : Encoding p) (script : Encoding s)

def manager_transaction_case : Case (Manager_operation p s) :=
  ⟨1, Tez × Contract × p, pair (qty_encoding .tez) (pair contract_encoding parameters),
    fun | .Transaction amount destination parameters => some (amount, destination, parameters)
        | _ => none,
    fun (amount, destination, parameters) => .Transaction amount destination parameters⟩

def manager_origination_case (script : Encoding s) : Case (Manager_operation p s) :=
  ⟨2, Tez × Option Public_key_hash × s,
    pair (qty_encoding .tez) (pair (opt public_key_hash_encoding) script),
    fun | .Origination credit delegate script => some (credit, delegate, script) | _ => none,
    fun (credit, delegate, script) => .Origination credit delegate script⟩

def manager_delegation_case : Case (Manager_operation p s) :=
  ⟨3, Option Public_key_hash, opt public_key_hash_encoding,
    fun | .Delegation key => some key | _ => none, .Delegation⟩

def manager_mine_transaction_case : Case (Manager_operation p s) :=
  ⟨4, Mine × Contract × p, pair (qty_encoding .mine) (pair contract_encoding parameters),
    fun | .MineTransaction amount destination parameters => some (amount, destination, parameters)
        | _ => none,
    fun (amount, destination, parameters) => .MineTransaction amount destination parameters⟩

/-! The cases of contents. -/

def endorsement_case : Case (Contents p s) :=
  ⟨0, Int32, int32, fun | .Endorsement level => some level | _ => none, .Endorsement⟩

def seed_nonce_revelation_case : Case (Contents p s) :=
  ⟨1, Int32 × Fixed 32, pair int32 (fixed 32),
    fun | .Seed_nonce_revelation level nonce => some (level, nonce) | _ => none,
    fun (level, nonce) => .Seed_nonce_revelation level nonce⟩

def double_endorsement_evidence_case : Case (Contents p s) :=
  ⟨2, Inlined_endorsement × Inlined_endorsement,
    pair (dynamic_size inlined_endorsement_encoding) (dynamic_size inlined_endorsement_encoding),
    fun | .Double_endorsement_evidence op1 op2 => some (op1, op2) | _ => none,
    fun (op1, op2) => .Double_endorsement_evidence op1 op2⟩

def double_baking_evidence_case : Case (Contents p s) :=
  ⟨3, Block_header × Block_header,
    pair (dynamic_size (whole block_header_encoding)) (dynamic_size (whole block_header_encoding)),
    fun | .Double_baking_evidence bh1 bh2 => some (bh1, bh2) | _ => none,
    fun (bh1, bh2) => .Double_baking_evidence bh1 bh2⟩

def activate_account_case : Case (Contents p s) :=
  ⟨4, Fixed 20 × Fixed 20, pair (fixed 20) (fixed 20),
    fun | .Activate_account id activation_code => some (id, activation_code) | _ => none,
    fun (id, activation_code) => .Activate_account id activation_code⟩

def proposals_case : Case (Contents p s) :=
  ⟨5, Public_key_hash × Int32 × List (Fixed 32),
    pair public_key_hash_encoding (pair int32 (dynamic_size (list_variable (fixed 32)))),
    fun | .Proposals source period proposals => some (source, period, proposals) | _ => none,
    fun (source, period, proposals) => .Proposals source period proposals⟩

def ballot_case : Case (Contents p s) :=
  ⟨6, Public_key_hash × Int32 × Fixed 32 × Ballot,
    pair public_key_hash_encoding (pair int32 (pair (fixed 32) ballot_encoding)),
    fun | .Ballot source period proposal ballot => some (source, period, proposal, ballot)
        | _ => none,
    fun (source, period, proposal, ballot) => .Ballot source period proposal ballot⟩

def manager_encoding : Encoding Manager_header :=
  conv (fun h => some (h.source, h.fee, h.counter, h.gas_limit, h.storage_limit))
    (fun (source, fee, counter, gas_limit, storage_limit) =>
      some { source, fee, counter, gas_limit, storage_limit })
    (pair public_key_hash_encoding (pair (qty_encoding .mine)
      (pair z_encoding (pair z_encoding z_encoding))))

def make_manager_case (tag : UInt8) (mcase : Case (Manager_operation p s)) : Case (Contents p s) :=
  ⟨tag, Manager_header × mcase.content, pair manager_encoding mcase.encoding,
    fun | .Manager_operation header operation => (mcase.proj operation).map fun x => (header, x)
        | _ => none,
    fun (header, x) => .Manager_operation header (mcase.inj x)⟩

def contents_encoding : Encoding (Contents p s) :=
  union
    [endorsement_case, seed_nonce_revelation_case, double_endorsement_evidence_case,
      double_baking_evidence_case, activate_account_case, proposals_case, ballot_case,
      make_manager_case 107 manager_reveal_case,
      make_manager_case 108 (manager_transaction_case parameters),
      make_manager_case 111 (manager_mine_transaction_case parameters),
      make_manager_case 109 (manager_origination_case script),
      make_manager_case 110 manager_delegation_case]

def is_manager : Contents p s → Bool
  | .Manager_operation _ _ => true
  | _ => false

/-- What `of_list` accepts: one operation, or several manager operations. The
empty list fails an assertion. -/
def is_contents_list : List (Contents p s) → Bool
  | [] => false
  | [_] => true
  | [o, o'] => is_manager o && is_manager o'
  | o :: os => is_contents_list os && is_manager o

structure Contents_list (p s : Type) where
  list : List (Contents p s)
  valid : is_contents_list list = true

def to_list (contents : Contents_list p s) : List (Contents p s) := contents.list

def of_list (list : List (Contents p s)) : Option (Contents_list p s) :=
  if h : is_contents_list list = true then some ⟨list, h⟩ else none

structure Operation (p s : Type) where
  branch : Fixed 32
  contents : Contents_list p s
  signature : Option Signature

def contents_list_encoding :
    Variable_encoding (Contents_list p s) :=
  conv_variable (fun c => some (to_list c)) of_list
    (list_variable (contents_encoding parameters script))

/-- `optional_signature_encoding`: no signature is written as one made of
zeros. -/
def protocol_data_encoding :
    Variable_encoding (Contents_list p s × Option Signature) :=
  conv_variable (fun (contents, signature) => some (contents, signature.getD signature_zero))
    (fun (contents, signature) =>
      some (contents, if signature = signature_zero then none else some signature))
    (followed (contents_list_encoding parameters script) 64)

def operation_encoding :
    Variable_encoding (Operation p s) :=
  conv_variable (fun o => some (o.branch, o.contents, o.signature))
    (fun (branch, contents, signature) => some { branch, contents, signature })
    (pair_variable (fixed 32) (protocol_data_encoding parameters script))

/-! Scripts and parameters as the protocol keeps them. -/

/-- A lazily decoded expression: when it holds both its bytes and its value,
the value was decoded from the bytes. A value alone is well annotated. -/
inductive Lazy_expr where
  | Value (value : Expr) (annotated : well_annotated value)
  | Bytes (bytes : Bytes)
  | Both (bytes : Bytes) (value : Expr) (decoded : Codecs.expr_of_bytes bytes = some value)

def force_bytes : Lazy_expr → Option Bytes
  | .Value v _ => Codecs.expr_to_bytes v
  | .Bytes b => some b
  | .Both b _ _ => some b

/-- `Data_encoding.lazy_encoding expr_encoding` -/
def lazy_expr_encoding : Encoding Lazy_expr := conv force_bytes (fun b => some (.Bytes b)) bytes

def unit_parameter : Lazy_expr := .Value (.Prim .D_Unit [] []) rfl

def is_unit : Expr → Bool
  | .Prim .D_Unit [] [] => true
  | _ => false

/-- An expression that was forced is judged by its value, another one by its
bytes. -/
def is_unit_parameter : Lazy_expr → Bool
  | .Value v _ => is_unit v
  | .Bytes b => b == Codecs.unit_bytes
  | .Both _ v _ => is_unit v

def name (chars : List Char) : Bytes := chars.map Char.toUInt8

def default_name : Bytes := name ['d', 'e', 'f', 'a', 'u', 'l', 't']

def root_name : Bytes := name ['r', 'o', 'o', 't']

def do_name : Bytes := name ['d', 'o']

def set_delegate_name : Bytes := name ['s', 'e', 't', '_', 'd', 'e', 'l', 'e', 'g', 'a', 't', 'e']

def remove_delegate_name : Bytes :=
  name ['r', 'e', 'm', 'o', 'v', 'e', '_', 'd', 'e', 'l', 'e', 'g', 'a', 't', 'e']

def builtin_case (tag : UInt8) (name : Bytes) : Case Bytes :=
  ⟨tag, Unit, constant, fun n => if n = name then some () else none, fun () => name⟩

def entrypoint_encoding : Encoding Bytes :=
  union
    [builtin_case 0 default_name, builtin_case 1 root_name, builtin_case 2 do_name,
      builtin_case 3 set_delegate_name, builtin_case 4 remove_delegate_name,
      ⟨255, Bytes, bounded_string 31, some, id⟩]

structure Parameters where
  entrypoint : Bytes
  parameters : Lazy_expr

/-- The field of a transaction: absent for the default entrypoint and the unit
value. -/
def parameters_encoding : Encoding Parameters :=
  conv
    (fun x => some (if is_unit_parameter x.parameters && x.entrypoint == default_name then none
      else some (x.entrypoint, x.parameters)))
    (fun
      | none => some ⟨default_name, unit_parameter⟩
      | some (entrypoint, value) => some ⟨entrypoint, value⟩)
    (opt (pair entrypoint_encoding lazy_expr_encoding))

/-- The script of an origination, and the address that was drawn for it when
it comes from another script. -/
structure Origination_script where
  code : Lazy_expr
  storage : Lazy_expr
  preorigination : Option Contract

/-- The address is not written. -/
def script_encoding : Encoding Origination_script :=
  conv (fun x => some (x.code, x.storage))
    (fun (code, storage) => some { code, storage, preorigination := none })
    (pair lazy_expr_encoding lazy_expr_encoding)

/-- Operations as the protocol keeps them. -/
abbrev Packed_operation := Operation Parameters Origination_script

def encoding : Variable_encoding Packed_operation :=
  operation_encoding parameters_encoding script_encoding

def to_bytes (o : Packed_operation) : Option Bytes := encoding.write o

def of_bytes (bs : Bytes) : Option Packed_operation := encoding.read bs

/-- `Operation.hash_raw`, of what the shell received. -/
def hash_raw (bs : Bytes) : Codecs.Operation_hash := Codecs.hash_bytes bs

/-- `Operation_repr.hash`: the bytes of the protocol data are made anew and put
after the header of the shell. -/
def hash (o : Packed_operation) : Option Codecs.Operation_hash :=
  ((protocol_data_encoding parameters_encoding script_encoding).write (o.contents, o.signature)).map
    fun proto => Codecs.hash_bytes (o.branch.val ++ proto)

end Operations

end plexus.operation_encoding
