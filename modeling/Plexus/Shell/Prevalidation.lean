import Mathlib.Data.Finset.Basic
import Plexus.Lib.Result

/-! Validation of single operations by the shell, and the traversals of the
chain it uses. -/

namespace plexus.shell

abbrev Block_hash := Nat

abbrev Operation_hash := Nat

/-- An operation as the shell sees it: the branch of its shell header, and the
bytes only the protocol understands. -/
structure Operation where
  branch : Block_hash
  proto : List UInt8
deriving DecidableEq, Repr

/-- The errors of the shell, next to those of the protocol. -/
inductive Error (E : Type) where
  | Oversized_operation (size max : Nat)
  | Parse_error
  | Cannot_serialize_operation_metadata
  | Exn (exn : String)
  | Block_not_found (hash : Block_hash)
  | Error_while_applying (oph : Operation_hash)
  | Proto (error : E)
deriving DecidableEq, Repr

/-- Failed assertions. -/
inductive Exn where
  | Assert_false
deriving DecidableEq, Repr

abbrev Tzresult (E α : Type) := Result (List (Error E)) Exn α

/-- The categories of `classify_errors`. -/
inductive Category where
  | Branch
  | Permanent
  | Temporary
deriving DecidableEq, Repr

/-- What a block of the chain is read for. -/
structure Header where
  hash : Block_hash
  timestamp : Int
  operations : List (List Operation)
  max_operations_ttl : Nat
deriving DecidableEq, Repr

/-- A block, with its ancestors from its predecessor down to the first block. -/
structure Block where
  header : Header
  ancestors : List Header
deriving DecidableEq, Repr

/-- A protocol, as it is registered in the shell, with the codecs of its
operations and receipts. `classify_error` is the category of an error, and
`reserialize` the receipt read back from its own bytes, or the exception this
raises. `begin_construction` includes what the shell does to the context of the
predecessor before the protocol sees it. -/
structure Registered_protocol where
  validation_state : Type
  operation_data : Type
  operation_receipt : Type
  error : Type
  max_operation_data_length : Nat
  operation_data_of_bytes : List UInt8 → Option operation_data
  reserialize : operation_receipt → Except String operation_receipt
  acceptable_passes : Block_hash → operation_data → List Nat
  classify_error : Error error → Category
  begin_construction : Block → Int → Tzresult error validation_state
  apply_operation : validation_state → Block_hash → operation_data →
    Except (List (Error error)) (validation_state × operation_receipt)

/-- The functions of the shell that the prevalidator takes as they are: hashes
and sizes of operations, the blocks of the chain, and its first block. -/
class Node where
  hash : Operation → Operation_hash
  length : Operation → Nat
  read : Block_hash → Option Block
  genesis : Block_hash

namespace chain_traversal

/-- The predecessor of a block. -/
def predecessor (block : Block) : Option Block :=
  match block.ancestors with
  | [] => none
  | header :: ancestors => some ⟨header, ancestors⟩

/-- The blocks above `b1` on the way up to `b2`, the lowest first. -/
def path (b1 : Block) (header : Header) (ancestors : List Header) (acc : List Header) :
    Option (List Header) :=
  if b1.header.hash = header.hash then some acc
  else
    match ancestors with
    | [] => none
    | pred :: ancestors => path b1 pred ancestors (header :: acc)

/-- The last block two branches share. Every round goes one block down, so
`fuel` is the number of blocks below the two. -/
def common_ancestor {E : Type} (fuel : Nat) (b1 b2 : Block) : Tzresult E Block :=
  match fuel with
  | 0 => .div
  | fuel + 1 =>
    if b1.header.hash = b2.header.hash then .ok b1
    else if b1.header.timestamp ≤ b2.header.timestamp then
      match predecessor b2 with
      | none => .raise .Assert_false
      | some b2 => common_ancestor fuel b1 b2
    else
      match predecessor b1 with
      | none => .raise .Assert_false
      | some b1 => common_ancestor fuel b1 b2

def new_blocks {E : Type} (from_block to_block : Block) : Tzresult E (Block × List Header) := do
  let ancestor ← common_ancestor (from_block.ancestors.length + to_block.ancestors.length + 1)
    from_block to_block
  match path ancestor to_block.header to_block.ancestors [] with
  | none => .raise .Assert_false
  | some path => return (ancestor, path)

variable [Node]

def operation_hashes (header : Header) : List Operation_hash :=
  header.operations.flatten.map Node.hash

def live_blocks_loop {E : Type} (bacc : Finset Block_hash) (oacc : Finset Operation_hash)
    (header : Header) (ancestors : List Header) (n : Nat) :
    Tzresult E (Finset Block_hash × Finset Operation_hash) :=
  let oacc := (operation_hashes header).foldl (fun oacc op => insert op oacc) oacc
  let bacc := insert header.hash bacc
  if n = 0 then .ok (bacc, oacc)
  else
    match ancestors with
    | [] => if Node.genesis = header.hash then .ok (bacc, oacc) else .error [.Block_not_found header.hash]
    | pred :: ancestors => live_blocks_loop bacc oacc pred ancestors (n - 1)

/-- The blocks an operation may be based on, and the operations they contain. -/
def live_blocks {E : Type} (block : Block) (n : Nat) :
    Tzresult E (Finset Block_hash × Finset Operation_hash) :=
  live_blocks_loop ∅ ∅ block.header block.ancestors n

end chain_traversal

/-- Hashes that are added to a set one after the other. -/
theorem mem_foldl_insert {hashes : List Nat} {acc : Finset Nat} {hash : Nat} :
    hash ∈ hashes.foldl (fun acc h => insert h acc) acc ↔ hash ∈ acc ∨ hash ∈ hashes := by
  induction hashes generalizing acc with
  | nil => simp
  | cons h hashes ih =>
    rw [List.foldl_cons, ih, Finset.mem_insert, List.mem_cons]
    tauto

/-- The worst category of the errors of a trace. -/
def classify_errors {E : Type} (classify_error : Error E → Category) (trace : List (Error E)) :
    Category :=
  trace.foldl (fun r e =>
    match r, classify_error e with
    | .Permanent, _ => .Permanent
    | _, .Permanent => .Permanent
    | .Branch, _ => .Branch
    | _, .Branch => .Branch
    | .Temporary, .Temporary => .Temporary) .Temporary

namespace prevalidation

variable (Proto : Registered_protocol) [Node]

structure Parsed where
  hash : Operation_hash
  raw : Operation
  protocol_data : Proto.operation_data

/-- The state of the prevalidation of a block. -/
structure T where
  state : Proto.validation_state
  applied : List (Parsed Proto × Proto.operation_receipt)
  live_blocks : Finset Block_hash
  live_operations : Finset Operation_hash

inductive Outcome where
  | Applied (pv : T Proto) (receipt : Proto.operation_receipt)
  | Branch_delayed (errors : List (Error Proto.error))
  | Branch_refused (errors : List (Error Proto.error))
  | Refused (errors : List (Error Proto.error))
  | Duplicate
  | Outdated

def parse (raw : Operation) : Except (List (Error Proto.error)) (Parsed Proto) :=
  let size := Node.length raw
  if size > Proto.max_operation_data_length then
    .error [.Oversized_operation size Proto.max_operation_data_length]
  else
    match Proto.operation_data_of_bytes raw.proto with
    | none => .error [.Parse_error]
    | some protocol_data => .ok ⟨Node.hash raw, raw, protocol_data⟩

def create (predecessor : Block) (timestamp : Int) : Tzresult Proto.error (T Proto) := do
  let live ← chain_traversal.live_blocks predecessor predecessor.header.max_operations_ttl
  let state ← Proto.begin_construction predecessor timestamp
  return ⟨state, [], live.1, live.2⟩

variable {Proto}

omit [Node] in
def apply_operation (pv : T Proto) (op : Parsed Proto) : Outcome Proto :=
  if op.hash ∈ pv.live_operations then .Outdated
  else
    match Proto.apply_operation pv.state op.raw.branch op.protocol_data with
    | .ok (state, receipt) =>
      let pv : T Proto := ⟨state, (op, receipt) :: pv.applied, pv.live_blocks,
        insert op.hash pv.live_operations⟩
      match Proto.reserialize receipt with
      | .ok receipt => .Applied pv receipt
      | .error exn => .Refused [.Cannot_serialize_operation_metadata, .Exn exn]
    | .error errors =>
      match classify_errors Proto.classify_error errors with
      | .Branch => .Branch_refused errors
      | .Permanent => .Refused errors
      | .Temporary => .Branch_delayed errors

end prevalidation

end plexus.shell
