import Plexus.Qty

namespace plexus

/-- The gas left to an operation. -/
inductive Gas where
  | Unaccounted
  | Limited (remaining : ℤ)
deriving DecidableEq, Repr

structure Cost where
  allocations : ℤ
  steps : ℤ
  reads : ℤ
  writes : ℤ
  bytes_read : ℤ
  bytes_written : ℤ
deriving DecidableEq, Repr

namespace gas_limit_repr

def allocation_weight : ℤ := 2

def step_weight : ℤ := 1

def read_base_weight : ℤ := 100

def write_base_weight : ℤ := 160

def byte_read_weight : ℤ := 10

def byte_written_weight : ℤ := 15

def rescaling_bits : Nat := 7

def scale (z : ℤ) : ℤ := z * 2 ^ rescaling_bits

/-- An arithmetic shift to the right rounds down. -/
def rescale (z : ℤ) : ℤ := z / 2 ^ rescaling_bits

def cost_to_internal_gas (cost : Cost) : ℤ :=
  cost.allocations * allocation_weight + cost.steps * step_weight +
    (cost.reads * read_base_weight + cost.writes * write_base_weight +
      (cost.bytes_read * byte_read_weight + cost.bytes_written * byte_written_weight))

def internal_gas_to_gas (internal_gas : ℤ) : ℤ × ℤ :=
  (rescale internal_gas, internal_gas % 2 ^ rescaling_bits)

def consume (block_gas : ℤ) (operation_gas : Gas) (internal_gas : ℤ) (cost : Cost) :
    Tzresult (ℤ × Gas × ℤ) :=
  match operation_gas with
  | .Unaccounted => .ok (block_gas, .Unaccounted, internal_gas)
  | .Limited remaining =>
    let total_internal_gas := cost_to_internal_gas cost + internal_gas
    let gas := (internal_gas_to_gas total_internal_gas).1
    let rest := (internal_gas_to_gas total_internal_gas).2
    if 0 < gas then
      if remaining - gas < 0 then fail .Operation_quota_exceeded
      else if block_gas - gas < 0 then fail .Block_quota_exceeded
      else .ok (block_gas - gas, .Limited (remaining - gas), rest)
    else .ok (block_gas, operation_gas, total_internal_gas)

def check_enough (block_gas : ℤ) (operation_gas : Gas) (internal_gas : ℤ) (cost : Cost) :
    Tzresult Unit := do
  let _ ← consume block_gas operation_gas internal_gas cost
  pure ()

def internal_gas_zero : ℤ := 0

def free : Cost := ⟨0, 0, 0, 0, 0, 0⟩

variable (n : ℤ)

def alloc_cost : Cost := { free with allocations := scale (n + 1) }

def alloc_bytes_cost : Cost := alloc_cost ((n + 7).tdiv 8)

def atomic_step_cost : Cost := { free with steps := 2 * n }

def step_cost : Cost := { free with steps := scale n }

def read_bytes_cost : Cost := { free with reads := scale 1, bytes_read := scale n }

def write_bytes_cost : Cost := { free with writes := 1, bytes_written := scale n }

def add (x y : Cost) : Cost where
  allocations := x.allocations + y.allocations
  steps := x.steps + y.steps
  reads := x.reads + y.reads
  writes := x.writes + y.writes
  bytes_read := x.bytes_read + y.bytes_read
  bytes_written := x.bytes_written + y.bytes_written

def mul (x : ℤ) (y : Cost) : Cost where
  allocations := x * y.allocations
  steps := x * y.steps
  reads := x * y.reads
  writes := x * y.writes
  bytes_read := x * y.bytes_read
  bytes_written := x * y.bytes_written

def alloc_mbytes_cost : Cost := add (alloc_cost 12) (alloc_bytes_cost n)

/-- The cost of any manager operation, from `Michelson_v1_gas`. -/
def manager_operation : Cost := step_cost 10000

end gas_limit_repr

/-! Costs of script expressions. -/

namespace script_repr

open gas_limit_repr

/-- Number of significant bits of an integer. -/
def numbits (z : ℤ) : ℕ := if z = 0 then 0 else Nat.log2 z.natAbs + 1

def int_node_size (n : ℤ) : ℤ × ℤ := (1, 1 + ((numbits n + 63) / 64 : ℕ))

def string_node_size (s : String) : ℤ × ℤ := (1, 1 + ((s.utf8ByteSize + 7) / 8 : ℕ))

def bytes_node_size (s : MBytes) : ℤ × ℤ := (2, 1 + ((s.length + 7) / 8 : ℕ) + 12)

def prim_node_size_nonrec (args : List Expr) (annots : List String) : ℤ × ℤ :=
  let n_args : ℤ := args.length
  let annots_length := (annots.map String.utf8ByteSize).sum
  if annots_length = 0 then (1 + n_args, 2 + 2 * n_args)
  else (2 + n_args, 4 + 2 * n_args + ((annots_length + 7) / 8 : ℕ))

def seq_node_size_nonrec (args : List Expr) : ℤ × ℤ :=
  let n_args : ℤ := args.length
  (1 + n_args, 2 + 2 * n_args)

mutual

/-- Blocks and words taken by an expression. -/
def node_size : Expr → ℤ × ℤ
  | .Int n => int_node_size n
  | .String s => string_node_size s
  | .Bytes s => bytes_node_size s
  | .Prim _ args annots => add_node_sizes (prim_node_size_nonrec args annots) args
  | .Seq args => add_node_sizes (seq_node_size_nonrec args) args

/-- The fold over the arguments of a node. -/
def add_node_sizes (acc : ℤ × ℤ) : List Expr → ℤ × ℤ
  | [] => acc
  | node :: rest =>
    add_node_sizes (acc.1 + (node_size node).1, acc.2 + (node_size node).2) rest

end

def cost_of_size (size : ℤ × ℤ) : Cost :=
  add (add (mul (max 0 (size.1 - 1)) (alloc_cost 0)) (alloc_cost size.2)) (step_cost size.1)

def traversal_cost (node : Expr) : Cost := step_cost (node_size node).1

def deserialized_cost (expr : Expr) : Cost := cost_of_size (node_size expr)

def serialized_cost (bytes : MBytes) : Cost := alloc_mbytes_cost bytes.length

def minimal_deserialize_cost : Lazy_expr → Cost
  | .Value _ => free
  | .Bytes b => serialized_cost b
  | .Both _ _ => free

end script_repr

end plexus
