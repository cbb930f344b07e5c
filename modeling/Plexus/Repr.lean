import Plexus.Lib.Micheline
import Mathlib.Data.Finset.Sort
import Mathlib.Data.Prod.Lex
import Mathlib.Order.Lattice

namespace plexus

/-! Keys, hashes and byte strings. A hash or a key is read as a number: the
protocol only compares them. -/

abbrev MBytes := List UInt8

inductive Public_key_hash where
  | Ed25519 (hash : Nat)
  | Secp256k1 (hash : Nat)
  | P256 (hash : Nat)
deriving DecidableEq, Repr

inductive Public_key where
  | Ed25519 (key : Nat)
  | Secp256k1 (key : Nat)
  | P256 (key : Nat)
deriving DecidableEq, Repr

namespace Public_key_hash

/-- The position of a hash in the order of `compare`, which maps use. -/
def rank : Public_key_hash → ℕ ×ₗ ℕ
  | Ed25519 h => toLex (0, h)
  | Secp256k1 h => toLex (1, h)
  | P256 h => toLex (2, h)

theorem rank_injective : Function.Injective rank := by
  intro a b h
  cases a <;> cases b <;> simp_all [rank, Prod.ext_iff]

instance : LinearOrder Public_key_hash := LinearOrder.lift' rank rank_injective

instance : IsTrans Public_key_hash (· ≤ ·) := inferInstance

instance : Std.Antisymm (fun a b : Public_key_hash => a ≤ b) := inferInstance

/-- The position of a hash in storage folds, which follow the names of paths:
`ed25519`, `p256`, `secp256k1`. -/
def path_rank : Public_key_hash → ℕ ×ₗ ℕ
  | Ed25519 h => toLex (0, h)
  | P256 h => toLex (1, h)
  | Secp256k1 h => toLex (2, h)

theorem path_rank_injective : Function.Injective path_rank := by
  intro a b h
  cases a <;> cases b <;> simp_all [path_rank, Prod.ext_iff]

/-- The order in which storage folds go through a set of hashes. -/
def in_path_order (s : Finset Public_key_hash) : List Public_key_hash :=
  let _ := LinearOrder.lift' path_rank path_rank_injective
  s.sort

variable {s : Finset Public_key_hash}

theorem mem_in_path_order {pkh : Public_key_hash} : pkh ∈ in_path_order s ↔ pkh ∈ s :=
  let _ := LinearOrder.lift' path_rank path_rank_injective
  Finset.mem_sort _

theorem nodup_in_path_order : (in_path_order s).Nodup :=
  let _ := LinearOrder.lift' path_rank path_rank_injective
  s.sort_nodup _

theorem toFinset_in_path_order : (in_path_order s).toFinset = s := by
  ext pkh
  rw [List.mem_toFinset, mem_in_path_order]

end Public_key_hash

structure Contract_hash where
  hash : Nat
deriving DecidableEq, Repr

structure Operation_hash where
  hash : Nat
deriving DecidableEq, Repr

structure Block_hash where
  hash : Nat
deriving DecidableEq, Repr

/-- The hashes from which randomness is drawn. -/
structure State_hash where
  bytes : MBytes
  length_bytes : bytes.length = 32
deriving DecidableEq

structure Chain_id where
  id : Nat
deriving DecidableEq, Repr

/-! Quantities of the two tokens. -/

inductive Token where
  | tez
  | mine
deriving DecidableEq, Repr

/-- An amount of one of the two tokens: a 64-bit integer that is never
negative. -/
structure Qty (id : Token) where
  int64 : Int64
  nonneg : 0 ≤ int64
deriving DecidableEq

abbrev Tez := Qty .tez

abbrev Mine := Qty .mine

/-! Contracts. -/

inductive Contract where
  | Implicit (pkh : Public_key_hash)
  | Originated (hash : Contract_hash)
deriving DecidableEq, Repr

namespace contract_repr

def implicit_contract (id : Public_key_hash) : Contract := .Implicit id

def is_implicit : Contract → Option Public_key_hash
  | .Implicit m => some m
  | .Originated _ => none

theorem is_implicit_eq_some_iff {c : Contract} {pkh : Public_key_hash} :
    is_implicit c = some pkh ↔ c = implicit_contract pkh := by
  cases c <;> simp [is_implicit, implicit_contract]

theorem implicit_contract_injective : Function.Injective implicit_contract := by
  intro a b h
  exact Contract.Implicit.inj h

@[simp] theorem implicit_contract_inj {a b : Public_key_hash} :
    implicit_contract a = implicit_contract b ↔ a = b := implicit_contract_injective.eq_iff

/-- The nonce from which the addresses originated by one operation are
derived. The index is 32-bit in the source; an operation cannot originate that
many contracts. -/
structure Origination_nonce where
  operation_hash : Operation_hash
  origination_index : Nat
deriving DecidableEq, Repr

def initial_origination_nonce (operation_hash : Operation_hash) : Origination_nonce :=
  { operation_hash, origination_index := 0 }

def incr_origination_nonce (nonce : Origination_nonce) : Origination_nonce :=
  { nonce with origination_index := nonce.origination_index + 1 }

end contract_repr

inductive Manager_key where
  | Hash (hash : Public_key_hash)
  | Public_key (key : Public_key)
deriving DecidableEq, Repr

/-! Cycles and levels are counted with natural numbers. The source keeps them
in 32 bits, as it does the levels of block headers. -/

abbrev Cycle := Nat

abbrev Raw_level := Nat

abbrev Voting_period := Nat

structure Level where
  level : Raw_level
  level_position : Nat
  cycle : Cycle
  cycle_position : Nat
  voting_period : Voting_period
  voting_period_position : Nat
  expected_commitment : Bool
deriving DecidableEq, Repr

namespace cycle_repr

def root : Cycle := 0

def succ (c : Cycle) : Cycle := c + 1

def pred : Cycle → Option Cycle
  | 0 => none
  | i + 1 => some i

/-- The assertion of the source on the offset holds at every call: each adds
one to a constant. -/
def add (c : Cycle) (i : Nat) : Cycle := c + i

end cycle_repr

namespace level_repr

def from_raw (first_level : Raw_level)
    (blocks_per_cycle blocks_per_voting_period blocks_per_commitment : Nat) (level : Raw_level) :
    Level :=
  let level_position := level - first_level
  let cycle_position := level_position % blocks_per_cycle
  { level
    level_position
    cycle := level_position / blocks_per_cycle
    cycle_position
    voting_period := level_position / blocks_per_voting_period
    voting_period_position := level_position % blocks_per_voting_period
    expected_commitment := cycle_position % blocks_per_commitment == blocks_per_commitment - 1 }

end level_repr

/-- Roll numbers are 32-bit and their successor wraps. -/
abbrev Roll := Int32

namespace roll_repr

def first : Roll := 0

def succ (i : Roll) : Roll := i + 1

end roll_repr

/-! Scripts. -/

/-- The primitives of the Michelson language. -/
inductive Prim where
  | K_parameter | K_storage | K_code | D_False | D_Elt | D_Left | D_None | D_Pair | D_Right
  | D_Some | D_True | D_Unit | I_PACK | I_UNPACK | I_BLAKE2B | I_SHA256 | I_SHA512 | I_ABS
  | I_ADD | I_AMOUNT | I_AND | I_BALANCE | I_CAR | I_CDR | I_CHAIN_ID | I_CHECK_SIGNATURE
  | I_COMPARE | I_CONCAT | I_CONS | I_CREATE_ACCOUNT | I_CREATE_CONTRACT | I_IMPLICIT_ACCOUNT
  | I_DIP | I_DROP | I_DUP | I_EDIV | I_EMPTY_BIG_MAP | I_EMPTY_MAP | I_EMPTY_SET | I_EQ | I_EXEC
  | I_APPLY | I_FAILWITH | I_GE | I_GET | I_GT | I_HASH_KEY | I_IF | I_IF_CONS | I_IF_LEFT
  | I_IF_NONE | I_INT | I_LAMBDA | I_LE | I_LEFT | I_LOOP | I_LSL | I_LSR | I_LT | I_MAP | I_MEM
  | I_MUL | I_NEG | I_NEQ | I_NIL | I_NONE | I_NOT | I_NOW | I_OR | I_PAIR | I_PUSH | I_RIGHT
  | I_SIZE | I_SOME | I_SOURCE | I_SENDER | I_SELF | I_SLICE | I_STEPS_TO_QUOTA | I_SUB | I_SWAP
  | I_TRANSFER_TOKENS | I_TRANSFER_MINE_TOKENS | I_SET_DELEGATE | I_UNIT | I_UPDATE | I_XOR
  | I_ITER | I_LOOP_LEFT | I_ADDRESS | I_CONTRACT | I_ISNAT | I_CAST | I_RENAME | I_DIG | I_DUG
  | T_bool | T_contract | T_int | T_key | T_key_hash | T_lambda | T_list | T_map | T_big_map
  | T_nat | T_option | T_or | T_pair | T_set | T_signature | T_string | T_bytes | T_mutez
  | T_timestamp | T_unit | T_operation | T_address | T_chain_id
deriving DecidableEq, Repr

/-- Micheline expressions without locations. -/
inductive Expr where
  | Int (value : Int)
  | String (value : String)
  | Bytes (value : MBytes)
  | Prim (prim : Prim) (args : List Expr) (annot : List String)
  | Seq (args : List Expr)

/-- Expressions with locations, as the typechecker of scripts reads and writes
them. -/
abbrev Script_node := Micheline.Node Int Prim

/-- What an error says was found or expected in a script. -/
inductive Kind where
  | Int_kind
  | String_kind
  | Bytes_kind
  | Prim_kind
  | Seq_kind
deriving DecidableEq, Repr

inductive Namespace where
  | Type_namespace
  | Constant_namespace
  | Instr_namespace
  | Keyword_namespace
deriving DecidableEq, Repr

/-- A lazily decoded expression: its value, its bytes, or both once it has
been forced. -/
inductive Lazy_expr where
  | Value (value : Expr)
  | Bytes (bytes : MBytes)
  | Both (bytes : MBytes) (value : Expr)

structure Script where
  code : Lazy_expr
  storage : Lazy_expr

/-- One change to the big maps of a contract. -/
inductive Big_map_diff_item where
  | Update (big_map : Int) (diff_key : Expr) (diff_key_hash : Nat) (diff_value : Option Expr)
  | Clear (id : Int)
  | Copy (source : Int) (dest : Int)
  | Alloc (big_map : Int) (key_type : Expr) (value_type : Expr)

abbrev Big_map_diff := List Big_map_diff_item

end plexus
