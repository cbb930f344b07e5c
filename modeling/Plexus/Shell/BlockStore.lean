import Mathlib.Data.Nat.Log
import Mathlib.Logic.Equiv.List
import Mathlib.Tactic.Ring
import Plexus.Lib.Fuel
import Plexus.Shell.Prevalidation

/-! The block store of the shell (`state.ml`, `store.ml`): the tables kept for
every block, the pointers to its ancestors, and the data of the chain. -/

namespace plexus.state

open Nat

abbrev Block_hash := shell.Block_hash

abbrev Operation_hash := shell.Operation_hash

abbrev Operation := shell.Operation

abbrev Context_hash := Nat

abbrev Bytes := List UInt8

/-- A score of a chain: a list of byte strings. -/
abbrev Fitness := List Bytes

namespace Fitness

/-- Shorter strings are smaller, and strings of the same length are compared
byte by byte. -/
def compare_bytes (b1 b2 : Bytes) : Ordering :=
  (Ord.compare b1.length b2.length).then (List.compareLex Ord.compare b1 b2)

/-- Shorter lists are smaller, and lists of the same length are compared
element by element. -/
def compare (f1 f2 : Fitness) : Ordering :=
  (Ord.compare f1.length f2.length).then (List.compareLex compare_bytes f1 f2)

end Fitness

structure Shell_header where
  level : Nat
  proto_level : Nat
  predecessor : Block_hash
  timestamp : Int
  validation_passes : Nat
  operations_hash : Nat
  fitness : Fitness
  context : Context_hash
deriving DecidableEq, Repr

structure Block_header where
  shell : Shell_header
  protocol_data : Bytes
deriving DecidableEq, Repr

/-- The comparison of headers does not look at all of their fields. -/
def Block_header.equal (b1 b2 : Block_header) : Bool :=
  b1.shell.predecessor = b2.shell.predecessor &&
    b1.protocol_data = b2.protocol_data &&
    b1.shell.operations_hash = b2.shell.operations_hash &&
    b1.shell.timestamp = b2.shell.timestamp &&
    b1.shell.fitness = b2.shell.fitness

structure Genesis where
  block : Block_hash
  time : Int
deriving DecidableEq, Repr

/-- The hash functions, and the first block of the chain with the hash of the
context committed for it. Hashes are taken to be free of collisions: a header
and an operation are determined by their hash, and the hash chosen for the first
block is the hash of no header. -/
class Chain_env where
  hash : Block_header → Block_hash
  operation_hash : Operation → Operation_hash
  genesis : Genesis
  commit_genesis : Context_hash
  operations_hash_empty : Nat
  hash_injective : Function.Injective hash
  operation_hash_injective : Function.Injective operation_hash
  hash_ne_genesis : ∀ header, hash header ≠ genesis.block

/-- All that is in a header. -/
def Block_header.fields (header : Block_header) :
    Block_hash × Nat × Nat × Int × Nat × Nat × Context_hash × List (List Nat) × List Nat :=
  (header.shell.predecessor, header.shell.level, header.shell.proto_level, header.shell.timestamp,
    header.shell.validation_passes, header.shell.operations_hash, header.shell.context,
    header.shell.fitness.map (·.map UInt8.toNat), header.protocol_data.map UInt8.toNat)

theorem toNat_map_injective : Function.Injective (List.map UInt8.toNat) :=
  List.map_injective_iff.mpr fun _ _ h => UInt8.toNat_inj.mp h

theorem Block_header.fields_injective : Function.Injective Block_header.fields := by
  rintro ⟨shell, _⟩ ⟨shell', _⟩ h
  simp only [fields, Prod.mk.injEq] at h
  obtain ⟨_, _, _, _, _, _, _, hfitness, hdata⟩ := h
  have hfit := List.map_injective_iff.mpr toNat_map_injective hfitness
  have hdat := toNat_map_injective hdata
  cases shell
  cases shell'
  simp_all

/-- Hashes without collisions exist: the encodings of headers and operations as
numbers, above that of the first block. -/
@[reducible] def Chain_env.numbered : Chain_env where
  hash header := Encodable.encode header.fields + 1
  operation_hash operation :=
    Encodable.encode (operation.branch, operation.proto.map UInt8.toNat)
  genesis := { block := 0, time := 0 }
  commit_genesis := 0
  operations_hash_empty := 0
  hash_injective := fun _ _ h =>
    Block_header.fields_injective (Encodable.encode_injective (Nat.succ_inj.mp h))
  operation_hash_injective := by
    rintro ⟨branch, proto⟩ ⟨branch', proto'⟩ h
    obtain ⟨hbranch, hproto⟩ := Prod.mk.inj (Encodable.encode_injective h)
    exact congrArg₂ shell.Operation.mk hbranch (toNat_map_injective hproto)
  hash_ne_genesis := fun _ => Nat.succ_ne_zero _

/-- What is stored of a validated block next to its operations. -/
structure Contents where
  header : Block_header
  message : Option String
  max_operations_ttl : Nat
  last_allowed_fork_level : Int
  context : Context_hash
  metadata : Bytes
deriving DecidableEq, Repr

inductive Error where
  | Block_not_found (hash : Block_hash)
  | Block_contents_not_found (hash : Block_hash)
  | Checkpoint_error (hash : Block_hash)
  | Inconsistent_hash (got expected : Context_hash)
  | Failure (msg : String)
deriving DecidableEq, Repr

inductive Exn where
  | Assert_failure
  | Invalid_argument (msg : String)
deriving DecidableEq, Repr

abbrev Tzresult (α : Type) := Result (List Error) Exn α

/-- `Option.unopt_assert` -/
def unopt_assert {α : Type} : Option α → Tzresult α
  | some a => .ok a
  | none => .raise .Assert_failure

structure Invalid_block where
  level : Nat
  errors : List Error
deriving DecidableEq, Repr

/-- The tables of one block. -/
structure Tables where
  contents : Option Contents
  pruned_contents : Option Block_header
  operation_hashes : Nat → Option (List Operation_hash)
  operations : Nat → Option (List Operation)
  operations_metadata : Nat → Option (List Bytes)
  predecessors : Nat → Option Block_hash

/-- The tables of a block nothing is stored of. -/
def Tables.empty : Tables where
  contents := none
  pruned_contents := none
  operation_hashes _ := none
  operations _ := none
  operations_metadata _ := none
  predecessors _ := none

structure Block_store where
  blocks : Block_hash → Tables
  invalid_block : Block_hash → Option Invalid_block

/-- The store of a node that has no block yet. -/
def Block_store.empty : Block_store where
  blocks _ := Tables.empty
  invalid_block _ := none

/-- Changes the tables of one block. -/
def Block_store.update (store : Block_store) (hash : Block_hash) (f : Tables → Tables) :
    Block_store :=
  { store with blocks := fun h => if h = hash then f (store.blocks h) else store.blocks h }

namespace Block_store

variable {store : Block_store} {hash h : Block_hash} {f g : Tables → Tables}

@[simp] theorem update_blocks_self : (store.update hash f).blocks hash = f (store.blocks hash) :=
  if_pos rfl

theorem update_blocks_ne (hne : h ≠ hash) : (store.update hash f).blocks h = store.blocks h :=
  if_neg hne

theorem update_blocks :
    (store.update hash f).blocks h = if h = hash then f (store.blocks h) else store.blocks h := rfl

theorem update_eq_self (heq : f (store.blocks hash) = store.blocks hash) :
    store.update hash f = store := by
  obtain ⟨blocks, _⟩ := store
  unfold update
  congr 1
  funext h
  split
  next hh => rw [hh, heq]
  next => rfl

theorem update_update : (store.update hash f).update hash g = store.update hash (g ∘ f) := by
  unfold update
  congr 1
  funext h
  dsimp only
  split
  next => rfl
  next => rfl

end Block_store

/-- The header of a block, pruned or not. -/
def Tables.header (tables : Tables) : Option Block_header :=
  match tables.contents with
  | some contents => some contents.header
  | none => tables.pruned_contents

namespace Header

def read_opt (store : Block_store) (hash : Block_hash) : Option Block_header :=
  (store.blocks hash).header

def known (store : Block_store) (hash : Block_hash) : Bool :=
  (store.blocks hash).pruned_contents.isSome || (store.blocks hash).contents.isSome

variable {store : Block_store} {hash : Block_hash}

theorem read_opt_update {h : Block_hash} {f : Tables → Tables} :
    read_opt (store.update hash f) h =
      if h = hash then (f (store.blocks h)).header else read_opt store h :=
  apply_ite Tables.header _ _ _

theorem known_iff : known store hash = true ↔ ∃ header, read_opt store hash = some header := by
  unfold known read_opt Tables.header
  cases (store.blocks hash).contents with
  | none => simp [Option.isSome_iff_exists]
  | some contents => simp

end Header

structure Block where
  hash : Block_hash
  header : Block_header
deriving DecidableEq, Repr

structure Chain_data where
  current_head : Block
  live_blocks : Finset Block_hash
  live_operations : Finset Operation_hash
  save_point : Int × Block_hash
  caboose : Int × Block_hash

/-- The state of a chain. `known_heads` is a set, listed in some order without
repetition; `in_main_branch` is the successor of a block on the main branch. -/
structure Chain_state where
  block_store : Block_store
  data : Chain_data
  checkpoint : Block_header
  known_heads : List Block_hash
  in_main_branch : Block_hash → Option Block_hash

namespace Known_heads

def store (hash : Block_hash) (heads : List Block_hash) : List Block_hash :=
  if hash ∈ heads then heads else hash :: heads

def remove (hash : Block_hash) (heads : List Block_hash) : List Block_hash :=
  heads.filter (· ≠ hash)

end Known_heads

namespace In_main_branch

def store (hash successor : Block_hash) (marks : Block_hash → Option Block_hash) :
    Block_hash → Option Block_hash :=
  fun h => if h = hash then some successor else marks h

def remove (hash : Block_hash) (marks : Block_hash → Option Block_hash) :
    Block_hash → Option Block_hash :=
  fun h => if h = hash then none else marks h

end In_main_branch

/-- The number of predecessors stored per block. -/
def stored_predecessors_size : Nat := 12

namespace store_predecessors

/-- One more pointer of `b`, to the block `dist` is the exponent of. -/
def set (store : Block_store) (b : Block_hash) (dist : Nat) (p : Block_hash) : Block_store :=
  store.update b fun tables =>
    { tables with predecessors := fun d => if d = dist then some p else tables.predecessors d }

/-- `left` is how many pointers are still to be stored, so that `dist` is
`stored_predecessors_size - left`. -/
def loop (store : Block_store) (b pred : Block_hash) : (left : Nat) → Block_store
  | 0 => store
  | left + 1 =>
    let dist := stored_predecessors_size - (left + 1)
    match (store.blocks pred).predecessors (dist - 1) with
    | none => store
    | some p => loop (set store b dist p) b p left

end store_predecessors

/-- Populates the table of ancestors of a block, from the tables of its
predecessors. -/
def store_predecessors (store : Block_store) (b : Block_hash) : Tzresult Block_store := do
  let header ← unopt_assert (Header.read_opt store b)
  let pred := header.shell.predecessor
  if b = pred then return store
  else
    return store_predecessors.loop (store_predecessors.set store b 0 pred) b pred
      (stored_predecessors_size - 1)

namespace predecessor_n_raw

def power_of_2.loop : (cnt res : Nat) → Nat
  | 0, res => res
  | cnt + 1, res => loop cnt (res * 2)

/-- Computes power of 2 without floats. -/
def power_of_2 (n : Nat) : Nat := power_of_2.loop n 1

def closest_power_two_and_rest.loop (cnt n rest : Nat) : Nat × Nat :=
  if n ≤ 1 then (cnt, rest) else loop (cnt + 1) (n / 2) (rest + power_of_2 cnt * (n % 2))
termination_by n

/-- Computes the closest power of two smaller than a given number, and the
rest. -/
def closest_power_two_and_rest (n : Nat) : Nat × Nat :=
  closest_power_two_and_rest.loop 0 n 0

theorem power_of_2.loop_eq (cnt res : Nat) : loop cnt res = res * 2 ^ cnt := by
  induction cnt generalizing res with
  | zero => rw [loop, pow_zero, mul_one]
  | succ cnt ih => rw [loop, ih, pow_succ', mul_assoc]

theorem power_of_2_eq (n : Nat) : power_of_2 n = 2 ^ n := by
  rw [power_of_2, power_of_2.loop_eq, one_mul]

/-- The loop keeps the number it started from: the remaining quotient carries
the weight of the bits already read, and `rest` their value. -/
theorem closest_power_two_and_rest.loop_spec (cnt n rest : Nat) (hn : 0 < n)
    (hrest : rest < 2 ^ cnt) :
    ∃ power rest', loop cnt n rest = (power, rest') ∧ 2 ^ power + rest' = 2 ^ cnt * n + rest ∧
      rest' < 2 ^ power := by
  induction n using Nat.strong_induction_on generalizing cnt rest with
  | h n ih =>
    rw [loop]
    split
    · have hone : n = 1 := by omega
      subst hone
      exact ⟨cnt, rest, rfl, by omega, hrest⟩
    · rw [power_of_2_eq]
      have hbit : n % 2 ≤ 1 := by omega
      have hweight : 2 ^ cnt * (n % 2) ≤ 2 ^ cnt * 1 := mul_le_mul_left _ hbit
      have hbound : rest + 2 ^ cnt * (n % 2) < 2 ^ (cnt + 1) := by
        rw [pow_succ]
        omega
      obtain ⟨power, rest', hloop, _, hlt⟩ := ih (n / 2) (by omega) (cnt + 1) _ (by omega) hbound
      refine ⟨power, rest', hloop, ?_, hlt⟩
      have hsplit : 2 ^ cnt * n = 2 ^ (cnt + 1) * (n / 2) + 2 ^ cnt * (n % 2) := by
        rw [pow_succ, mul_assoc, ← mul_add, div_add_mod]
      omega

/-- A positive number is its closest power of two and a smaller rest. -/
theorem closest_power_two_and_rest_spec {n : Nat} (hn : 0 < n) :
    ∃ power rest, closest_power_two_and_rest n = (power, rest) ∧ 2 ^ power + rest = n := by
  obtain ⟨power, rest, hloop, _, -⟩ := closest_power_two_and_rest.loop_spec 0 n 0 hn (by decide)
  exact ⟨power, rest, hloop, by omega⟩

/-- The next jump: the exponent of its length, at most that of the longest
pointer stored, and the distance that remains. -/
def jump (distance : Nat) : Nat × Nat :=
  let (power, rest) := closest_power_two_and_rest distance
  if power < stored_predecessors_size then (power, rest)
  else
    let power := stored_predecessors_size - 1
    (power, distance - power_of_2 power)

/-- A jump is along a stored pointer and covers the distance it takes off. -/
theorem jump_spec {distance : Nat} (hpos : 0 < distance) :
    ∃ power rest, jump distance = (power, rest) ∧ power < stored_predecessors_size ∧
      2 ^ power + rest = distance := by
  obtain ⟨power, rest, heq, hsum⟩ := closest_power_two_and_rest_spec hpos
  unfold jump
  rw [heq]
  dsimp only
  split
  next hlt => exact ⟨power, rest, rfl, hlt, hsum⟩
  next hge =>
    have hle : 2 ^ (stored_predecessors_size - 1) ≤ 2 ^ power :=
      Nat.pow_le_pow_right (by decide) (by omega)
    refine ⟨_, _, rfl, by decide, ?_⟩
    rw [power_of_2_eq]
    omega

theorem jump_rest_lt {distance : Nat} (hne : distance ≠ 0) : (jump distance).2 < distance := by
  obtain ⟨power, _, heq, -, _⟩ := jump_spec (Nat.pos_of_ne_zero hne)
  have hpos := Nat.two_pow_pos power
  rw [heq]
  omega

def loop (store : Block_store) (block_hash : Block_hash) (distance : Nat) : Option Block_hash :=
  if distance = 1 then (store.blocks block_hash).predecessors 0
  else
    match (store.blocks block_hash).predecessors (jump distance).1 with
    | none => none
    | some pred =>
      if (jump distance).2 = 0 then some pred else loop store pred (jump distance).2
termination_by distance
decreasing_by
  by_cases hzero : distance = 0
  · subst hzero
    rename_i hrest
    exact absurd (by decide +kernel) hrest
  · exact jump_rest_lt hzero

end predecessor_n_raw

/-- The hash of the block at distance `distance` from `block_hash`. -/
def predecessor_n_raw (store : Block_store) (block_hash : Block_hash) (distance : Int) :
    Tzresult (Option Block_hash) :=
  if distance < 0 then
    .raise (.Invalid_argument ("State.predecessor: distance < 0 " ++ toString distance))
  else if distance = 0 then .ok (some block_hash)
  else .ok (predecessor_n_raw.loop store block_hash distance.toNat)

/-- The same, when that block is still stored: its contents, or below the save
point its header. -/
def predecessor_n (below_save_point : Bool) (store : Block_store) (block_hash : Block_hash)
    (distance : Int) : Tzresult (Option Block_hash) := do
  match ← predecessor_n_raw store block_hash distance with
  | none => return none
  | some predecessor =>
    let known :=
      if below_save_point then Header.known store predecessor
      else (store.blocks predecessor).contents.isSome
    if known then return some predecessor else return none

end plexus.state
