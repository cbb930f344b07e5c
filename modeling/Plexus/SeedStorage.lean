import Plexus.Environment
import Plexus.RollStorage

namespace plexus

/-! Levels. -/

namespace level_storage

def from_raw (c : Context) (l : Raw_level) : Level :=
  level_repr.from_raw c.first_level c.constants.blocks_per_cycle
    c.constants.blocks_per_voting_period c.constants.blocks_per_commitment l

def succ (c : Context) (l : Level) : Level := from_raw c (l.level + 1)

def pred (c : Context) (l : Level) : Option Level :=
  match l.level with
  | 0 => none
  | l + 1 => some (from_raw c l)

variable (ctxt : Context)

def current : Level := raw_context.current_level ctxt

def previous : Tzresult Level :=
  match pred ctxt (current ctxt) with
  | none => .raise .Assert_previous_level
  | some p => .ok p

def first_level_in_cycle (c : Cycle) : Level :=
  from_raw ctxt (ctxt.first_level + ctxt.constants.blocks_per_cycle * c)

/-- The loop of `levels_with_commitments_in_cycle`. A cycle has no more levels
than the fuel it is called with. -/
def levels_with_commitments_loop (ctxt : Context) (cycle : Cycle) :
    Nat → Level → List Level → Tzresult (List Level)
  | 0, _, _ => .div
  | fuel + 1, n, acc =>
    if n.cycle = cycle then
      if n.expected_commitment then
        levels_with_commitments_loop ctxt cycle fuel (succ ctxt n) (n :: acc)
      else levels_with_commitments_loop ctxt cycle fuel (succ ctxt n) acc
    else .ok acc

def levels_with_commitments_in_cycle (c : Cycle) : Tzresult (List Level) :=
  let first := first_level_in_cycle ctxt c
  levels_with_commitments_loop ctxt first.cycle (ctxt.constants.blocks_per_cycle + 1) first []

def last_allowed_fork_level (c : Context) : Tzresult Raw_level := do
  let level := raw_context.current_level c
  let cycle ← cycle_repr.sub level.cycle (constants_storage.preserved_cycles c)
  match cycle with
  | none => pure 0
  | some cycle => pure (first_level_in_cycle c cycle).level

end level_storage

/-! Random numbers. -/

namespace seed_repr

variable [Environment]

abbrev Seed := State_hash

abbrev Sequence := State_hash

/-- The bytes of a text. -/
def bytes_of_string (s : String) : MBytes := s.toUTF8.toList

/-- `MBytes.set_int32` of a new buffer: most significant byte first. -/
def int32_to_bytes (i : Int32) : MBytes :=
  [(i.toUInt32 >>> 24).toUInt8, (i.toUInt32 >>> 16).toUInt8, (i.toUInt32 >>> 8).toUInt8,
    i.toUInt32.toUInt8]

/-- `MBytes.get_int32` at the start of a buffer. -/
def get_int32 (b : MBytes) : Int32 :=
  ((b.take 4).foldl (fun (acc : UInt32) byte => acc <<< 8 ||| byte.toUInt32) 0).toInt32

def zero_bytes : MBytes := List.replicate 32 0

def nonce (state : Seed) (nonce : MBytes) : Seed := Environment.state_hash [state.bytes, nonce]

def initialize_new (state : Seed) (append : List MBytes) : State_hash :=
  Environment.state_hash (state.bytes :: zero_bytes :: append)

def xor_higher_bits (i : Int32) (b : MBytes) : MBytes :=
  int32_to_bytes (get_int32 b ^^^ i) ++ b.drop 4

def sequence (state : State_hash) (n : Int32) : Sequence :=
  Environment.state_hash [xor_higher_bits n state.bytes]

def take (state : Sequence) : MBytes × Sequence :=
  let h := Environment.state_hash [state.bytes]
  (h.bytes, h)

/-- `Int32.abs`, which is the identity on the least integer. -/
def int32_abs (i : Int32) : Int32 := if i < 0 then -i else i

def take_int32_loop (bound : Int32) : Nat → Sequence → Tzresult (Int32 × Sequence)
  | 0, _ => .div
  | fuel + 1, s =>
    let (bytes, s) := take s
    let r := int32_abs (get_int32 bytes)
    let drop_if_over := Int32.maxValue - Int32.maxValue % bound
    if drop_if_over ≤ r then take_int32_loop bound fuel s else .ok (r % bound, s)

def take_int32 (s : Sequence) (bound : Int32) : Tzresult (Int32 × Sequence) :=
  if bound ≤ 0 then .raise .Invalid_arg_take_int32
  else take_int32_loop bound Environment.rounds s

def check_hash (nonce : MBytes) (hash : Nat) : Bool :=
  decide (nonce.length = constants_repr.nonce_length) && decide (Environment.nonce_hash nonce = hash)

def deterministic_seed (seed : Seed) : Seed := nonce seed zero_bytes

/-- The first `n` seeds; the source always asks for at least two. -/
def initial_seeds (n : Nat) : List Seed :=
  (List.range n).map fun i => deterministic_seed^[i] (Environment.state_hash [])

end seed_repr

/-! Seeds and the nonces they are made from. -/

namespace Storage.Seed

@[simps store update] def For_cycle : Indexed_data_storage Cycle State_hash where
  absolute_key := .random_seed
  store ctxt := ctxt.cycles.random_seed
  update ctxt s := ctxt.with_cycles { ctxt.cycles with random_seed := s }

/-- Indexed by the cycle and the number of a level. -/
@[simps store update] def Nonce : Indexed_data_storage (Cycle × Raw_level) Nonce_status where
  absolute_key k := .nonce k.1 k.2
  store ctxt := ctxt.cycles.nonces
  update ctxt s := ctxt.with_cycles { ctxt.cycles with nonces := s }

end Storage.Seed

namespace seed_storage

variable [Environment]

/-- One level of `compute_for_cycle`: its nonce is mixed into the seed if it
was revealed. -/
def combine (acc : Context × seed_repr.Seed × List Unrevealed_nonce) (level : Level) :
    Tzresult (Context × seed_repr.Seed × List Unrevealed_nonce) := do
  let (c, random_seed, unrevealed) := acc
  let status ← Storage.Seed.Nonce.get c (level.cycle, level.level)
  match status with
  | .Revealed nonce =>
    let c ← Storage.Seed.Nonce.delete c (level.cycle, level.level)
    pure (c, seed_repr.nonce random_seed nonce, unrevealed)
  | .Unrevealed u =>
    let c ← Storage.Seed.Nonce.delete c (level.cycle, level.level)
    pure (c, random_seed, u :: unrevealed)

def compute_for_cycle (c : Context) (revealed : Cycle) (cycle : Cycle) :
    Tzresult (Context × List Unrevealed_nonce) :=
  match cycle_repr.pred cycle with
  | none => .raise .Assert_compute_for_cycle
  | some previous_cycle => do
    let levels ← level_storage.levels_with_commitments_in_cycle c revealed
    let prev_seed ← Storage.Seed.For_cycle.get c previous_cycle
    let seed := seed_repr.deterministic_seed prev_seed
    let (c, seed, unrevealed) ← levels.foldlM combine (c, seed, [])
    let c ← Storage.Seed.For_cycle.init c cycle seed
    pure (c, unrevealed)

omit [Environment] in
def for_cycle (ctxt : Context) (cycle : Cycle) : Tzresult seed_repr.Seed := do
  let preserved := constants_storage.preserved_cycles ctxt
  let current_cycle := (level_storage.current ctxt).cycle
  let latest :=
    if current_cycle = cycle_repr.root then cycle_repr.add current_cycle (preserved + 1)
    else cycle_repr.add current_cycle preserved
  let oldest ← cycle_repr.sub current_cycle preserved
  let oldest := oldest.getD cycle_repr.root
  fail_unless (decide (oldest ≤ cycle) && decide (cycle ≤ latest)) (.Unknown oldest cycle latest)
  Storage.Seed.For_cycle.get ctxt cycle

def clear_cycle (c : Context) (cycle : Cycle) : Tzresult Context :=
  Storage.Seed.For_cycle.delete c cycle

def init (ctxt : Context) : Tzresult Context :=
  let preserved := constants_storage.preserved_cycles ctxt
  ((List.range (preserved + 2)).zip (seed_repr.initial_seeds (preserved + 2))).foldlM
    (fun ctxt (cycle, seed) => Storage.Seed.For_cycle.init ctxt cycle seed) ctxt

def cycle_end (ctxt : Context) (last_cycle : Cycle) :
    Tzresult (Context × List Unrevealed_nonce) := do
  let preserved := constants_storage.preserved_cycles ctxt
  let cleared_cycle ← cycle_repr.sub last_cycle preserved
  let ctxt ←
    (match cleared_cycle with
    | none => pure ctxt
    | some cleared_cycle => clear_cycle ctxt cleared_cycle)
  match cycle_repr.pred last_cycle with
  | none => pure (ctxt, [])
  | some revealed =>
    let inited_seed_cycle := cycle_repr.add last_cycle (preserved + 1)
    compute_for_cycle ctxt revealed inited_seed_cycle

end seed_storage

namespace nonce_storage

variable [Environment]

def get_unrevealed (ctxt : Context) (level : Level) : Tzresult Unrevealed_nonce :=
  match cycle_repr.pred (level_storage.current ctxt).cycle with
  | none => fail .Too_early_revelation
  | some revealed_cycle =>
    if revealed_cycle < level.cycle then fail .Too_early_revelation
    else if level.cycle < revealed_cycle then fail .Too_late_revelation
    else do
      let status ← Storage.Seed.Nonce.get ctxt (level.cycle, level.level)
      match status with
      | .Revealed _ => fail .Previously_revealed_nonce
      | .Unrevealed status => pure status

def record_hash (ctxt : Context) (unrevealed : Unrevealed_nonce) : Tzresult Context :=
  let level := level_storage.current ctxt
  Storage.Seed.Nonce.init ctxt (level.cycle, level.level) (.Unrevealed unrevealed)

def reveal (ctxt : Context) (level : Level) (nonce : MBytes) : Tzresult Context := do
  let unrevealed ← get_unrevealed ctxt level
  fail_unless (seed_repr.check_hash nonce unrevealed.nonce_hash) .Unexpected_nonce
  Storage.Seed.Nonce.set ctxt (level.cycle, level.level) (.Revealed nonce)

end nonce_storage

end plexus
