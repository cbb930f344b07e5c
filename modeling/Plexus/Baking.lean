import Plexus.ApplyManager
import Plexus.BootstrapStorage

namespace plexus

namespace raw_level_repr

def of_int32 (l : Int32) : Tzresult Raw_level :=
  if 0 ≤ l then .ok l.toInt.toNat else fail (.Unexpected_level l)

end raw_level_repr

namespace period_repr

def one_minute : Int64 := 60

def of_seconds (t : Int64) : Tzresult Int64 := if 0 ≤ t then .ok t else fail .Malformed_period

/-- The product is not checked for overflow. -/
def mult (i : Int32) (p : Int64) : Tzresult Int64 :=
  if i < 0 then fail .Invalid_arg else .ok (i.toInt64 * p)

end period_repr

namespace fitness_repr

def version_number : MBytes := [1]

def version_number_004 : MBytes := [0]

def int64_of_bytes (b : MBytes) : Tzresult Int64 :=
  if b.length ≠ 8 then fail .Invalid_fitness
  else .ok (b.foldl (fun (acc : UInt64) byte => acc <<< 8 ||| byte.toUInt64) 0).toInt64

/-- The fitness of a block of an older version counts as nothing. -/
def to_int64 : List MBytes → Tzresult Int64
  | [] => .ok 0
  | [version, fitness] =>
    if version = version_number then int64_of_bytes fitness
    else if version = version_number_004 then .ok 0
    else fail .Invalid_fitness
  | _ => fail .Invalid_fitness

end fitness_repr

namespace baking

/-! Timestamps. -/

def cumsum_time_between_blocks (acc : Int64) : List Int64 → Int32 → Tzresult Int64
  | [], p =>
    if p ≤ 0 then .ok acc
    else do
      let period ← period_repr.mult p period_repr.one_minute
      pure (acc + period)
  | [last], p =>
    if p ≤ 0 then .ok acc
    else do
      let period ← period_repr.mult p last
      pure (acc + period)
  | first :: durations, p =>
    if p ≤ 0 then .ok acc else cumsum_time_between_blocks (acc + first) durations (p - 1)

def minimal_time (c : Context) (priority : Nat) (pred_timestamp : Int64) : Tzresult Int64 :=
  cumsum_time_between_blocks pred_timestamp c.constants.time_between_blocks
    (Int32.ofNat priority + 1)

def check_timestamp (c : Context) (priority : Nat) (pred_timestamp : Int64) : Tzresult Int64 := do
  let minimal_time ← minimal_time c priority pred_timestamp
  trace (.Timestamp_too_early minimal_time c.timestamp)
    (trace .Timestamp_sub (period_repr.of_seconds (c.timestamp - minimal_time)))

variable (ctxt : Context)

/-- An OCaml `int` has 63 bits. `Int64.to_int` drops the highest one. -/
def to_int (n : ℤ) : ℤ := n.bmod (2 ^ 63)

def minimum_allowed_endorsements (block_delay : Int64) : Nat :=
  let minimum : ℤ := ctxt.constants.initial_endorsers
  let delay_per_missing_endorsement := to_int ctxt.constants.delay_per_missing_endorsement.toInt
  let delay := to_int block_delay.toInt
  let reduced_time_constraint :=
    if delay_per_missing_endorsement = 0 then delay
    else to_int (delay.tdiv delay_per_missing_endorsement)
  (max 0 (to_int (minimum - reduced_time_constraint))).toNat

/-! Rewards. -/

/-- An empty list means no rewards. -/
def reward_for_priority : List Tez → Nat → Tez
  | [], _ => Qty.zero
  | [last], _ => last
  | first :: _ :: _, 0 => first
  | _ :: rest, prio + 1 => reward_for_priority rest prio

def baking_reward (block_priority included_endorsements : Nat) : Tzresult Tez := do
  fail_unless (decide (included_endorsements ≤ ctxt.constants.endorsers_per_block))
    .Incorrect_number_of_endorsements
  let reward_per_endorsement :=
    reward_for_priority ctxt.constants.baking_reward_per_endorsement block_priority
  reward_per_endorsement.mul (Int64.ofNat included_endorsements)

def endorsing_reward (block_priority num_slots : Nat) : Tzresult Tez :=
  let reward_per_endorsement :=
    reward_for_priority ctxt.constants.endorsement_reward block_priority
  reward_per_endorsement.mul (Int64.ofNat num_slots)

/-! Rights. -/

section

variable [Environment]

def check_baking_rights (c : Context) (contents : Block_header_contents) (pred_timestamp : Int64) :
    Tzresult (Public_key × Int64) := do
  let level := level_storage.current c
  let delegate ← roll_storage.baking_rights_owner c level contents.priority
  let block_delay ← check_timestamp c contents.priority pred_timestamp
  pure (delegate, block_delay)

abbrev Endorsement_rights := Store Public_key_hash (Public_key × List Nat × Bool)

/-- The delegates that may endorse a level, with their slots. -/
def endorsement_rights (ctxt : Context) (level : Level) : Tzresult Endorsement_rights :=
  (List.range ctxt.constants.endorsers_per_block).foldlM (fun acc slot => do
    let pk ← roll_storage.endorsement_rights_owner ctxt level slot
    let pkh := Environment.public_key_hash pk
    let right : Public_key × List Nat × Bool :=
      match acc.lookup pkh with
      | none => (pk, [slot], false)
      | some (pk, slots, used) => (pk, slot :: slots, used)
    pure (acc.put pkh (some right))) Store.empty

/-- Whether an endorsement is signed with a key. -/
def signed_by (pk : Public_key) (chain_id : Chain_id) (op : Endorsement_operation) : Bool :=
  match op.signature with
  | none => false
  | some signature => Environment.check_endorsement (.Endorsement chain_id) pk signature op

/-- The last of the delegates with rights whose key signed the operation. -/
def find_endorser (endorsements : Endorsement_rights) (chain_id : Chain_id)
    (op : Endorsement_operation) : Option (Public_key_hash × List Nat × Bool) :=
  endorsements.keys.sort.foldl (fun acc pkh =>
    match endorsements.lookup pkh with
    | none => acc
    | some (pk, slots, used) => if signed_by pk chain_id op then some (pkh, slots, used) else acc)
    none

def check_endorsement_rights (ctxt : Context) (chain_id : Chain_id) (op : Endorsement_operation) :
    Tzresult (Public_key_hash × List Nat × Bool) := do
  let current_level := level_storage.current ctxt
  let endorsements ←
    (if op.level + 1 = current_level.level then .ok ctxt.allowed_endorsements
    else endorsement_rights ctxt (level_storage.from_raw ctxt op.level))
  match find_endorser endorsements chain_id op with
  | none => fail .Unexpected_endorsement
  | some v => pure v

/-! Checks of a header. -/

def check_proof_of_work_stamp (ctxt : Context) (block : Block_header) : Tzresult Unit :=
  if Environment.proof_of_work_stamp block ≤ ctxt.constants.proof_of_work_threshold then pure ()
  else fail .Invalid_stamp

def check_signature (block : Block_header) (chain_id : Chain_id) (key : Public_key) :
    Tzresult Unit :=
  if Environment.check_block_header (.Block_header chain_id) key block then pure ()
  else
    fail (.Invalid_block_signature (Environment.block_header_hash block)
      (Environment.public_key_hash key))

end

def max_fitness_gap : Int64 := 1

def check_fitness_gap (block : Block_header) : Tzresult Unit := do
  let announced_fitness ← fitness_repr.to_int64 block.fitness
  let gap := announced_fitness - ctxt.fitness
  if gap ≤ 0 ∨ max_fitness_gap < gap then fail (.Invalid_fitness_gap max_fitness_gap gap)
  else pure ()

def last_of_a_cycle (l : Level) : Bool :=
  decide (l.cycle_position + 1 = ctxt.constants.blocks_per_cycle)

def dawn_of_a_new_cycle : Option Cycle :=
  let level := level_storage.current ctxt
  if last_of_a_cycle ctxt level then some level.cycle else none

end baking

end plexus
