import Mathlib.Data.UInt
import Mathlib.Tactic.Simps.Basic
import Plexus.Gas
import Plexus.Lib.Store

namespace plexus

/-- The parametric constants the modelled functions read. -/
structure Constants where
  preserved_cycles : Nat
  blocks_per_cycle : Nat
  blocks_per_commitment : Nat
  blocks_per_roll_snapshot : Nat
  blocks_per_voting_period : Nat
  time_between_blocks : List Int64
  endorsers_per_block : Nat
  hard_gas_limit_per_operation : ℤ
  hard_gas_limit_per_block : ℤ
  proof_of_work_threshold : UInt64
  mine_tokens_per_roll : Mine
  seed_nonce_revelation_tip : Tez
  origination_size : Nat
  block_security_deposit : Mine
  endorsement_security_deposit : Mine
  baking_reward_per_endorsement : List Tez
  endorsement_reward : List Tez
  cost_per_byte : Mine
  hard_storage_limit_per_operation : ℤ
  quorum_min : Int32
  quorum_max : Int32
  min_proposal_quorum : Int32
  initial_endorsers : Nat
  delay_per_missing_endorsement : Int64

namespace constants_repr

def nonce_length : Nat := 32

def max_proposals_per_delegate : Nat := 20

/-- `Updates.removing_empty_address`: from this level on, an account is deleted
only when both of its balances are zero, and both entries are removed. -/
def removing_empty_address : Raw_level := 58983

end constants_repr

namespace default_parameters

/-- The constants of the main network. -/
def constants_mainnet : Constants where
  preserved_cycles := 5
  blocks_per_cycle := 1440
  blocks_per_commitment := 32
  blocks_per_roll_snapshot := 256
  blocks_per_voting_period := 32768
  time_between_blocks := [60, 40]
  endorsers_per_block := 30
  hard_gas_limit_per_operation := 1040000
  hard_gas_limit_per_block := 10400000
  proof_of_work_threshold := 2 ^ 46 - 1
  mine_tokens_per_roll := ⟨1000000000000, by decide⟩
  seed_nonce_revelation_tip := Qty.zero
  origination_size := 257
  block_security_deposit := ⟨60000000000, by decide⟩
  endorsement_security_deposit := ⟨2000000000, by decide⟩
  baking_reward_per_endorsement := [⟨10000000, by decide⟩, ⟨1500000, by decide⟩]
  endorsement_reward := [⟨10000000, by decide⟩, ⟨6666000, by decide⟩]
  hard_storage_limit_per_operation := 60000
  cost_per_byte := ⟨1000, by decide⟩
  quorum_min := 2000
  quorum_max := 7000
  min_proposal_quorum := 500
  initial_endorsers := 24
  delay_per_missing_endorsement := 8

end default_parameters

/-! The persistent part of the context, grouped by the module of the protocol
that writes it. A store is indexed as in `storage.ml`; the entries that are
wrapped to be indexed by a public key hash are indexed by it. -/

/-- Written by `Contract_storage` and `Delegate_storage`. -/
structure Contracts where
  global_counter : Option ℤ
  balance : Store Contract Tez
  mine_balance : Store Contract Mine
  manager : Store Contract Manager_key
  delegate : Store Contract Public_key_hash
  delegated : Finset (Contract × Contract)
  counter : Store Contract ℤ
  delegates : Finset Public_key_hash

/-- What `Contract_storage` keeps for contracts with a script. -/
structure Scripts where
  code : Store Contract MBytes
  storage : Store Contract MBytes
  paid_storage_space : Store Contract ℤ
  used_storage_space : Store Contract ℤ

/-- Written by `Roll_storage`. -/
structure Rolls where
  next : Option Roll
  limbo : Option Roll
  successor : Store Roll Roll
  owner : Store Roll Public_key
  delegate_roll_list : Store Public_key_hash Roll
  delegate_change : Store Public_key_hash Mine
  active_delegates_with_rolls : Finset Public_key_hash
  inactive_delegate : Finset Contract
  delegate_desactivation : Store Contract Cycle

/-- Written by the freezer functions of `Delegate_storage`. -/
structure Freezer where
  frozen_deposits : Store (Contract × Cycle) Mine
  frozen_fees : Store (Contract × Cycle) Mine
  frozen_rewards : Store (Contract × Cycle) Tez
  delegates_with_frozen_balance : Finset (Cycle × Public_key_hash)

structure Big_maps where
  next : Option ℤ
  total_bytes : Store ℤ ℤ
  key_type : Store ℤ Expr
  value_type : Store ℤ Expr
  contents : Store ℤ (Store Nat Expr)

/-- A commitment of a baker to reveal a nonce, with what is lost otherwise. -/
structure Unrevealed_nonce where
  nonce_hash : Nat
  delegate : Public_key_hash
  rewards : Tez
  mine_rewards : Mine
  fees : Tez
  mine_fees : Mine

inductive Nonce_status where
  | Unrevealed (nonce : Unrevealed_nonce)
  | Revealed (nonce : MBytes)

/-- Seeds, nonces and roll snapshots, indexed by cycle. -/
structure Cycles where
  random_seed : Store Cycle State_hash
  nonces : Store (Cycle × Raw_level) Nonce_status
  /-- Numbers written by `Data_encoding.uint16`. One that does not fit is written as
  no bytes at all, which cannot be read back. -/
  roll_snapshot : Store Cycle (Option Nat)
  last_roll : Store (Cycle × Nat) Roll
  snapshots : Store (Cycle × Nat) (Store Roll Public_key)

inductive Voting_period_kind where
  | Proposal
  | Testing_vote
  | Testing
  | Promotion_vote
deriving DecidableEq, Repr

structure Votes where
  current_period_kind : Option Voting_period_kind
  participation_ema : Option Int32
  current_proposal : Option Nat
  listings_size : Option Int32
  listings : Store Public_key_hash Int32
  proposals : Finset (Nat × Public_key_hash)
  proposals_count : Store Public_key_hash Nat
  ballots : Store Public_key_hash Ballot

/-- The context: the constants, the values kept for the block and for the
operation being applied, and the persistent stores. -/
structure Context where
  constants : Constants
  first_level : Raw_level
  level : Level
  timestamp : Int64
  fitness : Int64
  deposits : Store Public_key_hash Mine
  included_endorsements : Nat
  allowed_endorsements : Store Public_key_hash (Public_key × List Nat × Bool)
  fees : Tez
  mine_fees : Mine
  rewards : Tez
  mine_rewards : Mine
  block_gas : ℤ
  operation_gas : Gas
  internal_gas : ℤ
  storage_space_to_pay : Option ℤ
  allocated_contracts : Option Nat
  origination_nonce : Option contract_repr.Origination_nonce
  temporary_big_map : ℤ
  internal_nonce : Nat
  internal_nonces_used : Finset Nat
  contracts : Contracts
  scripts : Scripts
  rolls : Rolls
  freezer : Freezer
  big_maps : Big_maps
  cycles : Cycles
  votes : Votes
  commitments : Store Nat Tez
  ramp_up_rewards : Store Cycle (List Tez × List Tez)
  ramp_up_deposits : Store Cycle (Mine × Mine)
  block_priority : Option Nat

/-! The stores before the first block. -/

def Contracts.empty : Contracts where
  global_counter := none
  balance := Store.empty
  mine_balance := Store.empty
  manager := Store.empty
  delegate := Store.empty
  delegated := ∅
  counter := Store.empty
  delegates := ∅

def Scripts.empty : Scripts where
  code := Store.empty
  storage := Store.empty
  paid_storage_space := Store.empty
  used_storage_space := Store.empty

def Rolls.empty : Rolls where
  next := none
  limbo := none
  successor := Store.empty
  owner := Store.empty
  delegate_roll_list := Store.empty
  delegate_change := Store.empty
  active_delegates_with_rolls := ∅
  inactive_delegate := ∅
  delegate_desactivation := Store.empty

def Freezer.empty : Freezer where
  frozen_deposits := Store.empty
  frozen_fees := Store.empty
  frozen_rewards := Store.empty
  delegates_with_frozen_balance := ∅

def Big_maps.empty : Big_maps where
  next := none
  total_bytes := Store.empty
  key_type := Store.empty
  value_type := Store.empty
  contents := Store.empty

def Cycles.empty : Cycles where
  random_seed := Store.empty
  nonces := Store.empty
  roll_snapshot := Store.empty
  last_roll := Store.empty
  snapshots := Store.empty

def Votes.empty : Votes where
  current_period_kind := none
  participation_ema := none
  current_proposal := none
  listings_size := none
  listings := Store.empty
  proposals := ∅
  proposals_count := Store.empty
  ballots := Store.empty

namespace Context

/-! Replacing one group of stores. -/

variable (ctxt : Context)

@[simps] def with_contracts (contracts : Contracts) : Context :=
  { ctxt with contracts }

@[simps] def with_scripts (scripts : Scripts) : Context := { ctxt with scripts }

@[simps] def with_rolls (rolls : Rolls) : Context := { ctxt with rolls }

@[simps] def with_freezer (freezer : Freezer) : Context := { ctxt with freezer }

@[simps] def with_big_maps (big_maps : Big_maps) : Context :=
  { ctxt with big_maps }

@[simps] def with_cycles (cycles : Cycles) : Context := { ctxt with cycles }

@[simps] def with_votes (votes : Votes) : Context := { ctxt with votes }

@[simp] theorem with_contracts_with_contracts (s s' : Contracts) :
    (ctxt.with_contracts s).with_contracts s' = ctxt.with_contracts s' := rfl

@[simp] theorem with_rolls_with_rolls (s s' : Rolls) :
    (ctxt.with_rolls s).with_rolls s' = ctxt.with_rolls s' := rfl

@[simp] theorem with_freezer_with_freezer (s s' : Freezer) :
    (ctxt.with_freezer s).with_freezer s' = ctxt.with_freezer s' := rfl

@[simp] theorem with_votes_with_votes (s s' : Votes) :
    (ctxt.with_votes s).with_votes s' = ctxt.with_votes s' := rfl

@[simp] theorem with_rolls_self : ctxt.with_rolls ctxt.rolls = ctxt := rfl

section

variable {c c' : Context} {rolls : Rolls}

section

variable (h : c' = c.with_rolls rolls)

include h

theorem contracts_of_eq_with_rolls : c'.contracts = c.contracts := by
  rw [h]
  rfl

theorem freezer_of_eq_with_rolls : c'.freezer = c.freezer := by
  rw [h]
  rfl

theorem constants_of_eq_with_rolls : c'.constants = c.constants := by
  rw [h]
  rfl

theorem scripts_of_eq_with_rolls : c'.scripts = c.scripts := by
  rw [h]
  rfl

end

end

@[simps] def with_gas (block_gas : ℤ) (operation_gas : Gas) (internal_gas : ℤ) :
    Context :=
  { ctxt with block_gas, operation_gas, internal_gas }

/-- Bind or unbind the code of a contract. -/
@[simps!] def with_code (contract : Contract) (code : Option MBytes) : Context :=
  ctxt.with_scripts { ctxt.scripts with code := ctxt.scripts.code.put contract code }

/-- The context without gas, big maps and what scripts keep, which decide
whether an operation is accepted and are not part of the accounts. -/
@[simps] def ledger : Context :=
  { ctxt with
    block_gas := 0
    operation_gas := .Unaccounted
    internal_gas := 0
    scripts := { Scripts.empty with code := ctxt.scripts.code }
    big_maps := Big_maps.empty }

@[simp] theorem ledger_with_scripts {scripts : Scripts}
    (h : scripts.code = ctxt.scripts.code) : (ctxt.with_scripts scripts).ledger = ctxt.ledger := by
  simp only [ledger, with_scripts, h]

end Context

namespace raw_context

variable (ctxt : Context)

def current_level : Level := ctxt.level

def constants : Constants := ctxt.constants

def patch_constants (f : Constants → Constants) : Context :=
  { ctxt with constants := f ctxt.constants }

/-! Endorsements of the previous block included in this one. -/

def record_endorsement (k : Public_key_hash) : Tzresult Context :=
  match ctxt.allowed_endorsements.lookup k with
  | none => .raise .Assert_record_endorsement
  | some (_, _, true) => .raise .Assert_record_endorsement
  | some (d, s, false) =>
    .ok { ctxt with
      included_endorsements := ctxt.included_endorsements + s.length
      allowed_endorsements := ctxt.allowed_endorsements.put k (some (d, s, true)) }

def init_endorsements
    (allowed_endorsements : Store Public_key_hash (Public_key × List Nat × Bool)) :
    Tzresult Context :=
  if allowed_endorsements.keys = ∅ then .raise .Assert_init_endorsements
  else if ctxt.allowed_endorsements.keys = ∅ then .ok { ctxt with allowed_endorsements }
  else .raise .Assert_init_endorsements

/-! Nonces of internal operations. -/

def fresh_internal_nonce : Tzresult (Context × Nat) :=
  if 65535 ≤ ctxt.internal_nonce then fail .Too_many_internal_operations
  else .ok ({ ctxt with internal_nonce := ctxt.internal_nonce + 1 }, ctxt.internal_nonce)

def reset_internal_nonce : Context :=
  { ctxt with internal_nonces_used := ∅, internal_nonce := 0 }

def record_internal_nonce (k : Nat) : Context :=
  { ctxt with internal_nonces_used := insert k ctxt.internal_nonces_used }

def internal_nonce_already_recorded (k : Nat) : Bool :=
  decide (k ∈ ctxt.internal_nonces_used)

/-! What the block collects for its baker. -/

def add_fees (fees : Tez) : Tzresult Context := do
  let fees ← ctxt.fees.add fees
  pure { ctxt with fees }

def add_mine_fees (fees : Mine) : Tzresult Context := do
  let mine_fees ← ctxt.mine_fees.add fees
  pure { ctxt with mine_fees }

def add_rewards (rewards : Tez) : Tzresult Context := do
  let rewards ← ctxt.rewards.add rewards
  pure { ctxt with rewards }

def add_deposit (delegate : Public_key_hash) (deposit : Mine) :
    Tzresult Context := do
  let previous := (ctxt.deposits.lookup delegate).getD Qty.zero
  let deposit ← previous.add deposit
  pure { ctxt with deposits := ctxt.deposits.put delegate (some deposit) }

/-! The nonce of originated addresses. -/

def init_origination_nonce (operation_hash : Operation_hash) : Context :=
  { ctxt with origination_nonce := some (contract_repr.initial_origination_nonce operation_hash) }

def origination_nonce : Tzresult contract_repr.Origination_nonce :=
  match ctxt.origination_nonce with
  | none => fail .Undefined_operation_nonce
  | some nonce => .ok nonce

def increment_origination_nonce :
    Tzresult (Context × contract_repr.Origination_nonce) :=
  match ctxt.origination_nonce with
  | none => fail .Undefined_operation_nonce
  | some cur =>
    .ok ({ ctxt with origination_nonce := some (contract_repr.incr_origination_nonce cur) }, cur)

def unset_origination_nonce : Context := { ctxt with origination_nonce := none }

/-! Gas. -/

def check_gas_limit (remaining : ℤ) : Tzresult Unit :=
  if ctxt.constants.hard_gas_limit_per_operation < remaining ∨ remaining < 0 then
    fail .Gas_limit_too_high
  else .ok ()

def set_gas_limit (remaining : ℤ) : Context :=
  { ctxt with
    operation_gas := .Limited remaining
    internal_gas := gas_limit_repr.internal_gas_zero }

def set_gas_unlimited : Context := { ctxt with operation_gas := .Unaccounted }

/-- The decrease from one gas level to another. -/
def gas_consumed (since_gas until_gas : Gas) : ℤ :=
  match since_gas, until_gas with
  | .Limited before, .Limited after => before - after
  | _, _ => 0

/-- Charge a cost to the operation and to the block. The gas really taken is
recorded: it stays consumed when the operation later fails. -/
def consume_gas (cost : Cost) : Carbonated Context := do
  let (block_gas, operation_gas, internal_gas) ←
    gas_limit_repr.consume ctxt.block_gas ctxt.operation_gas ctxt.internal_gas cost
  Traced.emit (.consume (gas_consumed ctxt.operation_gas operation_gas))
  pure { ctxt with block_gas, operation_gas, internal_gas }

def check_enough_gas (cost : Cost) : Tzresult Unit :=
  gas_limit_repr.check_enough ctxt.block_gas ctxt.operation_gas ctxt.internal_gas cost

def gas_level : Gas := ctxt.operation_gas

/-! The storage space an operation has to pay for. -/

def init_storage_space_to_pay : Tzresult Context :=
  match ctxt.storage_space_to_pay with
  | some _ => .raise .Assert_init_storage_space_to_pay
  | none => .ok { ctxt with storage_space_to_pay := some 0, allocated_contracts := some 0 }

def update_storage_space_to_pay (n : ℤ) : Tzresult Context :=
  match ctxt.storage_space_to_pay with
  | none => .raise .Assert_update_storage_space_to_pay
  | some storage_space_to_pay =>
    .ok { ctxt with storage_space_to_pay := some (n + storage_space_to_pay) }

def update_allocated_contracts_count : Tzresult Context :=
  match ctxt.allocated_contracts with
  | none => .raise .Assert_update_allocated_contracts_count
  | some allocated_contracts =>
    .ok { ctxt with allocated_contracts := some (allocated_contracts + 1) }

def clear_storage_space_to_pay : Tzresult (Context × ℤ × Nat) :=
  match ctxt.storage_space_to_pay, ctxt.allocated_contracts with
  | some storage_space_to_pay, some allocated_contracts =>
    .ok ({ ctxt with storage_space_to_pay := none, allocated_contracts := none },
      storage_space_to_pay, allocated_contracts)
  | _, _ => .raise .Assert_clear_storage_space_to_pay

/-! Temporary big maps have negative identifiers, handed out from -1 down. -/

def fresh_temporary_big_map : Context × ℤ :=
  ({ ctxt with temporary_big_map := ctxt.temporary_big_map - 1 }, ctxt.temporary_big_map)

def reset_temporary_big_map : Context := { ctxt with temporary_big_map := -1 }

/-- The identifiers handed out so far. The loop of the source starts at -1 and
stops at the next identifier, which is never above it. -/
def temporary_big_maps : List ℤ :=
  (List.range (-1 - ctxt.temporary_big_map).toNat).map fun i => -1 - (i : ℤ)

/-- The context in which a block is applied: the stores are kept and
everything that belongs to one block starts anew. -/
def prepare (level : Raw_level) (timestamp fitness : Int64) : Context :=
  { ctxt with
    level := level_repr.from_raw ctxt.first_level ctxt.constants.blocks_per_cycle
      ctxt.constants.blocks_per_voting_period ctxt.constants.blocks_per_commitment level
    timestamp
    fitness
    allowed_endorsements := Store.empty
    included_endorsements := 0
    fees := Qty.zero
    mine_fees := Qty.zero
    rewards := Qty.zero
    mine_rewards := Qty.zero
    deposits := Store.empty
    operation_gas := .Unaccounted
    internal_gas := gas_limit_repr.internal_gas_zero
    storage_space_to_pay := none
    allocated_contracts := none
    block_gas := ctxt.constants.hard_gas_limit_per_block
    origination_nonce := none
    temporary_big_map := -1
    internal_nonce := 0
    internal_nonces_used := ∅ }

/-- The context in which the first block is initialised. -/
def prepare_first_block (constants : Constants) (first_level : Raw_level)
    (timestamp fitness : Int64) : Context where
  constants
  first_level
  level := level_repr.from_raw first_level constants.blocks_per_cycle
    constants.blocks_per_voting_period constants.blocks_per_commitment first_level
  timestamp
  fitness
  allowed_endorsements := Store.empty
  included_endorsements := 0
  fees := Qty.zero
  mine_fees := Qty.zero
  rewards := Qty.zero
  mine_rewards := Qty.zero
  deposits := Store.empty
  operation_gas := .Unaccounted
  internal_gas := gas_limit_repr.internal_gas_zero
  storage_space_to_pay := none
  allocated_contracts := none
  block_gas := constants.hard_gas_limit_per_block
  origination_nonce := none
  temporary_big_map := -1
  internal_nonce := 0
  internal_nonces_used := ∅
  contracts := Contracts.empty
  scripts := Scripts.empty
  rolls := Rolls.empty
  freezer := Freezer.empty
  big_maps := Big_maps.empty
  cycles := Cycles.empty
  votes := Votes.empty
  commitments := Store.empty
  ramp_up_rewards := Store.empty
  ramp_up_deposits := Store.empty
  block_priority := none

end raw_context

end plexus
