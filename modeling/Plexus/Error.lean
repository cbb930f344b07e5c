import Plexus.Operation
import Plexus.Lib.Traced

namespace plexus

open Result

/-- A key of the context, one constructor for each stored datum. -/
inductive Key where
  | global_counter
  | balance (c : Contract)
  | mine_balance (c : Contract)
  | manager (c : Contract)
  | delegate (c : Contract)
  | delegate_desactivation (c : Contract)
  | counter (c : Contract)
  | code (c : Contract)
  | storage (c : Contract)
  | paid_bytes (c : Contract)
  | used_bytes (c : Contract)
  | roll_list (d : Public_key_hash)
  | change (d : Public_key_hash)
  | frozen_deposits (c : Contract) (n : Cycle)
  | frozen_fees (c : Contract) (n : Cycle)
  | frozen_rewards (c : Contract) (n : Cycle)
  | roll_next
  | roll_limbo
  | roll_successor (r : Roll)
  | roll_owner (r : Roll)
  | roll_owner_current
  | roll_snapshot (n : Cycle)
  | last_roll (n : Cycle) (index : Nat)
  | block_priority
  | random_seed (n : Cycle)
  | nonce (n : Cycle) (l : Raw_level)
  | big_map_next
  | big_map_total_bytes (id : Int)
  | big_map_key_type (id : Int)
  | big_map_value_type (id : Int)
  | big_map_contents (id : Int) (key_hash : Nat)
  | commitment (blinded_pkh : Nat)
  | current_period_kind
  | participation_ema
  | current_proposal
  | listings_size
  | listings (d : Public_key_hash)
  | proposals_count (d : Public_key_hash)
  | ballots (d : Public_key_hash)
  | ramp_up_rewards (n : Cycle)
  | ramp_up_deposits (n : Cycle)
  /-- The key itself, where the context is a tree. -/
  | path (names : List String)
deriving DecidableEq, Repr

inductive Access where
  | Get
  | Set
  | Del
  | Copy
deriving DecidableEq, Repr

inductive Storage_error where
  | Missing_key (key : Key) (access : Access)
  | Existing_key (key : Key)
  | Corrupted_data (key : Key)
deriving DecidableEq, Repr

/-- The errors of the modelled functions, under their names in the source. -/
inductive Error where
  -- Qty_repr
  | Addition_overflow (id : Token) (a b : Int64)
  | Subtraction_underflow (id : Token) (a b : Int64)
  | Multiplication_overflow (id : Token) (a m : Int64)
  | Negative_multiplicator (id : Token) (a m : Int64)
  | Invalid_divisor (id : Token) (a d : Int64)
  -- Raw_context and Gas_limit_repr
  | Storage_error (err : Storage_error)
  | Too_many_internal_operations
  | Undefined_operation_nonce
  | Gas_limit_too_high
  | Block_quota_exceeded
  | Operation_quota_exceeded
  -- Roll_storage
  | Consume_roll_change
  | No_roll_for_delegate
  | No_roll_snapshot_for_cycle (cycle : Cycle)
  | Unregistered_delegate (delegate : Public_key_hash)
  -- Seed_storage
  | Unknown (oldest cycle latest : Cycle)
  -- Delegate_storage
  | No_deletion (delegate : Public_key_hash)
  | Active_delegate
  | Current_delegate
  | Empty_delegate_account (delegate : Public_key_hash)
  | MineBalance_too_low_for_deposit (delegate : Public_key_hash) (deposit balance : Mine)
  -- Contract_storage
  | Balance_too_low (contract : Contract) (balance amount : Tez)
  | MineBalance_too_low (contract : Contract) (balance amount : Mine)
  | Counter_in_the_past (contract : Contract) (expected found : Int)
  | Counter_in_the_future (contract : Contract) (expected found : Int)
  | Non_existing_contract (contract : Contract)
  | Empty_implicit_contract (pkh : Public_key_hash)
  | Empty_implicit_delegated_contract (pkh : Public_key_hash)
  | Empty_transaction (contract : Contract)
  | Inconsistent_hash (key : Public_key) (expected actual : Public_key_hash)
  | Unrevealed_manager_key (contract : Contract)
  | Previously_revealed_key (contract : Contract)
  | Failure (message : String)
  -- Fees_storage
  | Cannot_pay_storage_fee
  | Storage_quota_exceeded
  | Storage_limit_too_high
  -- Script_repr, Script_tc_errors and Script_interpreter
  | Lazy_script_decode
  | No_such_entrypoint (entrypoint : String)
  | Bad_contract_parameter (contract : Contract)
  | Script_error (message : String)
  | Invalid_arity (loc : Int) (prim : Prim) (expected got : Nat)
  | Invalid_namespace (loc : Int) (prim : Prim) (expected got : Namespace)
  | Invalid_primitive (loc : Int) (expected : List Prim) (got : Prim)
  | Invalid_kind (loc : Int) (expected : List Kind) (got : Kind)
  | Unexpected_big_map (loc : Int)
  | Unexpected_operation (loc : Int)
  | Unexpected_contract (loc : Int)
  | Unexpected_annotation (loc : Int)
  | Ungrouped_annotations (loc : Int)
  | Comparable_type_expected (loc : Int) (ty : Script_node)
  | Inconsistent_types (ta tb : Script_node)
  | Cannot_serialize_error
  -- Raw_level_repr, Period_repr, Time_repr and Fitness_repr
  | Unexpected_level (level : Int32)
  | Malformed_period
  | Invalid_arg
  | Timestamp_sub
  | Invalid_fitness
  -- Operation_repr, Baking and Nonce_storage
  | Timestamp_too_early (minimal provided : Int64)
  | Invalid_stamp
  | Invalid_fitness_gap (max gap : Int64)
  | Invalid_signature
  | Missing_signature
  | Incorrect_priority
  | Incorrect_number_of_endorsements
  | Unexpected_endorsement
  | Invalid_block_signature (hash : Block_hash) (pkh : Public_key_hash)
  | Too_late_revelation
  | Too_early_revelation
  | Previously_revealed_nonce
  | Unexpected_nonce
  -- Amendment
  | Invalid_proposal
  | Unexpected_proposal
  | Unauthorized_proposal
  | Too_many_proposals
  | Empty_proposal
  | Unexpected_ballot
  | Unauthorized_ballot
  -- Apply
  | Wrong_endorsement_predecessor (expected provided : Block_hash)
  | Invalid_endorsement_level
  | Duplicate_endorsement (delegate : Public_key_hash)
  | Invalid_double_endorsement_evidence
  | Inconsistent_double_endorsement_evidence (delegate1 delegate2 : Public_key_hash)
  | Unrequired_double_endorsement_evidence
  | Too_early_double_endorsement_evidence (level current : Raw_level)
  | Outdated_double_endorsement_evidence (level last : Raw_level)
  | Invalid_double_baking_evidence (hash1 : Block_hash) (level1 : Int) (hash2 : Block_hash)
      (level2 : Int)
  | Inconsistent_double_baking_evidence (delegate1 delegate2 : Public_key_hash)
  | Unrequired_double_baking_evidence
  | Too_early_double_baking_evidence (level current : Raw_level)
  | Outdated_double_baking_evidence (level last : Raw_level)
  | Invalid_activation (pkh : Nat)
  | Wrong_voting_period (expected provided : Voting_period)
  | Internal_operation_replay (op : Internal_operation)
  | Gas_quota_exceeded_init_deserialize
  | Invalid_commitment (expected : Bool)
  | Not_enough_endorsements_for_priority (required priority endorsements : Nat) (timestamp : Int64)

/-- The exceptions that escape the error monad. -/
inductive Exn where
  /-- `Cycle_repr.sub` and `Cycle_repr.add` by an offset that is not positive -/
  | Assert_cycle_offset
  | Assert_init_storage_space_to_pay
  | Assert_update_storage_space_to_pay
  | Assert_update_allocated_contracts_count
  | Assert_clear_storage_space_to_pay
  | Assert_record_endorsement
  | Assert_init_endorsements
  | Assert_internal
  | Assert_total_size
  | Assert_originated_contracts
  | Assert_compute_for_cycle
  | Assert_previous_level
  | Assert_longer_than
  | Assert_genesis
  /-- `invalid_arg` of `Seed_repr.take_int32` -/
  | Invalid_arg_take_int32
  | Division_by_zero
  /-- `Z.to_int64` outside the range of `int64` -/
  | Z_overflow
  /-- A walk of `Storage_functors` meets a path that is not one of the index. -/
  | Assert_of_path
  /-- The digits in front of a key are not those of its hash. -/
  | Assert_index_key
  /-- `Signature.Public_key_hash.of_path` -/
  | Assert_public_key_hash_path
  | Invalid_argument_hex
  | Failure_of_string
  /-- An assertion of the functions on scripts, such as the one of `unparse_data`
  on a big map whose changes were not flushed -/
  | Assert_script
deriving DecidableEq, Repr

abbrev Trace := List Error

/-- Whether the only error is that nothing is stored under a key. -/
def missing (key : Key) (access : Access) : Trace → Bool
  | [.Storage_error err] => decide (err = .Missing_key key access)
  | _ => false

theorem missing_iff {key : Key} {access : Access} {trace : Trace} :
    missing key access trace = true ↔ trace = [.Storage_error (.Missing_key key access)] := by
  unfold missing
  split
  · simp
  · next hne =>
    refine iff_of_false (by simp) ?_
    rintro rfl
    exact hne _ rfl

/-- What a function of the error monad returns. -/
abbrev Tzresult (α : Type) := Result Trace Exn α

/-- What the carbonated part of the protocol does besides computing its
result. -/
inductive Event where
  /-- a successful `Gas_limit_repr.consume` lowered the gas levels by `gas` -/
  | consume (gas : Int)
  /-- `Contract_storage.delete` was entered on `contract` with these balances -/
  | delete (contract : Contract) (balance : Option Tez) (mine_balance : Option Mine)
  /-- `Fees_storage.burn_storage_fees` took `amount` from the payer -/
  | burn (amount : Mine)

/-- A carbonated computation with the record of its events. -/
abbrev Carbonated (α : Type) := Traced Event Trace Exn α

def fail {α : Type} (e : Error) : Tzresult α := .error [e]

def fail_unless (b : Bool) (e : Error) : Tzresult Unit := if b then pure () else fail e

def fail_when (b : Bool) (e : Error) : Tzresult Unit := if b then fail e else pure ()

/-- `trace` and `record_trace`: put an error in front of those of a failure. -/
def trace {α : Type} (e : Error) : Tzresult α → Tzresult α
  | .error t => .error (e :: t)
  | r => r

def trace_carbonated {α : Type} (e : Error) (m : Carbonated α) : Carbonated α :=
  ⟨m.events, trace e m.outcome⟩

variable {α : Type} {e : Error} {r : Tzresult α} {b : Bool}

@[simp] theorem trace_eq_ok_iff {a : α} : trace e r = .ok a ↔ r = .ok a := by
  cases r <;> simp [trace]

theorem trace_eq_raise_iff {x : Exn} : trace e r = .raise x ↔ r = .raise x := by
  cases r <;> simp [trace]

theorem trace_eq_div_iff : trace e r = .div ↔ r = .div := by
  cases r <;> simp [trace]

@[simp] theorem fail_ne_ok {a : α} : fail e ≠ .ok a := by
  simp [fail]

@[simp] theorem fail_unless_eq_ok_iff {u : Unit} :
    fail_unless b e = .ok u ↔ b = true := by
  cases b <;> simp [fail_unless]

/-- `Cycle_repr.sub` -/
def cycle_repr.sub (c : Cycle) (i : Nat) : Tzresult (Option Cycle) :=
  if i = 0 then .raise .Assert_cycle_offset
  else .ok (if c < i then none else some (c - i))

theorem cycle_repr.sub_eq_ok_iff {c : Cycle} {i : Nat} {o : Option Cycle} :
    cycle_repr.sub c i = .ok o ↔ 0 < i ∧ o = if c < i then none else some (c - i) := by
  unfold cycle_repr.sub
  by_cases hi : i = 0
  · simp [hi]
  · rw [if_neg hi, Result.ok.injEq, eq_comm, and_iff_right (Nat.pos_of_ne_zero hi)]

theorem meets_fail {Q : α → Prop} : (fail e : Tzresult α).Meets Q := meets_error _

theorem total_fail (e : Error) : (fail e : Tzresult α).Total := total_error _

theorem fail_unless_spec : (fail_unless b e).Meets fun _ => b = true := by
  cases b
  · exact meets_fail
  · exact meets_ok rfl

theorem fail_when_spec : (fail_when b e).Meets fun _ => b = false := by
  cases b
  · exact meets_ok rfl
  · exact meets_fail

theorem total_trace (e : Error) (h : r.Total) : (trace e r).Total := by
  rcases h with ⟨a, rfl⟩ | ⟨t, rfl⟩
  · exact total_ok a
  · exact total_error _

theorem meets_trace {Q : α → Prop} (h : r.Meets Q) : (trace e r).Meets Q :=
  ⟨total_trace e h.total, fun ha => h.of_ok (trace_eq_ok_iff.mp ha)⟩

end plexus
