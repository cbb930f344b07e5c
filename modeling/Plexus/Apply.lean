import Plexus.Baking

namespace plexus

open delegate_storage (Balance_updates cleanup_balance_updates)

inductive Contents_result_list where
  | Endorsement_result (balance_updates : Balance_updates) (delegate : Public_key_hash)
      (slots : List Nat)
  | Seed_nonce_revelation_result (balance_updates : Balance_updates)
  | Double_endorsement_evidence_result (balance_updates : Balance_updates)
  | Double_baking_evidence_result (balance_updates : Balance_updates)
  | Activate_account_result (balance_updates : Balance_updates)
  | Proposals_result
  | Ballot_result
  | Manager_operations_result (results : List Manager_contents_result)

/-- `Apply_results.block_metadata` -/
structure Block_metadata where
  baker : Public_key_hash
  level : Level
  voting_period_kind : Voting_period_kind
  nonce_hash : Option Nat
  consumed_gas : ℤ
  deactivated : List Public_key_hash
  balance_updates : Balance_updates

namespace apply

/-! Operations of bakers and delegates. -/

section

variable [Environment] (ctxt : Context) (chain_id : Chain_id)

def apply_endorsement (pred_block : Block_hash)
    (op : Endorsement_operation) : Tzresult (Context × Contents_result_list) := do
  fail_unless (decide (op.branch = pred_block)) (.Wrong_endorsement_predecessor pred_block op.branch)
  let current_level := (level_storage.current ctxt).level
  fail_unless (decide (op.level + 1 = current_level)) .Invalid_endorsement_level
  let (delegate, slots, used) ← baking.check_endorsement_rights ctxt chain_id op
  if used then fail (.Duplicate_endorsement delegate)
  else
    let ctxt ← raw_context.record_endorsement ctxt delegate
    let gap := slots.length
    let deposit ← ctxt.constants.endorsement_security_deposit.mul (Int64.ofNat gap)
    let ctxt ← delegate_storage.freeze_deposit ctxt delegate deposit
    let block_priority ← Storage.Block_priority.get ctxt
    let reward ← baking.endorsing_reward ctxt block_priority gap
    let ctxt ← delegate_storage.freeze_rewards ctxt delegate reward
    let level := level_storage.from_raw ctxt op.level
    pure (ctxt, .Endorsement_result
      (cleanup_balance_updates
        [(.Contract (contract_repr.implicit_contract delegate), .MineDebited deposit),
          (.Deposits delegate level.cycle, .MineCredited deposit),
          (.Rewards delegate level.cycle, .Credited reward)])
      delegate slots)

def apply_seed_nonce_revelation (baker : Public_key_hash) (level : Raw_level)
    (nonce : MBytes) : Tzresult (Context × Contents_result_list) := do
  let level := level_storage.from_raw ctxt level
  let ctxt ← nonce_storage.reveal ctxt level nonce
  let seed_nonce_revelation_tip := ctxt.constants.seed_nonce_revelation_tip
  let ctxt ← raw_context.add_rewards ctxt seed_nonce_revelation_tip
  pure (ctxt, .Seed_nonce_revelation_result
    [(.Rewards baker level.cycle, .Credited seed_nonce_revelation_tip)])

/-- Half of what is burned goes to the baker, unit for unit in the other
token. -/
def denunciation_reward (burned : Mine) : Tez :=
  let burned : Tez := (Qty.of_mutez burned.to_mutez).getD Qty.zero
  match burned.div 2 with
  | .ok v => v
  | _ => Qty.zero

/-- The end of both kinds of evidence: take what the delegate has frozen in the
cycle of the offence and reward the baker. -/
def punish_and_reward (baker delegate : Public_key_hash) (level : Level) :
    Tzresult (Context × Balance_updates) := do
  let (ctxt, balance) ← delegate_storage.punish ctxt delegate level.cycle
  let burned ← balance.deposit.add balance.fees
  let reward := denunciation_reward burned
  let ctxt ← raw_context.add_rewards ctxt reward
  let current_cycle := (level_storage.current ctxt).cycle
  pure (ctxt, cleanup_balance_updates
    [(.Deposits delegate level.cycle, .MineDebited balance.deposit),
      (.Fees delegate level.cycle, .MineDebited balance.fees),
      (.Rewards delegate level.cycle, .Debited balance.rewards),
      (.Rewards baker current_cycle, .Credited reward)])

def apply_double_endorsement_evidence (baker : Public_key_hash) (op1 op2 : Endorsement_operation) :
    Tzresult (Context × Contents_result_list) :=
  if op1.level = op2.level ∧ op1.branch ≠ op2.branch then do
    let level := level_storage.from_raw ctxt op1.level
    let oldest_level ← level_storage.last_allowed_fork_level ctxt
    let current := (level_storage.current ctxt).level
    fail_unless (decide (level.level < current))
      (.Too_early_double_endorsement_evidence level.level current)
    fail_unless (decide (oldest_level ≤ level.level))
      (.Outdated_double_endorsement_evidence level.level oldest_level)
    let (delegate1, _, _) ← baking.check_endorsement_rights ctxt chain_id op1
    let (delegate2, _, _) ← baking.check_endorsement_rights ctxt chain_id op2
    fail_unless (decide (delegate1 = delegate2))
      (.Inconsistent_double_endorsement_evidence delegate1 delegate2)
    fail_unless (delegate_storage.has_frozen_balance ctxt delegate1 level.cycle)
      .Unrequired_double_endorsement_evidence
    let (ctxt, balance_updates) ← punish_and_reward ctxt baker delegate1 level
    pure (ctxt, .Double_endorsement_evidence_result balance_updates)
  else fail .Invalid_double_endorsement_evidence

def apply_double_baking_evidence (baker : Public_key_hash)
    (bh1 bh2 : Block_header) : Tzresult (Context × Contents_result_list) := do
  let hash1 := Environment.block_header_hash bh1
  let hash2 := Environment.block_header_hash bh2
  fail_unless (decide (bh1.level = bh2.level) && decide (hash1 ≠ hash2))
    (.Invalid_double_baking_evidence hash1 bh1.level.toInt hash2 bh2.level.toInt)
  let raw_level ← raw_level_repr.of_int32 bh1.level
  let oldest_level ← level_storage.last_allowed_fork_level ctxt
  let current := (level_storage.current ctxt).level
  fail_unless (decide (raw_level < current)) (.Too_early_double_baking_evidence raw_level current)
  fail_unless (decide (oldest_level ≤ raw_level))
    (.Outdated_double_baking_evidence raw_level oldest_level)
  let level := level_storage.from_raw ctxt raw_level
  let delegate1 ← roll_storage.baking_rights_owner ctxt level bh1.contents.priority
  baking.check_signature bh1 chain_id delegate1
  let delegate2 ← roll_storage.baking_rights_owner ctxt level bh2.contents.priority
  baking.check_signature bh2 chain_id delegate2
  fail_unless (decide (delegate1 = delegate2))
    (.Inconsistent_double_baking_evidence (Environment.public_key_hash delegate1)
      (Environment.public_key_hash delegate2))
  let delegate := Environment.public_key_hash delegate1
  fail_unless (delegate_storage.has_frozen_balance ctxt delegate level.cycle)
    .Unrequired_double_baking_evidence
  let (ctxt, balance_updates) ← punish_and_reward ctxt baker delegate level
  pure (ctxt, .Double_baking_evidence_result balance_updates)

def apply_activate_account (pkh activation_code : Nat) :
    Carbonated (Context × Contents_result_list) :=
  let blinded_pkh := Environment.blinded_public_key_hash activation_code pkh
  match Storage.Commitments.get_option ctxt blinded_pkh with
  | none => fail (.Invalid_activation pkh)
  | some amount => do
    let ctxt ← Storage.Commitments.delete ctxt blinded_pkh
    let contract := contract_repr.implicit_contract (.Ed25519 pkh)
    let ctxt ← contract_storage.credit ctxt contract amount Qty.zero
    pure (ctxt, .Activate_account_result [(.Contract contract, .Credited amount)])

/-- The checks shared by proposals and ballots. -/
def check_voter (operation : Operation) (source : Public_key_hash)
    (period : Voting_period) : Tzresult Unit := do
  let delegate ← roll_storage.delegate_pubkey ctxt source
  check_signature delegate operation
  let level := level_storage.current ctxt
  fail_unless (decide (level.voting_period = period)) (.Wrong_voting_period level.voting_period period)

def apply_contents_list (mode : Unparsing_mode)
    (pred_block : Block_hash) (baker : Public_key_hash) (operation : Operation) :
    Carbonated (Context × Contents_result_list) :=
  match operation.contents with
  | .Endorsement level =>
    apply_endorsement ctxt chain_id pred_block ⟨operation.branch, level, operation.signature⟩
  | .Seed_nonce_revelation level nonce => apply_seed_nonce_revelation ctxt baker level nonce
  | .Double_endorsement_evidence op1 op2 =>
    apply_double_endorsement_evidence ctxt chain_id baker op1 op2
  | .Double_baking_evidence bh1 bh2 => apply_double_baking_evidence ctxt chain_id baker bh1 bh2
  | .Activate_account id activation_code => apply_activate_account ctxt id activation_code
  | .Proposals source period proposals => do
    check_voter ctxt operation source period
    let ctxt ← amendment.record_proposals ctxt source proposals
    pure (ctxt, .Proposals_result)
  | .Ballot source period proposal ballot => do
    check_voter ctxt operation source period
    let ctxt ← amendment.record_ballot ctxt source proposal ballot
    pure (ctxt, .Ballot_result)
  | .Manager_operations op rest => do
    let (ctxt, results) ← apply_manager_operations ctxt chain_id mode baker operation (op :: rest)
    pure (ctxt, .Manager_operations_result results)

def apply_operation (mode : Unparsing_mode)
    (pred_block : Block_hash) (baker : Public_key_hash) (hash : Operation_hash)
    (operation : Operation) : Carbonated (Context × Contents_result_list) := do
  let ctxt := raw_context.init_origination_nonce ctxt hash
  let (ctxt, result) ← apply_contents_list ctxt chain_id mode pred_block baker operation
  let ctxt := raw_context.set_gas_unlimited ctxt
  let ctxt := raw_context.unset_origination_nonce ctxt
  pure (ctxt, result)

end

/-! Blocks. -/

def may_snapshot_roll (ctxt : Context) : Tzresult Context :=
  let level := level_storage.current ctxt
  let blocks_per_roll_snapshot := ctxt.constants.blocks_per_roll_snapshot
  if level.cycle_position % blocks_per_roll_snapshot + 1 = blocks_per_roll_snapshot then
    roll_storage.snapshot_rolls ctxt
  else pure ctxt

section

variable [Environment] (ctxt : Context) (protocol_data : Block_header_contents)

def may_start_new_cycle :
    Tzresult (Context × Balance_updates × List Public_key_hash) :=
  match baking.dawn_of_a_new_cycle ctxt with
  | none => pure (ctxt, [], [])
  | some last_cycle => do
    let (ctxt, unrevealed) ← seed_storage.cycle_end ctxt last_cycle
    let ctxt ← roll_storage.cycle_end ctxt last_cycle
    let (ctxt, update_balances, deactivated) ←
      delegate_storage.cycle_end ctxt last_cycle unrevealed
    let ctxt ← bootstrap_storage.cycle_end ctxt last_cycle
    pure (ctxt, update_balances, deactivated)

/-- What every mode does before the operations of a block: the delegates that
endorsed the previous level may be named. -/
def begin_endorsements : Tzresult Context :=
  let ctxt := { ctxt with fitness := 1 + ctxt.fitness }
  match level_storage.pred ctxt (level_storage.current ctxt) with
  | none => .raise .Assert_genesis
  | some pred_level => do
    let rights ← baking.endorsement_rights ctxt pred_level
    raw_context.init_endorsements ctxt rights

def begin_full_construction (pred_timestamp : Int64)
    (protocol_data : Block_header_contents) : Tzresult (Context × Public_key × Int64) := do
  let ctxt ← Storage.Block_priority.set ctxt protocol_data.priority
  let (delegate_pk, block_delay) ← baking.check_baking_rights ctxt protocol_data pred_timestamp
  let ctxt ← begin_endorsements ctxt
  pure (ctxt, delegate_pk, block_delay)

def begin_partial_construction : Tzresult Context := begin_endorsements ctxt

def begin_application (chain_id : Chain_id) (block_header : Block_header)
    (pred_timestamp : Int64) : Tzresult (Context × Public_key × Int64) := do
  let ctxt ← Storage.Block_priority.set ctxt block_header.contents.priority
  let current_level := level_storage.current ctxt
  baking.check_proof_of_work_stamp ctxt block_header
  baking.check_fitness_gap ctxt block_header
  let (delegate_pk, block_delay) ←
    baking.check_baking_rights ctxt block_header.contents pred_timestamp
  baking.check_signature block_header chain_id delegate_pk
  let has_commitment := block_header.contents.seed_nonce_hash.isSome
  fail_unless (decide (has_commitment = current_level.expected_commitment))
    (.Invalid_commitment current_level.expected_commitment)
  let ctxt ← begin_endorsements ctxt
  pure (ctxt, delegate_pk, block_delay)

omit [Environment] in
def check_minimum_endorsements
    (block_delay : Int64) (included_endorsements : Nat) : Tzresult Unit :=
  let minimum := baking.minimum_allowed_endorsements ctxt block_delay
  fail_unless (decide (minimum ≤ included_endorsements))
    (.Not_enough_endorsements_for_priority minimum protocol_data.priority included_endorsements
      ctxt.timestamp)

/-- Freeze the deposits recorded for the block. -/
def freeze_deposits : Tzresult Context :=
  let deposits := ctxt.deposits
  deposits.keys.sort.foldlM (fun ctxt delegate =>
    match deposits.lookup delegate with
    | none => pure ctxt
    | some deposit => delegate_storage.freeze_deposit ctxt delegate deposit) ctxt

/-- What the baker gets and commits to at the end of the block. -/
def freeze_baker_income (delegate : Public_key_hash) : Tzresult Context := do
  let mine_fees := ctxt.mine_fees
  let fees := ctxt.fees
  let ctxt ← delegate_storage.freeze_fees ctxt delegate mine_fees
  let rewards := ctxt.rewards
  let mine_rewards := ctxt.mine_rewards
  let ctxt ← delegate_storage.freeze_rewards ctxt delegate rewards
  match protocol_data.seed_nonce_hash with
  | none => pure ctxt
  | some nonce_hash =>
    nonce_storage.record_hash ctxt { nonce_hash, delegate, rewards, mine_rewards, fees, mine_fees }

def finalize_application
    (delegate : Public_key_hash) (block_delay : Int64) : Tzresult (Context × Block_metadata) := do
  let included_endorsements := ctxt.included_endorsements
  check_minimum_endorsements ctxt protocol_data block_delay included_endorsements
  let deposit := ctxt.constants.block_security_deposit
  let ctxt ← raw_context.add_deposit ctxt delegate deposit
  let reward ← baking.baking_reward ctxt protocol_data.priority included_endorsements
  let ctxt ← raw_context.add_rewards ctxt reward
  let ctxt ← freeze_deposits ctxt
  let ctxt ← freeze_baker_income ctxt protocol_data delegate
  let ctxt ← may_snapshot_roll ctxt
  let (ctxt, balance_updates, deactivated) ← may_start_new_cycle ctxt
  let ctxt ← amendment.may_start_new_voting_period ctxt
  let cycle := (level_storage.current ctxt).cycle
  let balance_updates := cleanup_balance_updates
    ([(.Contract (contract_repr.implicit_contract delegate), .MineDebited deposit),
      (.Deposits delegate cycle, .MineCredited deposit),
      (.Rewards delegate cycle, .Credited reward)] ++ balance_updates)
  let consumed_gas := ctxt.constants.hard_gas_limit_per_block - ctxt.block_gas
  let voting_period_kind ← Storage.Vote.Current_period_kind.get ctxt
  pure (ctxt,
    { baker := delegate
      level := level_storage.current ctxt
      voting_period_kind
      nonce_hash := protocol_data.seed_nonce_hash
      consumed_gas
      deactivated
      balance_updates })

end

end apply

end plexus
