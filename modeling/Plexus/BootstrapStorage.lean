import Plexus.ContractStorage
import Plexus.VoteStorage

namespace plexus

namespace Storage

@[simps store update] def Commitments : Indexed_data_storage Nat Tez where
  absolute_key := .commitment
  store ctxt := ctxt.commitments
  update ctxt s := { ctxt with commitments := s }

@[simps value update] def Block_priority : Single_data_storage Nat where
  absolute_key := .block_priority
  value ctxt := ctxt.block_priority
  update ctxt v := { ctxt with block_priority := v }

namespace Ramp_up

@[simps store update] def Rewards : Indexed_data_storage Cycle (List Tez × List Tez) where
  absolute_key := .ramp_up_rewards
  store ctxt := ctxt.ramp_up_rewards
  update ctxt s := { ctxt with ramp_up_rewards := s }

@[simps store update] def Security_deposits : Indexed_data_storage Cycle (Mine × Mine) where
  absolute_key := .ramp_up_deposits
  store ctxt := ctxt.ramp_up_deposits
  update ctxt s := { ctxt with ramp_up_deposits := s }

end Ramp_up

end Storage

/-! The parameters of the genesis block. -/

structure Bootstrap_account where
  public_key_hash : Public_key_hash
  public_key : Option Public_key
  amount : Tez
  mine_amount : Mine

structure Bootstrap_contract where
  delegate : Public_key_hash
  amount : Tez
  script : Script

structure Commitment where
  blinded_public_key_hash : Nat
  amount : Tez

structure Parameters where
  bootstrap_accounts : List Bootstrap_account
  bootstrap_contracts : List Bootstrap_contract
  commitments : List Commitment
  constants : Constants
  security_deposit_ramp_up_cycles : Option Nat
  no_reward_cycles : Option Nat

namespace commitment_storage

def init (ctxt : Context) (commitments : List Commitment) : Tzresult Context :=
  commitments.foldlM (fun ctxt commitment =>
    Storage.Commitments.init ctxt commitment.blinded_public_key_hash commitment.amount) ctxt

end commitment_storage

namespace bootstrap_storage

section

variable [Environment]

/-- The one key whose account is not registered as a delegate. -/
def unregistered_key : String := "edpktyrhPtpHe9L99NrTCMCAqPLJeLB5d93qDThhtz8noE68kAACQr"

def init_account (ctxt : Context) (account : Bootstrap_account) : Carbonated Context := do
  let contract := contract_repr.implicit_contract account.public_key_hash
  let ctxt ← contract_storage.credit ctxt contract account.amount account.mine_amount
  match account.public_key with
  | some public_key =>
    let ctxt ← contract_storage.reveal_manager_key ctxt account.public_key_hash public_key
    if Environment.public_key_to_b58check public_key = unregistered_key then pure ctxt
    else delegate_storage.set ctxt contract (some account.public_key_hash)
  | none => pure ctxt

/-- `typecheck` of the initialisation in `main.ml` -/
def typecheck (ctxt : Context) (script : Script) :
    Carbonated ((Script × Option Big_map_diff) × Context) := do
  let (parsed_script, ctxt) ← Environment.parse_script ctxt script
  let (storage, big_map_diff, ctxt) ←
    Environment.extract_big_map_diff ctxt .Optimized parsed_script []
  let (storage, ctxt) ← Environment.unparse_data ctxt .Optimized storage
  pure (({ script with storage := script_repr.lazy_expr storage }, big_map_diff), ctxt)

def init_contract (ctxt : Context) (bootstrap_contract : Bootstrap_contract) :
    Carbonated Context := do
  let (ctxt, contract) ← contract_storage.fresh_contract_from_current_nonce ctxt
  let (script, ctxt) ← typecheck ctxt bootstrap_contract.script
  contract_storage.originate ctxt true contract bootstrap_contract.amount script
    (some bootstrap_contract.delegate)

end

/-- The first cycles pay no rewards. -/
def init_no_reward_cycles (ctxt : Context) (no_reward_cycles : Option Nat) : Tzresult Context :=
  match no_reward_cycles with
  | none => pure ctxt
  | some cycles =>
    let constants := raw_context.constants ctxt
    let ctxt := raw_context.patch_constants ctxt fun c =>
      { c with baking_reward_per_endorsement := [Qty.zero], endorsement_reward := [Qty.zero] }
    Storage.Ramp_up.Rewards.init ctxt cycles
      (constants.baking_reward_per_endorsement, constants.endorsement_reward)

/-- The security deposits grow from nothing over the first cycles. -/
def init_ramp_up_cycles (ctxt : Context) (ramp_up_cycles : Option Nat) : Tzresult Context :=
  match ramp_up_cycles with
  | none => pure ctxt
  | some cycles => do
    let constants := raw_context.constants ctxt
    let block_step ← constants.block_security_deposit.div (Int64.ofNat cycles)
    let endorsement_step ← constants.endorsement_security_deposit.div (Int64.ofNat cycles)
    let ctxt := raw_context.patch_constants ctxt fun c =>
      { c with block_security_deposit := Qty.zero, endorsement_security_deposit := Qty.zero }
    let ctxt ← (List.range' 1 (cycles - 1)).foldlM (fun ctxt cycle => do
      let block_security_deposit ← block_step.mul (Int64.ofNat cycle)
      let endorsement_security_deposit ← endorsement_step.mul (Int64.ofNat cycle)
      Storage.Ramp_up.Security_deposits.init ctxt cycle
        (block_security_deposit, endorsement_security_deposit)) ctxt
    Storage.Ramp_up.Security_deposits.init ctxt cycles
      (constants.block_security_deposit, constants.endorsement_security_deposit)

def init [Environment] (ctxt : Context) (ramp_up_cycles no_reward_cycles : Option Nat)
    (accounts : List Bootstrap_account) (contracts : List Bootstrap_contract) :
    Carbonated Context := do
  let nonce := Environment.operation_hash [seed_repr.bytes_of_string "Un festival de GADT."]
  let ctxt := raw_context.init_origination_nonce ctxt nonce
  let ctxt ← accounts.foldlM init_account ctxt
  let ctxt ← contracts.foldlM init_contract ctxt
  let ctxt ← init_no_reward_cycles ctxt no_reward_cycles
  init_ramp_up_cycles ctxt ramp_up_cycles

def cycle_end (ctxt : Context) (last_cycle : Cycle) : Tzresult Context := do
  let next_cycle := cycle_repr.succ last_cycle
  let ctxt ←
    (match Storage.Ramp_up.Rewards.get_option ctxt next_cycle with
    | none => pure ctxt
    | some (baking_reward_per_endorsement, endorsement_reward) => do
      let ctxt ← Storage.Ramp_up.Rewards.delete ctxt next_cycle
      pure (raw_context.patch_constants ctxt fun c =>
        { c with baking_reward_per_endorsement, endorsement_reward }))
  match Storage.Ramp_up.Security_deposits.get_option ctxt next_cycle with
  | none => pure ctxt
  | some (block_security_deposit, endorsement_security_deposit) =>
    let ctxt ← Storage.Ramp_up.Security_deposits.delete ctxt next_cycle
    pure (raw_context.patch_constants ctxt fun c =>
      { c with block_security_deposit, endorsement_security_deposit })

end bootstrap_storage

namespace init_storage

/-- The state of the genesis block. -/
def prepare_first_block [Environment] (param : Parameters) (level : Raw_level)
    (timestamp fitness : Int64) : Carbonated Context := do
  let ctxt := raw_context.prepare_first_block param.constants level timestamp fitness
  let ctxt ← commitment_storage.init ctxt param.commitments
  let ctxt ← roll_storage.init ctxt
  let ctxt ← seed_storage.init ctxt
  let ctxt ← contract_storage.init ctxt
  let ctxt ← bootstrap_storage.init ctxt param.security_deposit_ramp_up_cycles
    param.no_reward_cycles param.bootstrap_accounts param.bootstrap_contracts
  let ctxt ← roll_storage.init_first_cycles ctxt
  let ctxt ← vote_storage.init ctxt
  let ctxt ← Storage.Block_priority.init ctxt 0
  vote_storage.freeze_listings ctxt

end init_storage

end plexus
