import Mathlib.Data.Finset.Sort
import Plexus.RollAccounts

namespace plexus.delegate_storage

/-! Balance updates of receipts. -/

inductive Balance where
  | Contract (contract : Contract)
  | Rewards (delegate : Public_key_hash) (cycle : Cycle)
  | Fees (delegate : Public_key_hash) (cycle : Cycle)
  | Deposits (delegate : Public_key_hash) (cycle : Cycle)
deriving DecidableEq

inductive Balance_update where
  | Debited (amount : Tez)
  | Credited (amount : Tez)
  | MineDebited (amount : Mine)
  | MineCredited (amount : Mine)
deriving DecidableEq

abbrev Balance_updates := List (Balance × Balance_update)

def cleanup_balance_updates (balance_updates : Balance_updates) : Balance_updates :=
  balance_updates.filter fun (_, update) =>
    match update with
    | .Credited u => decide (u ≠ Qty.zero)
    | .Debited u => decide (u ≠ Qty.zero)
    | .MineCredited u => decide (u ≠ Qty.zero)
    | .MineDebited u => decide (u ≠ Qty.zero)

structure Frozen_balance where
  deposit : Mine
  fees : Mine
  rewards : Tez

/-! Delegation. -/

def link (c : Context) (contract : Contract) (delegate : Public_key_hash) : Tzresult Context := do
  let balance ← Storage.Contract.MineBalance.get c contract
  let c ← roll_storage.Delegate.add_amount c delegate balance
  pure (Storage.Contract.Delegated.add c (contract_repr.implicit_contract delegate, contract))

def unlink (c : Context) (contract : Contract) : Tzresult Context := do
  let balance ← Storage.Contract.MineBalance.get c contract
  match Storage.Contract.Delegate.get_option c contract with
  | none => pure c
  | some delegate =>
    let c ← roll_storage.Delegate.remove_amount c delegate balance
    pure (Storage.Contract.Delegated.del c (contract_repr.implicit_contract delegate, contract))

def known (c : Context) (delegate : Public_key_hash) : Bool :=
  match Storage.Contract.Manager.get_option c (contract_repr.implicit_contract delegate) with
  | none => false
  | some (.Hash _) => false
  | some (.Public_key _) => true

/-- A delegate is registered if its implicit account delegates to itself. -/
def registered (c : Context) (delegate : Public_key_hash) : Bool :=
  match Storage.Contract.Delegate.get_option c (contract_repr.implicit_contract delegate) with
  | some current_delegate => decide (delegate = current_delegate)
  | none => false

variable (ctxt : Context) (delegate : Public_key_hash)

def init (contract : Contract) (delegate : Public_key_hash) :
    Tzresult Context := do
  fail_unless (known ctxt delegate) (.Unregistered_delegate delegate)
  fail_unless (registered ctxt delegate) (.Unregistered_delegate delegate)
  let ctxt ← Storage.Contract.Delegate.init ctxt contract delegate
  link ctxt contract delegate

def get (c : Context) (contract : Contract) : Option Public_key_hash :=
  roll_storage.get_contract_delegate c contract

/-- Whether the contract is the implicit account of the delegate. -/
def self_delegation (contract : Contract) (delegate : Public_key_hash) : Bool :=
  match contract_repr.is_implicit contract with
  | some pkh => decide (pkh = delegate)
  | none => false

/-- The first check of `set`: the delegate is a new one, or it is the inactive
owner of the account. -/
def check_current_delegate (c : Context) (contract : Contract) (delegate : Public_key_hash) :
    Tzresult Unit :=
  match Storage.Contract.Delegate.get_option c contract with
  | none => pure ()
  | some current_delegate =>
    if delegate = current_delegate then
      if self_delegation contract delegate then
        if roll_storage.Delegate.is_inactive c delegate then pure () else fail .Active_delegate
      else fail .Current_delegate
    else pure ()

/-- The second check of `set`: a registered delegate delegates to itself only. -/
def check_not_registered (c : Context) (contract : Contract) (delegate : Public_key_hash) :
    Tzresult Unit :=
  match contract_repr.is_implicit contract with
  | none => pure ()
  | some pkh =>
    if !self_delegation contract delegate && registered c pkh then fail (.No_deletion pkh)
    else pure ()

def set (c : Context) (contract : Contract) (delegate : Option Public_key_hash) :
    Tzresult Context :=
  match delegate with
  | none =>
    let delete : Tzresult Context := do
      let c ← unlink c contract
      pure (Storage.Contract.Delegate.remove c contract)
    match contract_repr.is_implicit contract with
    | some pkh => if registered c pkh then fail (.No_deletion pkh) else delete
    | none => delete
  | some delegate =>
    if !known c delegate || !(registered c delegate || self_delegation contract delegate) then
      fail (.Unregistered_delegate delegate)
    else do
      check_current_delegate c contract delegate
      check_not_registered c contract delegate
      fail_when (self_delegation contract delegate && !Storage.Contract.MineBalance.mem c contract)
        (.Empty_delegate_account delegate)
      let c ← unlink c contract
      let c := Storage.Contract.Delegate.init_set c contract delegate
      let c ← link c contract delegate
      if self_delegation contract delegate then
        roll_storage.Delegate.set_active (Storage.Delegates.add c delegate) delegate
      else pure c

def remove (contract : Contract) : Tzresult Context := unlink ctxt contract

/-! The freezer. -/

def get_frozen_deposit (contract : Contract) (cycle : Cycle) : Mine :=
  match Storage.Contract.Frozen_deposits.get_option ctxt (contract, cycle) with
  | none => Qty.zero
  | some frozen => frozen

def credit_frozen_deposit (cycle : Cycle)
    (amount : Mine) : Tzresult Context := do
  let contract := contract_repr.implicit_contract delegate
  let old_amount := get_frozen_deposit ctxt contract cycle
  let new_amount ← old_amount.add amount
  let ctxt := Storage.Contract.Frozen_deposits.init_set ctxt (contract, cycle) new_amount
  pure (Storage.Delegates_with_frozen_balance.add ctxt (cycle, delegate))

def freeze_deposit (amount : Mine) :
    Tzresult Context := do
  let cycle := (raw_context.current_level ctxt).cycle
  let ctxt ← roll_storage.Delegate.set_active ctxt delegate
  let contract := contract_repr.implicit_contract delegate
  let balance ← Storage.Contract.MineBalance.get ctxt contract
  let new_balance ← trace (.MineBalance_too_low_for_deposit delegate amount balance)
    (balance.sub amount)
  let ctxt ← Storage.Contract.MineBalance.set ctxt contract new_balance
  credit_frozen_deposit ctxt delegate cycle amount

def get_frozen_fees (contract : Contract) (cycle : Cycle) : Mine :=
  match Storage.Contract.Frozen_fees.get_option ctxt (contract, cycle) with
  | none => Qty.zero
  | some frozen => frozen

def credit_frozen_fees (cycle : Cycle)
    (amount : Mine) : Tzresult Context := do
  let contract := contract_repr.implicit_contract delegate
  let old_amount := get_frozen_fees ctxt contract cycle
  let new_amount ← old_amount.add amount
  let ctxt := Storage.Contract.Frozen_fees.init_set ctxt (contract, cycle) new_amount
  pure (Storage.Delegates_with_frozen_balance.add ctxt (cycle, delegate))

def freeze_fees (amount : Mine) :
    Tzresult Context := do
  let cycle := (raw_context.current_level ctxt).cycle
  let ctxt ← roll_storage.Delegate.add_amount ctxt delegate amount
  credit_frozen_fees ctxt delegate cycle amount

/-- What `burn_fees` takes from the rolls, and what it leaves frozen. -/
def burnt_fees (old_amount amount : Mine) : Mine × Mine :=
  match old_amount.sub amount with
  | .ok new_amount => (amount, new_amount)
  | _ => (old_amount, Qty.zero)

def burn_fees (cycle : Cycle) (amount : Mine) :
    Tzresult Context := do
  let contract := contract_repr.implicit_contract delegate
  let old_amount := get_frozen_fees ctxt contract cycle
  let (burnt, new_amount) := burnt_fees old_amount amount
  let ctxt ← roll_storage.Delegate.remove_amount ctxt delegate burnt
  pure (Storage.Contract.Frozen_fees.init_set ctxt (contract, cycle) new_amount)

def get_frozen_rewards (contract : Contract) (cycle : Cycle) : Tez :=
  match Storage.Contract.Frozen_rewards.get_option ctxt (contract, cycle) with
  | none => Qty.zero
  | some frozen => frozen

def credit_frozen_rewards (cycle : Cycle)
    (amount : Tez) : Tzresult Context := do
  let contract := contract_repr.implicit_contract delegate
  let old_amount := get_frozen_rewards ctxt contract cycle
  let new_amount ← old_amount.add amount
  let ctxt := Storage.Contract.Frozen_rewards.init_set ctxt (contract, cycle) new_amount
  pure (Storage.Delegates_with_frozen_balance.add ctxt (cycle, delegate))

def freeze_rewards (amount : Tez) :
    Tzresult Context :=
  credit_frozen_rewards ctxt delegate (raw_context.current_level ctxt).cycle amount

def burn_rewards (cycle : Cycle) (amount : Tez) :
    Context :=
  let contract := contract_repr.implicit_contract delegate
  let old_amount := get_frozen_rewards ctxt contract cycle
  let new_amount :=
    match old_amount.sub amount with
    | .ok new_amount => new_amount
    | _ => Qty.zero
  Storage.Contract.Frozen_rewards.init_set ctxt (contract, cycle) new_amount

def unfreeze (cycle : Cycle) :
    Tzresult (Context × Balance_updates) := do
  let contract := contract_repr.implicit_contract delegate
  let deposit := get_frozen_deposit ctxt contract cycle
  let fees := get_frozen_fees ctxt contract cycle
  let rewards := get_frozen_rewards ctxt contract cycle
  let mine_balance ← Storage.Contract.MineBalance.get ctxt contract
  let balance ← Storage.Contract.Balance.get ctxt contract
  let mine_unfrozen_amount ← deposit.add fees
  let mine_balance ← mine_balance.add mine_unfrozen_amount
  let ctxt ← Storage.Contract.MineBalance.set ctxt contract mine_balance
  let balance ← balance.add rewards
  let ctxt ← Storage.Contract.Balance.set ctxt contract balance
  let ctxt := Storage.Contract.Frozen_deposits.remove ctxt (contract, cycle)
  let ctxt := Storage.Contract.Frozen_fees.remove ctxt (contract, cycle)
  let ctxt := Storage.Contract.Frozen_rewards.remove ctxt (contract, cycle)
  pure (ctxt, cleanup_balance_updates
    [(.Deposits delegate cycle, .MineDebited deposit),
      (.Fees delegate cycle, .MineDebited fees),
      (.Rewards delegate cycle, .Debited rewards),
      (.Contract (contract_repr.implicit_contract delegate), .MineCredited mine_unfrozen_amount),
      (.Contract (contract_repr.implicit_contract delegate), .Credited rewards)])

/-- The delegates with a balance frozen in a cycle. -/
def delegates_with_frozen_balance (cycle : Cycle) : List Public_key_hash :=
  Public_key_hash.in_path_order
    ((ctxt.freezer.delegates_with_frozen_balance.filter fun e => e.1 = cycle).image Prod.snd)

/-- Take back from the bakers that did not reveal their nonce what they had
earned with the block. -/
def burn_unrevealed (revealed_cycle : Cycle) (unrevealed : List Unrevealed_nonce) :
    Tzresult (Context × Balance_updates) :=
  unrevealed.foldlM (fun (ctxt, balance_updates) u => do
    let ctxt ← burn_fees ctxt u.delegate revealed_cycle u.mine_fees
    let ctxt := burn_rewards ctxt u.delegate revealed_cycle u.rewards
    let bus := [(.Fees u.delegate revealed_cycle, .MineDebited u.mine_fees),
      (.Rewards u.delegate revealed_cycle, .Debited u.rewards)]
    pure (ctxt, bus ++ balance_updates)) (ctxt, [])

def unfreeze_all (unfrozen_cycle : Cycle) (balance_updates : Balance_updates)
    (delegates : List Public_key_hash) : Tzresult (Context × Balance_updates) :=
  delegates.foldlM (fun (ctxt, bus) delegate => do
    let (ctxt, balance_updates) ← unfreeze ctxt delegate unfrozen_cycle
    pure (ctxt, balance_updates ++ bus)) (ctxt, balance_updates)

def clear_delegates_with_frozen_balance (cycle : Cycle) : Context :=
  ctxt.with_freezer { ctxt.freezer with
    delegates_with_frozen_balance :=
      ctxt.freezer.delegates_with_frozen_balance.filter fun e => e.1 ≠ cycle }

def deactivate_all (last_cycle : Cycle) (delegates : List Public_key_hash) :
    Tzresult (Context × List Public_key_hash) :=
  delegates.foldlM (fun (ctxt, deactivated) delegate => do
    let cycle ← Storage.Contract.Delegate_desactivation.get ctxt
      (contract_repr.implicit_contract delegate)
    if cycle ≤ last_cycle then
      let ctxt ← roll_storage.Delegate.set_inactive ctxt delegate
      pure (ctxt, delegate :: deactivated)
    else pure (ctxt, deactivated)) (ctxt, [])

def cycle_end (last_cycle : Cycle) (unrevealed : List Unrevealed_nonce) :
    Tzresult (Context × Balance_updates × List Public_key_hash) := do
  let (ctxt, balance_updates) ←
    (match cycle_repr.pred last_cycle with
    | none => pure (ctxt, [])
    | some revealed_cycle => burn_unrevealed ctxt revealed_cycle unrevealed)
  let unfrozen_cycle ← cycle_repr.sub last_cycle (constants_storage.preserved_cycles ctxt)
  match unfrozen_cycle with
  | none => pure (ctxt, balance_updates, [])
  | some unfrozen_cycle =>
    let (ctxt, balance_updates) ← unfreeze_all ctxt unfrozen_cycle balance_updates
      (delegates_with_frozen_balance ctxt unfrozen_cycle)
    let ctxt := clear_delegates_with_frozen_balance ctxt unfrozen_cycle
    let (ctxt, deactivated) ← deactivate_all ctxt last_cycle
      (Public_key_hash.in_path_order ctxt.rolls.active_delegates_with_rolls)
    pure (ctxt, balance_updates, deactivated)

def punish (cycle : Cycle) :
    Tzresult (Context × Frozen_balance) := do
  let contract := contract_repr.implicit_contract delegate
  let deposit := get_frozen_deposit ctxt contract cycle
  let fees := get_frozen_fees ctxt contract cycle
  let rewards := get_frozen_rewards ctxt contract cycle
  let ctxt ← roll_storage.Delegate.remove_amount ctxt delegate deposit
  let ctxt ← roll_storage.Delegate.remove_amount ctxt delegate fees
  let ctxt := Storage.Contract.Frozen_deposits.remove ctxt (contract, cycle)
  let ctxt := Storage.Contract.Frozen_fees.remove ctxt (contract, cycle)
  let ctxt := Storage.Contract.Frozen_rewards.remove ctxt (contract, cycle)
  pure (ctxt, { deposit, fees, rewards })

def has_frozen_balance (cycle : Cycle) : Bool :=
  let contract := contract_repr.implicit_contract delegate
  if get_frozen_deposit ctxt contract cycle ≠ Qty.zero then true
  else if get_frozen_fees ctxt contract cycle ≠ Qty.zero then true
  else decide (get_frozen_rewards ctxt contract cycle ≠ Qty.zero)

end plexus.delegate_storage
