import Plexus.EnvironmentLaws
import Plexus.Lib.Run

/-! The calls that move tokens, and runs of them. Everything a block does to
accounts, rolls and the freezer is such a run. -/

namespace plexus

/-- One successful call of a function that writes accounts, rolls or the
freezer, or something that writes none of them. Deposits are frozen and given
back only for keys in `freezes`, and contracts are originated only at addresses
in `originates`. -/
inductive Ledger_step [Environment] (freezes : Context → Public_key_hash → Prop)
    (originates : Contract → Prop) (c c' : Context) : Prop where
  | same (h : Same_accounts c c')
  | credit (contract : Contract) (amount : Tez) (mine_amount : Mine)
      (h : (contract_storage.credit c contract amount mine_amount).outcome = .ok c')
  | spend (contract : Contract) (amount : Tez)
      (h : (contract_storage.spend c contract amount).outcome = .ok c')
  | mine_spend (contract : Contract) (amount : Mine)
      (h : (contract_storage.mine_spend c contract amount).outcome = .ok c')
  | originate (prepaid : Bool) (contract : Contract) (balance : Tez)
      (script : Script × Option Big_map_diff) (delegate : Option Public_key_hash)
      (hmay : originates contract)
      (h : (contract_storage.originate c prepaid contract balance script delegate).outcome = .ok c')
  | reveal_manager_key (manager : Public_key_hash) (public_key : Public_key)
      (h : contract_storage.reveal_manager_key c manager public_key = .ok c')
  | increment_counter (manager : Public_key_hash)
      (h : contract_storage.increment_counter c manager = .ok c')
  | init (contract : Contract) (delegate : Public_key_hash)
      (h : delegate_storage.init c contract delegate = .ok c')
  | set (contract : Contract) (delegate : Option Public_key_hash)
      (h : delegate_storage.set c contract delegate = .ok c')
  | freeze_deposit (delegate : Public_key_hash) (amount : Mine) (hmay : freezes c delegate)
      (h : delegate_storage.freeze_deposit c delegate amount = .ok c')
  | freeze_fees (delegate : Public_key_hash) (amount : Mine)
      (h : delegate_storage.freeze_fees c delegate amount = .ok c')
  | freeze_rewards (delegate : Public_key_hash) (amount : Tez)
      (h : delegate_storage.freeze_rewards c delegate amount = .ok c')
  | burn_fees (delegate : Public_key_hash) (cycle : Cycle) (amount : Mine)
      (h : delegate_storage.burn_fees c delegate cycle amount = .ok c')
  | burn_rewards (delegate : Public_key_hash) (cycle : Cycle) (amount : Tez)
      (h : c' = delegate_storage.burn_rewards c delegate cycle amount)
  | unfreeze (delegate : Public_key_hash) (cycle : Cycle)
      (balance_updates : delegate_storage.Balance_updates) (hmay : freezes c delegate)
      (h : delegate_storage.unfreeze c delegate cycle = .ok (c', balance_updates))
  | clear_delegates_with_frozen_balance (cycle : Cycle)
      (h : c' = delegate_storage.clear_delegates_with_frozen_balance c cycle)
  | punish (delegate : Public_key_hash) (cycle : Cycle) (frozen : delegate_storage.Frozen_balance)
      (h : delegate_storage.punish c delegate cycle = .ok (c', frozen))
  | set_active (delegate : Public_key_hash)
      (h : roll_storage.Delegate.set_active c delegate = .ok c')
  | set_inactive (delegate : Public_key_hash)
      (h : roll_storage.Delegate.set_inactive c delegate = .ok c')

abbrev Ledger_run [Environment] (freezes : Context → Public_key_hash → Prop)
    (originates : Contract → Prop) : Context → Context → Prop :=
  Relation.ReflTransGen (Ledger_step freezes originates)

/-- What blocks do: contracts are never originated at the address of an
implicit account. -/
abbrev Block_run [Environment] : Context → Context → Prop :=
  Ledger_run (fun _ _ => True) fun contract => contract_repr.is_implicit contract = none

end plexus
