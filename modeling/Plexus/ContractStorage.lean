import Plexus.DelegateStorage
import Plexus.Environment

namespace plexus

namespace contract_storage

variable [Environment]

/-! Big maps. -/

def big_map_key_cost : ℤ := 65

def big_map_cost : ℤ := 33

variable (c : Context) (contract : Contract)

/-- One item of a diff, and what it adds to the size of the contract. Temporary
big maps, which have negative identifiers, are not counted. -/
def update_script_big_map_item (total : ℤ) :
    Big_map_diff_item → Carbonated (Context × ℤ)
  | .Clear id => do
    let size ← Storage.Big_map.Total_bytes.get c id
    let c := Storage.Big_map.remove_rec c id
    if id < 0 then pure (c, total) else pure (c, total - size - big_map_cost)
  | .Copy from_ to_ => do
    let c ← Storage.Big_map.copy c from_ to_
    if to_ < 0 then pure (c, total)
    else
      let size ← Storage.Big_map.Total_bytes.get c from_
      pure (c, total + size + big_map_cost)
  | .Alloc big_map key_type value_type => do
    let c ← Storage.Big_map.Total_bytes.init c big_map 0
    let key_type := script_repr.strip_annotations key_type
    let value_type := script_repr.strip_annotations value_type
    let c ← Storage.Big_map.Key_type.init c big_map key_type
    let c ← Storage.Big_map.Value_type.init c big_map value_type
    if big_map < 0 then pure (c, total) else pure (c, total + big_map_cost)
  | .Update big_map _ diff_key_hash none => do
    let (c, freed, existed) ← Storage.Big_map.Contents.remove c big_map diff_key_hash
    let freed := if existed then freed + big_map_key_cost else freed
    let size ← Storage.Big_map.Total_bytes.get c big_map
    let c ← Storage.Big_map.Total_bytes.set c big_map (size - freed)
    if big_map < 0 then pure (c, total) else pure (c, total - freed)
  | .Update big_map _ diff_key_hash (some v) => do
    let (c, size_diff, existed) ← Storage.Big_map.Contents.init_set c big_map diff_key_hash v
    let size_diff := if existed then size_diff else size_diff + big_map_key_cost
    let size ← Storage.Big_map.Total_bytes.get c big_map
    let c ← Storage.Big_map.Total_bytes.set c big_map (size + size_diff)
    if big_map < 0 then pure (c, total) else pure (c, total + size_diff)

def update_script_big_map_items (c : Context) (total : ℤ) :
    List Big_map_diff_item → Carbonated (Context × ℤ)
  | [] => pure (c, total)
  | item :: rest => do
    let (c, total) ← update_script_big_map_item c total item
    update_script_big_map_items c total rest

def update_script_big_map : Option Big_map_diff → Carbonated (Context × ℤ)
  | none => pure (c, 0)
  | some diff => update_script_big_map_items c 0 diff

/-! Creation and deletion. -/

/-- The part of `create_base` that every account gets. -/
def create_account (balance : Tez) (mine_balance : Mine)
    (manager : Option Public_key_hash) (delegate : Option Public_key_hash) :
    Tzresult Context := do
  let c ←
    (match contract_repr.is_implicit contract with
    | none => pure c
    | some _ => do
      let counter ← Storage.Contract.Global_counter.get c
      Storage.Contract.Counter.init c contract counter)
  let c ← Storage.Contract.Balance.init c contract balance
  let c ← Storage.Contract.MineBalance.init c contract mine_balance
  let c ←
    (match manager with
    | some manager => Storage.Contract.Manager.init c contract (.Hash manager)
    | none => pure c)
  match delegate with
  | none => pure c
  | some delegate => delegate_storage.init c contract delegate

/-- The part of `create_base` for contracts with a script. -/
def create_script (prepaid_bootstrap_storage : Bool) (contract : Contract)
    (script : Script) (big_map_diff : Option Big_map_diff) : Carbonated Context := do
  let (c, code_size) ← Storage.Contract.Code.init c contract script.code
  let (c, storage_size) ← Storage.Contract.Storage.init c contract script.storage
  let (c, big_map_size) ← update_script_big_map c big_map_diff
  let total_size := code_size + storage_size + big_map_size
  if total_size < 0 then (Result.raise .Assert_total_size : Tzresult Context)
  else
    let prepaid := if prepaid_bootstrap_storage then total_size else 0
    let c ← Storage.Contract.Paid_storage_space.init c contract prepaid
    Storage.Contract.Used_storage_space.init c contract total_size

def create_base (prepaid_bootstrap_storage : Bool) (contract : Contract)
    (balance : Tez) (mine_balance : Mine) (manager : Option Public_key_hash)
    (delegate : Option Public_key_hash) (script : Option (Script × Option Big_map_diff)) :
    Carbonated Context := do
  let c ← create_account c contract balance mine_balance manager delegate
  match script with
  | some (script, big_map_diff) =>
    create_script c prepaid_bootstrap_storage contract script big_map_diff
  | none => pure c

def originate (prepaid_bootstrap_storage : Bool) (contract : Contract)
    (balance : Tez) (script : Script × Option Big_map_diff) (delegate : Option Public_key_hash) :
    Carbonated Context :=
  create_base c prepaid_bootstrap_storage contract balance Qty.zero none delegate (some script)

def create_implicit (manager : Public_key_hash) (balance : Tez)
    (mine_balance : Mine) : Carbonated Context :=
  create_base c false (contract_repr.implicit_contract manager) balance mine_balance (some manager)
    none none

/-- The entries removed by `delete` before those of the script. From the level
`removing_empty_address` on, the MINE balance is one of them. -/
def delete_account : Tzresult Context := do
  let c ← delegate_storage.remove c contract
  let c ← Storage.Contract.Balance.delete c contract
  let c ←
    (if constants_repr.removing_empty_address ≤ (raw_context.current_level c).level then
      Storage.Contract.MineBalance.delete c contract
    else pure c)
  let c ← Storage.Contract.Manager.delete c contract
  Storage.Contract.Counter.delete c contract

def delete : Carbonated Context := do
  Traced.emit (.delete contract (c.contracts.balance.lookup contract)
    (c.contracts.mine_balance.lookup contract))
  match contract_repr.is_implicit contract with
  | none => fail (.Failure "Non implicit contracts cannot be removed")
  | some _ =>
    let c ← delete_account c contract
    let (c, _, _) ← Storage.Contract.Code.remove c contract
    let (c, _, _) ← Storage.Contract.Storage.remove c contract
    let c := Storage.Contract.Paid_storage_space.remove c contract
    pure (Storage.Contract.Used_storage_space.remove c contract)

/-! Existence. -/

def allocated : Bool :=
  match Storage.Contract.Balance.get_option c contract with
  | none => false
  | some _ => true

def exists_ : Bool :=
  match contract_repr.is_implicit contract with
  | some _ => true
  | none => allocated c contract

def must_exist : Tzresult Unit :=
  if exists_ c contract then pure () else fail (.Non_existing_contract contract)

def must_be_allocated : Tzresult Unit :=
  if allocated c contract then pure ()
  else
    match contract_repr.is_implicit contract with
    | some pkh => fail (.Empty_implicit_contract pkh)
    | none => fail (.Non_existing_contract contract)

def fresh_contract_from_current_nonce : Tzresult (Context × Contract) := do
  let (c, nonce) ← raw_context.increment_origination_nonce c
  pure (c, contract_repr.originated_contract nonce)

def originated_from_current_nonce (ctxt_since ctxt_until : Context) :
    Tzresult (List Contract) := do
  let since_nonce ← raw_context.origination_nonce ctxt_since
  let until_nonce ← raw_context.origination_nonce ctxt_until
  let contracts ← contract_repr.originated_contracts since_nonce until_nonce
  pure (contracts.filter fun contract => exists_ ctxt_until contract)

/-! Counters and keys. -/

def check_counter_increment (manager : Public_key_hash) (counter : ℤ) :
    Tzresult Unit := do
  let contract := contract_repr.implicit_contract manager
  let contract_counter ← Storage.Contract.Counter.get c contract
  let expected := contract_counter + 1
  if expected = counter then pure ()
  else if counter < expected then fail (.Counter_in_the_past contract expected counter)
  else fail (.Counter_in_the_future contract expected counter)

def increment_counter (manager : Public_key_hash) : Tzresult Context := do
  let contract := contract_repr.implicit_contract manager
  let global_counter ← Storage.Contract.Global_counter.get c
  let c ← Storage.Contract.Global_counter.set c (global_counter + 1)
  let contract_counter ← Storage.Contract.Counter.get c contract
  Storage.Contract.Counter.set c contract (contract_counter + 1)

def get_script (c : Context) (contract : Contract) : Carbonated (Context × Option Script) := do
  let (c, code) ← Storage.Contract.Code.get_option c contract
  let (c, storage) ← Storage.Contract.Storage.get_option c contract
  match code, storage with
  | none, none => pure (c, none)
  | some code, some storage => pure (c, some { code, storage })
  | none, some _ => fail (.Failure "get_script")
  | some _, none => fail (.Failure "get_script")

def get_manager_key (c : Context) (manager : Public_key_hash) : Tzresult Public_key :=
  let contract := contract_repr.implicit_contract manager
  match Storage.Contract.Manager.get_option c contract with
  | none => fail (.Failure "get_manager_key")
  | some (.Hash _) => fail (.Unrevealed_manager_key contract)
  | some (.Public_key v) => pure v

def reveal_manager_key (manager : Public_key_hash) (public_key : Public_key) :
    Tzresult Context := do
  let contract := contract_repr.implicit_contract manager
  let key ← Storage.Contract.Manager.get c contract
  match key with
  | .Public_key _ => fail (.Previously_revealed_key contract)
  | .Hash v =>
    let actual_hash := Environment.public_key_hash public_key
    if actual_hash = v then Storage.Contract.Manager.set c contract (.Public_key public_key)
    else fail (.Inconsistent_hash public_key v actual_hash)

def update_script_storage (storage : Expr)
    (big_map_diff : Option Big_map_diff) : Carbonated Context := do
  let storage := script_repr.lazy_expr storage
  let (c, big_map_size_diff) ← update_script_big_map c big_map_diff
  let (c, size_diff) ← Storage.Contract.Storage.set c contract storage
  let previous_size ← Storage.Contract.Used_storage_space.get c contract
  let new_size := previous_size + (big_map_size_diff + size_diff)
  Storage.Contract.Used_storage_space.set c contract new_size

/-! Transfers. -/

/-- What `spend` and `mine_spend` do once the token that is spent is used up:
an implicit account is kept when it holds the other token (from
`removing_empty_address` on) or is its own delegate, and otherwise deleted. -/
def delete_if_empty (holds_other_token : Bool) :
    Carbonated Context :=
  if decide (constants_repr.removing_empty_address ≤ (raw_context.current_level c).level) &&
      holds_other_token then
    pure c
  else
    match contract_repr.is_implicit contract with
    | none => pure c
    | some pkh =>
      match delegate_storage.get c contract with
      | some pkh' =>
        if pkh = pkh' then pure c else fail (.Empty_implicit_delegated_contract pkh)
      | none => delete c contract

def spend (amount : Tez) : Carbonated Context := do
  let balance ← Storage.Contract.Balance.get c contract
  let mine_balance ← Storage.Contract.MineBalance.get c contract
  match balance.sub amount with
  | .ok new_balance =>
    let c ← Storage.Contract.Balance.set c contract new_balance
    if Qty.zero < new_balance then pure c
    else delete_if_empty c contract (decide (Qty.zero < mine_balance))
  | _ => fail (.Balance_too_low contract balance amount)

def mine_spend (amount : Mine) : Carbonated Context := do
  let mine_balance ← Storage.Contract.MineBalance.get c contract
  let balance ← Storage.Contract.Balance.get c contract
  match mine_balance.sub amount with
  | .ok new_balance =>
    let c ← Storage.Contract.MineBalance.set c contract new_balance
    let c ← roll_storage.Contract.remove_amount c contract amount
    if Qty.zero < new_balance then pure c
    else delete_if_empty c contract (decide (Qty.zero < balance))
  | _ => fail (.MineBalance_too_low contract mine_balance amount)

/-- A transfer of nothing is only allowed to a contract with code. -/
def check_not_empty_transaction (amount : Tez)
    (mine_amount : Mine) : Carbonated Context :=
  if amount ≠ Qty.zero ∨ mine_amount ≠ Qty.zero then pure c
  else do
    let (c, target_has_code) ← Storage.Contract.Code.mem c contract
    fail_unless target_has_code (.Empty_transaction contract)
    pure c

/-- `credit` of an account that has both balances. -/
def credit_account (amount : Tez) (mine_amount : Mine)
    (mine_balance : Mine) : Tzresult Context := do
  let balance ← Storage.Contract.Balance.get c contract
  let balance ← amount.add balance
  let c ← Storage.Contract.Balance.set c contract balance
  let mine_balance ← mine_amount.add mine_balance
  let c ← Storage.Contract.MineBalance.set c contract mine_balance
  roll_storage.Contract.add_amount c contract mine_amount

def credit (amount : Tez) (mine_amount : Mine) :
    Carbonated Context := do
  let c ← check_not_empty_transaction c contract amount mine_amount
  match Storage.Contract.MineBalance.get_option c contract with
  | none =>
    match contract_repr.is_implicit contract with
    | none => fail (.Non_existing_contract contract)
    | some manager => create_implicit c manager amount mine_amount
  | some mine_balance => credit_account c contract amount mine_amount mine_balance

def init : Tzresult Context := do
  let c ← Storage.Contract.Global_counter.init c 0
  Storage.Big_map.Next.init c 0

/-! Storage space. -/

def used_storage_space : ℤ :=
  match Storage.Contract.Used_storage_space.get_option c contract with
  | none => 0
  | some fees => fees

def set_paid_storage_space_and_return_fees_to_pay
    (new_storage_space : ℤ) : Tzresult (ℤ × Context) := do
  let already_paid_space ← Storage.Contract.Paid_storage_space.get c contract
  if new_storage_space ≤ already_paid_space then pure (0, c)
  else
    let to_pay := new_storage_space - already_paid_space
    let c ← Storage.Contract.Paid_storage_space.set c contract new_storage_space
    pure (to_pay, c)

end contract_storage

namespace big_map

/-- `Big_map.cleanup_temporary` -/
def cleanup_temporary (c : Context) : Context :=
  raw_context.reset_temporary_big_map
    ((raw_context.temporary_big_maps c).foldl Storage.Big_map.remove_rec c)

end big_map

end plexus
