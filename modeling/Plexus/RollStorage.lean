import Plexus.Storage

namespace plexus

namespace constants_storage

def preserved_cycles (c : Context) : Nat := c.constants.preserved_cycles

def mine_tokens_per_roll (c : Context) : Mine := c.constants.mine_tokens_per_roll

end constants_storage

namespace roll_storage

def get_contract_delegate (c : Context) (contract : Contract) : Option Public_key_hash :=
  Storage.Contract.Delegate.get_option c contract

variable (ctxt : Context) (delegate : Public_key_hash)

def delegate_pubkey : Tzresult Public_key :=
  match Storage.Contract.Manager.get_option ctxt (contract_repr.implicit_contract delegate) with
  | none => fail (.Unregistered_delegate delegate)
  | some (.Hash _) => fail (.Unregistered_delegate delegate)
  | some (.Public_key pk) => .ok pk

/-- The loop of `traverse_rolls`. Every round but the last follows a successor,
and no list that ends has more of them than the store: the fuel runs out only
on a cycle. -/
def traverse_rolls_loop (ctxt : Context) : Nat → List Roll → Roll → Tzresult (List Roll)
  | 0, _, _ => .div
  | fuel + 1, acc, roll =>
    match Storage.Roll.Successor.get_option ctxt roll with
    | none => .ok acc.reverse
    | some next => traverse_rolls_loop ctxt fuel (next :: acc) next

def traverse_rolls (head : Roll) : Tzresult (List Roll) :=
  traverse_rolls_loop ctxt (ctxt.rolls.successor.keys.card + 1) [head] head

def get_rolls : Tzresult (List Roll) :=
  match Storage.Roll.Delegate_roll_list.get_option ctxt delegate with
  | none => .ok []
  | some head_roll => traverse_rolls ctxt head_roll

def count_rolls_loop (ctxt : Context) : Nat → Nat → Roll → Tzresult Nat
  | 0, _, _ => .div
  | fuel + 1, acc, roll =>
    match Storage.Roll.Successor.get_option ctxt roll with
    | none => .ok acc
    | some next => count_rolls_loop ctxt fuel (acc + 1) next

def count_rolls : Tzresult Nat :=
  match Storage.Roll.Delegate_roll_list.get_option ctxt delegate with
  | none => .ok 0
  | some head_roll => count_rolls_loop ctxt (ctxt.rolls.successor.keys.card + 1) 1 head_roll

def get_change (c : Context) (delegate : Public_key_hash) : Mine :=
  match Storage.Roll.Delegate_change.get_option c delegate with
  | none => Qty.zero
  | some change => change

namespace Delegate

variable (c : Context) (delegate : Public_key_hash)

def fresh_roll : Tzresult (Roll × Context) := do
  let roll ← Storage.Roll.Next.get c
  let c ← Storage.Roll.Next.set c (roll_repr.succ roll)
  pure (roll, c)

def get_limbo_roll : Tzresult (Roll × Context) :=
  match Storage.Roll.Limbo.get_option c with
  | none => do
    let (roll, c) ← fresh_roll c
    let c ← Storage.Roll.Limbo.init c roll
    pure (roll, c)
  | some roll => pure (roll, c)

def consume_roll_change : Tzresult Context := do
  let tokens_per_roll := constants_storage.mine_tokens_per_roll c
  let change ← Storage.Roll.Delegate_change.get c delegate
  let new_change ← trace .Consume_roll_change (change.sub tokens_per_roll)
  Storage.Roll.Delegate_change.set c delegate new_change

def recover_roll_change : Tzresult Context := do
  let tokens_per_roll := constants_storage.mine_tokens_per_roll c
  let change ← Storage.Roll.Delegate_change.get c delegate
  let new_change ← change.add tokens_per_roll
  Storage.Roll.Delegate_change.set c delegate new_change

def pop_roll_from_delegate :
    Tzresult (Roll × Context) := do
  let c ← recover_roll_change c delegate
  let limbo_head := Storage.Roll.Limbo.get_option c
  match Storage.Roll.Delegate_roll_list.get_option c delegate with
  | none => fail .No_roll_for_delegate
  | some roll =>
    let c ← Storage.Roll.Owner.delete c roll
    let successor_roll := Storage.Roll.Successor.get_option c roll
    let c := Storage.Roll.Delegate_roll_list.set_opt c delegate successor_roll
    let c := Storage.Roll.Successor.set_opt c roll limbo_head
    let c := Storage.Roll.Limbo.init_set c roll
    pure (roll, c)

def create_roll_in_delegate (delegate_pk : Public_key) :
    Tzresult Context := do
  let c ← consume_roll_change c delegate
  let delegate_head := Storage.Roll.Delegate_roll_list.get_option c delegate
  let (roll, c) ← get_limbo_roll c
  let c ← Storage.Roll.Owner.init c roll delegate_pk
  let limbo_successor := Storage.Roll.Successor.get_option c roll
  let c := Storage.Roll.Limbo.set_opt c limbo_successor
  let c := Storage.Roll.Successor.set_opt c roll delegate_head
  let c := Storage.Roll.Delegate_roll_list.init_set c delegate roll
  pure c

def ensure_inited : Tzresult Context :=
  if Storage.Roll.Delegate_change.mem c delegate then pure c
  else Storage.Roll.Delegate_change.init c delegate Qty.zero

def is_inactive : Bool :=
  if Storage.Contract.Inactive_delegate.mem c (contract_repr.implicit_contract delegate) then true
  else
    match Storage.Contract.Delegate_desactivation.get_option c
      (contract_repr.implicit_contract delegate) with
    | some last_active_cycle => decide (last_active_cycle < (raw_context.current_level c).cycle)
    | none => false

/-- The number of rounds after which a loop that creates a roll in each of them
has stopped: every created roll gets an owner, and there are `2 ^ 32` rolls. -/
def create_rolls_fuel : Nat := 2 ^ 32 + 1

/-- The loop of `add_amount` and of `set_active`. -/
def create_rolls_loop (tokens_per_roll : Mine) (delegate : Public_key_hash)
    (delegate_pk : Public_key) : Nat → Context → Mine → Tzresult Context
  | 0, _, _ => .div
  | fuel + 1, c, change =>
    if change < tokens_per_roll then pure c
    else do
      let change ← change.sub tokens_per_roll
      let c ← create_roll_in_delegate c delegate delegate_pk
      create_rolls_loop tokens_per_roll delegate delegate_pk fuel c change

/-- What `add_amount` and `set_active` do once the rolls are created. -/
def add_to_active_delegates_with_rolls : Context :=
  match Storage.Roll.Delegate_roll_list.get_option c delegate with
  | none => c
  | some _ => Storage.Active_delegates_with_rolls.add c delegate

def add_amount (amount : Mine) : Tzresult Context := do
  let c ← ensure_inited c delegate
  let tokens_per_roll := constants_storage.mine_tokens_per_roll c
  let change ← Storage.Roll.Delegate_change.get c delegate
  let change ← amount.add change
  let c ← Storage.Roll.Delegate_change.set c delegate change
  let delegate_pk ← delegate_pubkey c delegate
  if is_inactive c delegate then pure c
  else
    let c ← create_rolls_loop tokens_per_roll delegate delegate_pk create_rolls_fuel c change
    pure (add_to_active_delegates_with_rolls c delegate)

/-- The number of rounds after which a loop that pops a roll in each of them
has stopped: a popped roll loses its owner. -/
def pop_rolls_fuel : Nat := c.rolls.owner.keys.card + 1

def remove_amount_loop (tokens_per_roll : Mine) (delegate : Public_key_hash) (amount : Mine) :
    Nat → Context → Mine → Tzresult (Context × Mine)
  | 0, _, _ => .div
  | fuel + 1, c, change =>
    if amount ≤ change then pure (c, change)
    else do
      let (_, c) ← pop_roll_from_delegate c delegate
      let change ← change.add tokens_per_roll
      remove_amount_loop tokens_per_roll delegate amount fuel c change

def remove_amount (amount : Mine) :
    Tzresult Context := do
  let tokens_per_roll := constants_storage.mine_tokens_per_roll c
  let change ← Storage.Roll.Delegate_change.get c delegate
  let (c, change) ←
    (if is_inactive c delegate then pure (c, change)
    else do
      let (c, change) ←
        remove_amount_loop tokens_per_roll delegate amount (pop_rolls_fuel c) c change
      match Storage.Roll.Delegate_roll_list.get_option c delegate with
      | none => pure (Storage.Active_delegates_with_rolls.del c delegate, change)
      | some _ => pure (c, change))
  let change ← change.sub amount
  Storage.Roll.Delegate_change.set c delegate change

def set_inactive_loop (tokens_per_roll : Mine) (delegate : Public_key_hash) :
    Nat → Context → Mine → Tzresult (Context × Mine)
  | 0, _, _ => .div
  | fuel + 1, ctxt, change =>
    match Storage.Roll.Delegate_roll_list.get_option ctxt delegate with
    | none => pure (ctxt, change)
    | some _ => do
      let (_, ctxt) ← pop_roll_from_delegate ctxt delegate
      let change ← change.add tokens_per_roll
      set_inactive_loop tokens_per_roll delegate fuel ctxt change

def set_inactive (ctxt : Context) (delegate : Public_key_hash) : Tzresult Context := do
  let ctxt ← ensure_inited ctxt delegate
  let tokens_per_roll := constants_storage.mine_tokens_per_roll ctxt
  let change ← Storage.Roll.Delegate_change.get ctxt delegate
  let ctxt := Storage.Contract.Inactive_delegate.add ctxt (contract_repr.implicit_contract delegate)
  let ctxt := Storage.Active_delegates_with_rolls.del ctxt delegate
  let (ctxt, change) ←
    set_inactive_loop tokens_per_roll delegate (pop_rolls_fuel ctxt) ctxt change
  Storage.Roll.Delegate_change.set ctxt delegate change

/-- The cycle after which a delegate that is now active becomes inactive. -/
def expiration (ctxt : Context) (delegate : Public_key_hash) (inactive : Bool) : Cycle :=
  let current_cycle := (raw_context.current_level ctxt).cycle
  let preserved_cycles := constants_storage.preserved_cycles ctxt
  match Storage.Contract.Delegate_desactivation.get_option ctxt
    (contract_repr.implicit_contract delegate) with
  | none => cycle_repr.add current_cycle (1 + 2 * preserved_cycles)
  | some current_expiration =>
    let delay := if inactive then 1 + 2 * preserved_cycles else 1 + preserved_cycles
    max current_expiration (cycle_repr.add current_cycle delay)

def set_active (ctxt : Context) (delegate : Public_key_hash) : Tzresult Context := do
  let inactive := is_inactive ctxt delegate
  let expiration := expiration ctxt delegate inactive
  let ctxt := Storage.Contract.Delegate_desactivation.init_set ctxt
    (contract_repr.implicit_contract delegate) expiration
  if !inactive then pure ctxt
  else
    let ctxt ← ensure_inited ctxt delegate
    let tokens_per_roll := constants_storage.mine_tokens_per_roll ctxt
    let change ← Storage.Roll.Delegate_change.get ctxt delegate
    let ctxt :=
      Storage.Contract.Inactive_delegate.del ctxt (contract_repr.implicit_contract delegate)
    let delegate_pk ← delegate_pubkey ctxt delegate
    let ctxt ← create_rolls_loop tokens_per_roll delegate delegate_pk create_rolls_fuel ctxt change
    pure (add_to_active_delegates_with_rolls ctxt delegate)

end Delegate

namespace Contract

def add_amount (c : Context) (contract : Contract) (amount : Mine) : Tzresult Context :=
  match get_contract_delegate c contract with
  | none => pure c
  | some delegate => Delegate.add_amount c delegate amount

def remove_amount (c : Context) (contract : Contract) (amount : Mine) : Tzresult Context :=
  match get_contract_delegate c contract with
  | none => pure c
  | some delegate => Delegate.remove_amount c delegate amount

end Contract

def init : Tzresult Context := Storage.Roll.Next.init ctxt roll_repr.first

end roll_storage

end plexus
