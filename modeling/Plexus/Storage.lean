import Plexus.Context

namespace plexus

open Result (meets_ok)

/-! The storage functors. An accessor knows where its data stands in the
context; what `get`, `set`, `init` and the others do is the same for all. -/

/-- `Make_single_data_storage` -/
structure Single_data_storage (V : Type) where
  absolute_key : Key
  value : Context → Option V
  update : Context → Option V → Context

variable {ctxt ctxt' : Context}

namespace Single_data_storage

variable {V : Type} (s : Single_data_storage V)

def get (ctxt : Context) : Tzresult V :=
  match s.value ctxt with
  | some v => .ok v
  | none => fail (.Storage_error (.Missing_key s.absolute_key .Get))

@[simp] def get_option (ctxt : Context) : Option V := s.value ctxt

def init (ctxt : Context) (v : V) : Tzresult Context :=
  match s.value ctxt with
  | some _ => fail (.Storage_error (.Existing_key s.absolute_key))
  | none => .ok (s.update ctxt (some v))

def set (ctxt : Context) (v : V) : Tzresult Context :=
  match s.value ctxt with
  | some _ => .ok (s.update ctxt (some v))
  | none => fail (.Storage_error (.Missing_key s.absolute_key .Set))

@[simp] def init_set (ctxt : Context) (v : V) : Context := s.update ctxt (some v)

@[simp] def set_opt (ctxt : Context) (o : Option V) : Context := s.update ctxt o

def delete (ctxt : Context) : Tzresult Context :=
  match s.value ctxt with
  | some _ => .ok (s.update ctxt none)
  | none => fail (.Storage_error (.Missing_key s.absolute_key .Del))

@[simp] def remove (ctxt : Context) : Context := s.update ctxt none

theorem get_eq_ok_iff {v : V} : s.get ctxt = .ok v ↔ s.value ctxt = some v := by
  unfold get
  cases s.value ctxt <;> simp

theorem init_eq_ok_iff {v : V} :
    s.init ctxt v = .ok ctxt' ↔ s.value ctxt = none ∧ ctxt' = s.update ctxt (some v) := by
  unfold init
  cases s.value ctxt <;> simp [fail, eq_comm]

theorem set_eq_ok_iff {v : V} :
    s.set ctxt v = .ok ctxt' ↔ (∃ w, s.value ctxt = some w) ∧ ctxt' = s.update ctxt (some v) := by
  unfold set
  cases s.value ctxt <;> simp [fail, eq_comm]

theorem delete_eq_ok_iff :
    s.delete ctxt = .ok ctxt' ↔ (∃ w, s.value ctxt = some w) ∧ ctxt' = s.update ctxt none := by
  unfold delete
  cases s.value ctxt <;> simp [fail, eq_comm]

variable {s} {v : V}

theorem get_spec : (s.get ctxt).Meets fun v => s.value ctxt = some v := by
  unfold get
  split
  · next hvalue => exact meets_ok hvalue
  · exact meets_fail

theorem init_spec : (s.init ctxt v).Meets (· = s.update ctxt (some v)) := by
  unfold init
  split
  · exact meets_fail
  · exact meets_ok rfl

theorem set_spec : (s.set ctxt v).Meets (· = s.update ctxt (some v)) := by
  unfold set
  split
  · exact meets_ok rfl
  · exact meets_fail

end Single_data_storage

/-- `Make_indexed_data_storage` and `Make_map` -/
structure Indexed_data_storage (K V : Type) where
  absolute_key : K → Key
  store : Context → Store K V
  update : Context → Store K V → Context

namespace Indexed_data_storage

variable {K V : Type} [DecidableEq K] (s : Indexed_data_storage K V)

@[simp] def mem (ctxt : Context) (k : K) : Bool := ((s.store ctxt).lookup k).isSome

def get (ctxt : Context) (k : K) : Tzresult V :=
  match (s.store ctxt).lookup k with
  | some v => .ok v
  | none => fail (.Storage_error (.Missing_key (s.absolute_key k) .Get))

@[simp] def get_option (ctxt : Context) (k : K) : Option V := (s.store ctxt).lookup k

@[simp] def put (ctxt : Context) (k : K) (o : Option V) : Context :=
  s.update ctxt ((s.store ctxt).put k o)

def init (ctxt : Context) (k : K) (v : V) : Tzresult Context :=
  match (s.store ctxt).lookup k with
  | some _ => fail (.Storage_error (.Existing_key (s.absolute_key k)))
  | none => .ok (s.put ctxt k (some v))

def set (ctxt : Context) (k : K) (v : V) : Tzresult Context :=
  match (s.store ctxt).lookup k with
  | some _ => .ok (s.put ctxt k (some v))
  | none => fail (.Storage_error (.Missing_key (s.absolute_key k) .Set))

@[simp] def init_set (ctxt : Context) (k : K) (v : V) : Context := s.put ctxt k (some v)

@[simp] def set_opt (ctxt : Context) (k : K) (o : Option V) : Context := s.put ctxt k o

def delete (ctxt : Context) (k : K) : Tzresult Context :=
  match (s.store ctxt).lookup k with
  | some _ => .ok (s.put ctxt k none)
  | none => fail (.Storage_error (.Missing_key (s.absolute_key k) .Del))

@[simp] def remove (ctxt : Context) (k : K) : Context := s.put ctxt k none

@[simp] def clear (ctxt : Context) : Context := s.update ctxt Store.empty

variable {k : K}

omit [DecidableEq K] in
theorem get_eq_ok_iff {v : V} : s.get ctxt k = .ok v ↔ (s.store ctxt).lookup k = some v := by
  unfold get
  cases (s.store ctxt).lookup k <;> simp

theorem init_eq_ok_iff {v : V} :
    s.init ctxt k v = .ok ctxt' ↔
      (s.store ctxt).lookup k = none ∧ ctxt' = s.put ctxt k (some v) := by
  unfold init
  cases (s.store ctxt).lookup k <;> simp [fail, eq_comm]

theorem set_eq_ok_iff {v : V} :
    s.set ctxt k v = .ok ctxt' ↔
      (∃ w, (s.store ctxt).lookup k = some w) ∧ ctxt' = s.put ctxt k (some v) := by
  unfold set
  cases (s.store ctxt).lookup k <;> simp [fail, eq_comm]

theorem delete_eq_ok_iff :
    s.delete ctxt k = .ok ctxt' ↔
      (∃ w, (s.store ctxt).lookup k = some w) ∧ ctxt' = s.put ctxt k none := by
  unfold delete
  cases (s.store ctxt).lookup k <;> simp [fail, eq_comm]

variable {s} {v : V}

omit [DecidableEq K] in
theorem get_spec : (s.get ctxt k).Meets fun v => (s.store ctxt).lookup k = some v := by
  unfold get
  split
  · next hlookup => exact meets_ok hlookup
  · exact meets_fail

theorem init_spec :
    (s.init ctxt k v).Meets fun ctxt' =>
      (s.store ctxt).lookup k = none ∧ ctxt' = s.put ctxt k (some v) := by
  unfold init
  split
  · exact meets_fail
  · next hlookup => exact meets_ok ⟨hlookup, rfl⟩

theorem set_spec : (s.set ctxt k v).Meets (· = s.put ctxt k (some v)) := by
  unfold set
  split
  · exact meets_ok rfl
  · exact meets_fail

theorem delete_spec :
    (s.delete ctxt k).Meets fun ctxt' =>
      (∃ v, (s.store ctxt).lookup k = some v) ∧ ctxt' = s.put ctxt k none := by
  unfold delete
  split
  · next v hlookup => exact meets_ok ⟨⟨v, hlookup⟩, rfl⟩
  · exact meets_fail

end Indexed_data_storage

/-- `Make_data_set_storage` -/
structure Data_set_storage (E : Type) where
  elements : Context → Finset E
  update : Context → Finset E → Context

namespace Data_set_storage

variable {E : Type} [DecidableEq E] (s : Data_set_storage E)

@[simp] def mem (ctxt : Context) (e : E) : Bool := decide (e ∈ s.elements ctxt)

@[simp] def add (ctxt : Context) (e : E) : Context := s.update ctxt (insert e (s.elements ctxt))

@[simp] def del (ctxt : Context) (e : E) : Context := s.update ctxt ((s.elements ctxt).erase e)

@[simp] def clear (ctxt : Context) : Context := s.update ctxt ∅

end Data_set_storage

/-! The data of `storage.ml`. -/

namespace Storage

namespace Contract

@[simps value update] def Global_counter : Single_data_storage ℤ where
  absolute_key := .global_counter
  value ctxt := ctxt.contracts.global_counter
  update ctxt v := ctxt.with_contracts { ctxt.contracts with global_counter := v }

@[simps store update] def Balance : Indexed_data_storage Contract Tez where
  absolute_key := .balance
  store ctxt := ctxt.contracts.balance
  update ctxt s := ctxt.with_contracts { ctxt.contracts with balance := s }

@[simps store update] def MineBalance : Indexed_data_storage Contract Mine where
  absolute_key := .mine_balance
  store ctxt := ctxt.contracts.mine_balance
  update ctxt s := ctxt.with_contracts { ctxt.contracts with mine_balance := s }

@[simps store update] def Manager : Indexed_data_storage Contract Manager_key where
  absolute_key := .manager
  store ctxt := ctxt.contracts.manager
  update ctxt s := ctxt.with_contracts { ctxt.contracts with manager := s }

@[simps store update] def Delegate : Indexed_data_storage Contract Public_key_hash where
  absolute_key := .delegate
  store ctxt := ctxt.contracts.delegate
  update ctxt s := ctxt.with_contracts { ctxt.contracts with delegate := s }

/-- Indexed by the delegate's contract and the delegated contract. -/
@[simps elements update] def Delegated : Data_set_storage (Contract × Contract) where
  elements ctxt := ctxt.contracts.delegated
  update ctxt s := ctxt.with_contracts { ctxt.contracts with delegated := s }

@[simps store update] def Counter : Indexed_data_storage Contract ℤ where
  absolute_key := .counter
  store ctxt := ctxt.contracts.counter
  update ctxt s := ctxt.with_contracts { ctxt.contracts with counter := s }

@[simps store update] def Paid_storage_space : Indexed_data_storage Contract ℤ where
  absolute_key := .paid_bytes
  store ctxt := ctxt.scripts.paid_storage_space
  update ctxt s := ctxt.with_scripts { ctxt.scripts with paid_storage_space := s }

@[simps store update] def Used_storage_space : Indexed_data_storage Contract ℤ where
  absolute_key := .used_bytes
  store ctxt := ctxt.scripts.used_storage_space
  update ctxt s := ctxt.with_scripts { ctxt.scripts with used_storage_space := s }

@[simps elements update] def Inactive_delegate : Data_set_storage Contract where
  elements ctxt := ctxt.rolls.inactive_delegate
  update ctxt s := ctxt.with_rolls { ctxt.rolls with inactive_delegate := s }

@[simps store update] def Delegate_desactivation : Indexed_data_storage Contract Cycle where
  absolute_key := .delegate_desactivation
  store ctxt := ctxt.rolls.delegate_desactivation
  update ctxt s := ctxt.with_rolls { ctxt.rolls with delegate_desactivation := s }

/-! The entries below are indexed by a contract and a cycle. -/

@[simps store update] def Frozen_deposits : Indexed_data_storage (Contract × Cycle) Mine where
  absolute_key k := .frozen_deposits k.1 k.2
  store ctxt := ctxt.freezer.frozen_deposits
  update ctxt s := ctxt.with_freezer { ctxt.freezer with frozen_deposits := s }

@[simps store update] def Frozen_fees : Indexed_data_storage (Contract × Cycle) Mine where
  absolute_key k := .frozen_fees k.1 k.2
  store ctxt := ctxt.freezer.frozen_fees
  update ctxt s := ctxt.with_freezer { ctxt.freezer with frozen_fees := s }

@[simps store update] def Frozen_rewards : Indexed_data_storage (Contract × Cycle) Tez where
  absolute_key k := .frozen_rewards k.1 k.2
  store ctxt := ctxt.freezer.frozen_rewards
  update ctxt s := ctxt.with_freezer { ctxt.freezer with frozen_rewards := s }

end Contract

@[simps elements update] def Delegates : Data_set_storage Public_key_hash where
  elements ctxt := ctxt.contracts.delegates
  update ctxt s := ctxt.with_contracts { ctxt.contracts with delegates := s }

@[simps elements update] def Active_delegates_with_rolls : Data_set_storage Public_key_hash where
  elements ctxt := ctxt.rolls.active_delegates_with_rolls
  update ctxt s := ctxt.with_rolls { ctxt.rolls with active_delegates_with_rolls := s }

@[simps elements update] def Delegates_with_frozen_balance :
    Data_set_storage (Cycle × Public_key_hash) where
  elements ctxt := ctxt.freezer.delegates_with_frozen_balance
  update ctxt s := ctxt.with_freezer { ctxt.freezer with delegates_with_frozen_balance := s }

namespace Roll

@[simps value update] def Next : Single_data_storage plexus.Roll where
  absolute_key := .roll_next
  value ctxt := ctxt.rolls.next
  update ctxt v := ctxt.with_rolls { ctxt.rolls with next := v }

@[simps value update] def Limbo : Single_data_storage plexus.Roll where
  absolute_key := .roll_limbo
  value ctxt := ctxt.rolls.limbo
  update ctxt v := ctxt.with_rolls { ctxt.rolls with limbo := v }

@[simps store update] def Delegate_roll_list :
    Indexed_data_storage Public_key_hash plexus.Roll where
  absolute_key := .roll_list
  store ctxt := ctxt.rolls.delegate_roll_list
  update ctxt s := ctxt.with_rolls { ctxt.rolls with delegate_roll_list := s }

@[simps store update] def Successor : Indexed_data_storage plexus.Roll plexus.Roll where
  absolute_key := .roll_successor
  store ctxt := ctxt.rolls.successor
  update ctxt s := ctxt.with_rolls { ctxt.rolls with successor := s }

@[simps store update] def Delegate_change : Indexed_data_storage Public_key_hash Mine where
  absolute_key := .change
  store ctxt := ctxt.rolls.delegate_change
  update ctxt s := ctxt.with_rolls { ctxt.rolls with delegate_change := s }

@[simps store update] def Owner : Indexed_data_storage plexus.Roll Public_key where
  absolute_key := .roll_owner
  store ctxt := ctxt.rolls.owner
  update ctxt s := ctxt.with_rolls { ctxt.rolls with owner := s }

end Roll

namespace Big_map

@[simps value update] def Next : Single_data_storage ℤ where
  absolute_key := .big_map_next
  value ctxt := ctxt.big_maps.next
  update ctxt v := ctxt.with_big_maps { ctxt.big_maps with next := v }

@[simps store update] def Total_bytes : Indexed_data_storage ℤ ℤ where
  absolute_key := .big_map_total_bytes
  store ctxt := ctxt.big_maps.total_bytes
  update ctxt s := ctxt.with_big_maps { ctxt.big_maps with total_bytes := s }

@[simps store update] def Key_type : Indexed_data_storage ℤ Expr where
  absolute_key := .big_map_key_type
  store ctxt := ctxt.big_maps.key_type
  update ctxt s := ctxt.with_big_maps { ctxt.big_maps with key_type := s }

@[simps store update] def Value_type : Indexed_data_storage ℤ Expr where
  absolute_key := .big_map_value_type
  store ctxt := ctxt.big_maps.value_type
  update ctxt s := ctxt.with_big_maps { ctxt.big_maps with value_type := s }

/-- Everything stored for one big map. -/
def remove_rec (ctxt : Context) (id : ℤ) : Context :=
  ctxt.with_big_maps { ctxt.big_maps with
    total_bytes := ctxt.big_maps.total_bytes.put id none
    key_type := ctxt.big_maps.key_type.put id none
    value_type := ctxt.big_maps.value_type.put id none
    contents := ctxt.big_maps.contents.put id none }

def dir_mem (ctxt : Context) (id : ℤ) : Bool :=
  (ctxt.big_maps.total_bytes.lookup id).isSome || (ctxt.big_maps.key_type.lookup id).isSome ||
    (ctxt.big_maps.value_type.lookup id).isSome || (ctxt.big_maps.contents.lookup id).isSome

/-- The directory of `to_` becomes that of `from_`. -/
def copy (ctxt : Context) (from_ to_ : ℤ) : Tzresult Context :=
  if dir_mem ctxt from_ then
    .ok (ctxt.with_big_maps { ctxt.big_maps with
      total_bytes := ctxt.big_maps.total_bytes.put to_ (ctxt.big_maps.total_bytes.lookup from_)
      key_type := ctxt.big_maps.key_type.put to_ (ctxt.big_maps.key_type.lookup from_)
      value_type := ctxt.big_maps.value_type.put to_ (ctxt.big_maps.value_type.lookup from_)
      contents := ctxt.big_maps.contents.put to_ (ctxt.big_maps.contents.lookup from_) })
  else fail (.Storage_error (.Missing_key (.big_map_total_bytes from_) .Copy))

end Big_map

end Storage

end plexus
