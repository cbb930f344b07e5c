import Plexus.SeedStorage

namespace plexus

namespace Storage.Roll

@[simps store update] def Snapshot_for_cycle : Indexed_data_storage Cycle (Option Nat) where
  absolute_key := .roll_snapshot
  store ctxt := ctxt.cycles.roll_snapshot
  update ctxt s := ctxt.with_cycles { ctxt.cycles with roll_snapshot := s }

/-- `Make_encoder.to_bytes` for `Data_encoding.uint16` -/
def uint16_to_bytes (i : ℤ) : Option Nat := if 0 ≤ i ∧ i < 2 ^ 16 then some i.toNat else none

variable (ctxt : Context) (id : Cycle × Nat)

/-- `Snapshot_for_cycle.get` with `Make_encoder.of_bytes` -/
def Snapshot_for_cycle_get (cycle : Cycle) : Tzresult Nat := do
  let bytes ← Snapshot_for_cycle.get ctxt cycle
  match bytes with
  | some index => pure index
  | none => fail (.Storage_error (.Corrupted_data (.roll_snapshot cycle)))

theorem Snapshot_for_cycle_get_eq_ok_iff {ctxt : Context} {cycle : Cycle} {index : Nat} :
    Snapshot_for_cycle_get ctxt cycle = .ok index ↔
      ctxt.cycles.roll_snapshot.lookup cycle = some (some index) := by
  unfold Snapshot_for_cycle_get
  rw [Result.bind_eq_ok_iff]
  constructor
  · rintro ⟨bytes, hget, h⟩
    rw [Indexed_data_storage.get_eq_ok_iff] at hget
    cases bytes with
    | none => exact absurd h fail_ne_ok
    | some index' =>
      cases h
      exact hget
  · intro h
    exact ⟨some index, (Indexed_data_storage.get_eq_ok_iff _).mpr h, rfl⟩

theorem total_Snapshot_for_cycle_get (cycle : Cycle) :
    (Snapshot_for_cycle_get ctxt cycle).Total := by
  refine Result.total_bind Indexed_data_storage.get_spec.total fun bytes _ => ?_
  cases bytes with
  | none => exact total_fail _
  | some index => exact Result.total_ok index

/-- Indexed by the cycle and the number of the snapshot. -/
@[simps store update] def Last_for_snapshot : Indexed_data_storage (Cycle × Nat) plexus.Roll where
  absolute_key k := .last_roll k.1 k.2
  store ctxt := ctxt.cycles.last_roll
  update ctxt s := ctxt.with_cycles { ctxt.cycles with last_roll := s }

/-- `Owner.snapshot`: a copy of the directory of owners, which does not exist
when no roll has one. -/
def Owner_snapshot : Tzresult Context :=
  if ctxt.rolls.owner.keys = ∅ then
    fail (.Storage_error (.Missing_key .roll_owner_current .Copy))
  else
    .ok (ctxt.with_cycles { ctxt.cycles with
      snapshots := ctxt.cycles.snapshots.put id (some ctxt.rolls.owner) })

def Owner_snapshot_exists : Bool :=
  (ctxt.cycles.snapshots.lookup id).isSome

def Owner_delete_snapshot : Context :=
  ctxt.with_cycles { ctxt.cycles with snapshots := ctxt.cycles.snapshots.put id none }

/-- `Owner.Snapshot.get_option` -/
def Owner_snapshot_get_option (roll : plexus.Roll) :
    Option Public_key :=
  (ctxt.cycles.snapshots.lookup id).bind fun owners => owners.lookup roll

end Storage.Roll

/-- `Roll_repr.random` -/
def roll_repr.random [Environment] (sequence : seed_repr.Sequence) (bound : Roll) :
    Tzresult (Roll × seed_repr.Sequence) :=
  seed_repr.take_int32 sequence bound

namespace roll_storage

def clear_cycle (c : Context) (cycle : Cycle) : Tzresult Context := do
  let index ← Storage.Roll.Snapshot_for_cycle_get c cycle
  let c ← Storage.Roll.Snapshot_for_cycle.delete c cycle
  let c ← Storage.Roll.Last_for_snapshot.delete c (cycle, index)
  pure (Storage.Roll.Owner_delete_snapshot c (cycle, index))

/-- The loop of `fold`, from a roll to the next fresh one. -/
def fold_loop {α : Type} (ctxt : Context) (f : Roll → Public_key → α → Tzresult α) (last : Roll) :
    Nat → Roll → α → Tzresult α
  | 0, _, _ => .div
  | fuel + 1, roll, acc =>
    if roll = last then .ok acc
    else
      match Storage.Roll.Owner.get_option ctxt roll with
      | none => fold_loop ctxt f last fuel (roll_repr.succ roll) acc
      | some delegate => do
        let acc ← f roll delegate acc
        fold_loop ctxt f last fuel (roll_repr.succ roll) acc

/-- There are `2 ^ 32` rolls, so the loop meets the last one. -/
def fold {α : Type} (ctxt : Context) (f : Roll → Public_key → α → Tzresult α) (init : α) :
    Tzresult α := do
  let last ← Storage.Roll.Next.get ctxt
  fold_loop ctxt f last (2 ^ 32) roll_repr.first init

def snapshot_rolls_for_cycle (ctxt : Context) (cycle : Cycle) : Tzresult Context := do
  let index ← Storage.Roll.Snapshot_for_cycle_get ctxt cycle
  let ctxt ← Storage.Roll.Snapshot_for_cycle.set ctxt cycle
    (Storage.Roll.uint16_to_bytes (index + 1))
  let ctxt ← Storage.Roll.Owner_snapshot ctxt (cycle, index)
  let last ← Storage.Roll.Next.get ctxt
  Storage.Roll.Last_for_snapshot.init ctxt (cycle, index) last

section Random

variable [Environment]

/-- Draw the snapshot that is used for a cycle, and drop the others. -/
def freeze_rolls_for_cycle (ctxt : Context) (cycle : Cycle) : Tzresult Context := do
  let max_index ← Storage.Roll.Snapshot_for_cycle_get ctxt cycle
  let seed ← Storage.Seed.For_cycle.get ctxt cycle
  let rd := seed_repr.initialize_new seed [seed_repr.bytes_of_string "roll_snapshot"]
  let seq := seed_repr.sequence rd 0
  let (selected_index, _) ← seed_repr.take_int32 seq (Int32.ofNat max_index)
  let selected_index := selected_index.toInt
  let ctxt ← Storage.Roll.Snapshot_for_cycle.set ctxt cycle
    (Storage.Roll.uint16_to_bytes selected_index)
  (List.range max_index).foldlM (fun ctxt (index : Nat) =>
    if (index : ℤ) = selected_index then pure ctxt
    else
      Storage.Roll.Last_for_snapshot.delete (Storage.Roll.Owner_delete_snapshot ctxt (cycle, index))
        (cycle, index)) ctxt

namespace Random

def level_random (seed : seed_repr.Seed) (use : String) (level : Level) : State_hash :=
  seed_repr.initialize_new seed
    [seed_repr.bytes_of_string ("level " ++ use ++ ":"),
      seed_repr.int32_to_bytes (Int32.ofNat level.cycle_position)]

/-- The loop of `owner`: draw rolls until one has an owner. -/
def owner_loop (c : Context) (id : Cycle × Nat) (bound : Roll) :
    Nat → seed_repr.Sequence → Tzresult Public_key
  | 0, _ => .div
  | fuel + 1, sequence => do
    let (roll, sequence) ← seed_repr.take_int32 sequence bound
    match Storage.Roll.Owner_snapshot_get_option c id roll with
    | none => owner_loop c id bound fuel sequence
    | some delegate => pure delegate

def owner (c : Context) (kind : String) (level : Level) (offset : Nat) : Tzresult Public_key := do
  let cycle := level.cycle
  let random_seed ← seed_storage.for_cycle c cycle
  let rd := level_random random_seed kind level
  let sequence := seed_repr.sequence rd (Int32.ofNat offset)
  let index ← Storage.Roll.Snapshot_for_cycle_get c cycle
  let bound ← Storage.Roll.Last_for_snapshot.get c (cycle, index)
  fail_unless (Storage.Roll.Owner_snapshot_exists c (cycle, index))
    (.No_roll_snapshot_for_cycle cycle)
  owner_loop c (cycle, index) bound Environment.rounds sequence

end Random

def baking_rights_owner (c : Context) (level : Level) (priority : Nat) : Tzresult Public_key :=
  Random.owner c "baking" level priority

def endorsement_rights_owner (c : Context) (level : Level) (slot : Nat) : Tzresult Public_key :=
  Random.owner c "endorsement" level slot

def init_first_cycles (ctxt : Context) : Tzresult Context := do
  let preserved := constants_storage.preserved_cycles ctxt
  let ctxt ← (List.range (preserved + 1)).foldlM (fun ctxt cycle => do
    let ctxt ← Storage.Roll.Snapshot_for_cycle.init ctxt cycle (Storage.Roll.uint16_to_bytes 0)
    let ctxt ← snapshot_rolls_for_cycle ctxt cycle
    freeze_rolls_for_cycle ctxt cycle) ctxt
  let cycle := preserved + 1
  let ctxt ← Storage.Roll.Snapshot_for_cycle.init ctxt cycle (Storage.Roll.uint16_to_bytes 0)
  let ctxt ← snapshot_rolls_for_cycle ctxt cycle
  let cycle := preserved + 2
  Storage.Roll.Snapshot_for_cycle.init ctxt cycle (Storage.Roll.uint16_to_bytes 0)

end Random

def snapshot_rolls (ctxt : Context) : Tzresult Context :=
  let current_level := raw_context.current_level ctxt
  let preserved := constants_storage.preserved_cycles ctxt
  let cycle := cycle_repr.add current_level.cycle (preserved + 2)
  snapshot_rolls_for_cycle ctxt cycle

def cycle_end [Environment] (ctxt : Context) (last_cycle : Cycle) : Tzresult Context := do
  let preserved := constants_storage.preserved_cycles ctxt
  let cleared_cycle ← cycle_repr.sub last_cycle preserved
  let ctxt ←
    (match cleared_cycle with
    | none => pure ctxt
    | some cleared_cycle => clear_cycle ctxt cleared_cycle)
  let frozen_roll_cycle := cycle_repr.add last_cycle (preserved + 1)
  let ctxt ← freeze_rolls_for_cycle ctxt frozen_roll_cycle
  Storage.Roll.Snapshot_for_cycle.init ctxt
    (cycle_repr.succ (cycle_repr.succ frozen_roll_cycle)) (Storage.Roll.uint16_to_bytes 0)

end roll_storage

end plexus
