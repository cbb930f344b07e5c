import Plexus.Exceptions

/-! The slots of the endorsers of a block: every slot belongs to one delegate. -/

namespace plexus

open List Store

namespace baking

/-- The number of slots of the delegates that endorsed. -/
def used_slots (rights : Endorsement_rights) : Nat :=
  rights.sum fun _ right => if right.2.2 then right.2.1.length else 0

def all_slots (rights : Endorsement_rights) : Nat := rights.sum fun _ right => right.2.1.length

/-- How often a slot is assigned. -/
def assigned (rights : Endorsement_rights) (slot : Nat) : Nat :=
  rights.sum fun _ right => right.2.1.count slot

/-- A slot is one of those of a delegate. -/
def Has_slot (rights : Endorsement_rights) (slot : Nat) (delegate : Public_key_hash) : Prop :=
  ∃ pk slots used, rights.lookup delegate = some (pk, slots, used) ∧ slot ∈ slots

theorem used_slots_le (rights : Endorsement_rights) : used_slots rights ≤ all_slots rights := by
  apply Store.sum_le_sum
  intro _ right _
  split <;> simp

variable {rights : Endorsement_rights}

theorem existsUnique_has_slot {slot : Nat} (h : assigned rights slot = 1) :
    ∃! delegate, Has_slot rights slot delegate := by
  have hiff delegate : Has_slot rights slot delegate ↔ ∃ right, rights.lookup delegate = some
      right ∧ right.2.1.count slot ≠ 0 := by
    constructor
    · rintro ⟨pk, slots, used, hlookup, hmem⟩
      exact ⟨_, hlookup, (count_pos_iff.mpr hmem).ne'⟩
    · rintro ⟨⟨pk, slots, used⟩, hlookup, hcount⟩
      exact ⟨pk, slots, used, hlookup, count_pos_iff.mp (Nat.pos_of_ne_zero hcount)⟩
  simp only [hiff]
  exact existsUnique_of_sum_eq_one h

/-- The rights after the first `k` slots. -/
structure Assigned (k : Nat) (rights : Endorsement_rights) : Prop where
  fresh : ∀ delegate right, rights.lookup delegate = some right → right.2.2 = false
  all : all_slots rights = k
  once : ∀ slot, assigned rights slot = if slot < k then 1 else 0

theorem assigned_empty : Assigned 0 Store.empty where
  fresh _ _ h := by cases h
  all := rfl
  once _ := rfl

theorem Assigned.used_slots_eq {k : Nat} (h : Assigned k rights) : used_slots rights = 0 := by
  apply Finset.sum_eq_zero
  intro delegate _
  cases hlookup : rights.lookup delegate with
  | none => rfl
  | some right => simp [h.fresh delegate right hlookup]

/-- The rights of a delegate with one more slot. -/
def with_slot (o : Option (Public_key × List Nat × Bool)) (pk : Public_key) (slot : Nat) :
    Public_key × List Nat × Bool :=
  match o with
  | none => (pk, [slot], false)
  | some (pk, slots, used) => (pk, slot :: slots, used)

/-- One more slot counts in every sum over the slots of all delegates. -/
theorem sum_with_slot (rights : Endorsement_rights) (delegate : Public_key_hash) (pk : Public_key)
    (slot : Nat) {f : List Nat → Nat} (hnil : f [] = 0) {n : Nat}
    (hcons : ∀ slots, f (slot :: slots) = f slots + n) :
    (rights.put delegate (some (with_slot (rights.lookup delegate) pk slot))).sum
        (fun _ right => f right.2.1) = rights.sum (fun _ right => f right.2.1) + n := by
  have hput := sum_put_add rights delegate (with_slot (rights.lookup delegate) pk slot)
    fun _ right => f right.2.1
  cases hlookup : rights.lookup delegate with
  | none =>
    rw [hlookup] at hput
    simp only [Option.elim_none, with_slot, hcons, hnil] at hput ⊢
    omega
  | some right =>
    obtain ⟨pk', slots, _⟩ := right
    rw [hlookup] at hput
    simp only [Option.elim_some, with_slot, hcons] at hput ⊢
    omega

/-- The next slot goes to one delegate. -/
theorem Assigned.add_slot {k : Nat} (h : Assigned k rights) (pk : Public_key)
    (delegate : Public_key_hash) :
    Assigned (k + 1) (rights.put delegate (some (with_slot (rights.lookup delegate) pk k))) := by
  constructor
  · intro d right hd
    by_cases hdd : d = delegate
    · rw [hdd, lookup_put_self] at hd
      cases hd
      cases hlookup : rights.lookup delegate with
      | none => rfl
      | some right' => exact h.fresh delegate right' hlookup
    · rw [lookup_put_ne _ hdd] at hd
      exact h.fresh d right hd
  · rw [all_slots, sum_with_slot rights delegate pk k length_nil fun _ => length_cons]
    exact congrArg (· + 1) h.all
  · intro slot
    have hcount (slots : List Nat) : (k :: slots).count slot = slots.count slot + if k = slot then 1
        else 0 := by
      rw [count_cons]
      simp
    have honce : rights.sum (fun _ right => right.2.1.count slot) = if slot < k then 1 else 0 :=
      h.once slot
    rw [assigned, sum_with_slot rights delegate pk k count_nil hcount, honce]
    by_cases hslot : k = slot
    · rw [if_pos hslot, if_neg (by omega), if_pos (by omega)]
    · rw [if_neg hslot, add_zero]
      have hiff : slot < k + 1 ↔ slot < k := by omega
      simp only [hiff]

variable [Environment]

/-- `endorsement_rights` assigns all the slots. -/
theorem endorsement_rights_assigned {ctxt : Context} {level : Level}
    (h : endorsement_rights ctxt level = .ok rights) :
    Assigned ctxt.constants.endorsers_per_block rights := by
  unfold endorsement_rights at h
  generalize ctxt.constants.endorsers_per_block = n at h
  induction n generalizing rights with
  | zero =>
    cases h
    exact assigned_empty
  | succ n ih =>
    rw [range_succ, foldlM_append] at h
    obtain ⟨_, hprevious, h⟩ := Result.bind_inv h
    rw [foldlM_cons] at h
    obtain ⟨_, hround, h⟩ := Result.bind_inv h
    obtain ⟨pk, _, hround⟩ := Result.bind_inv hround
    cases h
    cases hround
    exact (ih hprevious).add_slot pk _

end baking

end plexus
