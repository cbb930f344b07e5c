import Mathlib.Logic.Function.Basic
import Plexus.Lib.Linked
import Plexus.RollStorage

namespace plexus

open roll_repr Store List Function

open Result (meets_ok)
open Indexed_data_storage (get_spec init_spec set_spec delete_spec)

/-! What the two primitives write, as functions on the roll stores. -/

namespace Rolls

/-- Unlink the first roll of a delegate and put it in front of the limbo. -/
def popped (rolls : Rolls) (delegate : Public_key_hash) (roll : Roll) (change : Mine) : Rolls :=
  { rolls with
    delegate_change := rolls.delegate_change.put delegate (some change)
    owner := rolls.owner.put roll none
    delegate_roll_list := rolls.delegate_roll_list.put delegate (rolls.successor.lookup roll)
    successor := rolls.successor.put roll rolls.limbo
    limbo := some roll }

/-- Take a roll out of the limbo and put it in front of a delegate's list. -/
def created (rolls : Rolls) (delegate : Public_key_hash) (pk : Public_key) (roll : Roll)
    (next : Option Roll) (change : Mine) : Rolls :=
  { rolls with
    next
    delegate_change := rolls.delegate_change.put delegate (some change)
    owner := rolls.owner.put roll (some pk)
    limbo := rolls.successor.lookup roll
    successor := rolls.successor.put roll (rolls.delegate_roll_list.lookup delegate)
    delegate_roll_list := rolls.delegate_roll_list.put delegate (some roll) }

end Rolls

namespace roll_storage.Delegate

variable {c c' : Context} {d : Public_key_hash} {pk : Public_key} {roll : Roll}

theorem recover_roll_change_spec :
    (recover_roll_change c d).Meets fun c' => ∃ change new_change,
      c.rolls.delegate_change.lookup d = some change ∧
      new_change.amount = change.amount + c.constants.mine_tokens_per_roll.amount ∧
      c' = c.with_rolls { c.rolls with
        delegate_change := c.rolls.delegate_change.put d (some new_change) } := by
  refine .bind get_spec fun change hget => ?_
  refine .bind Qty.add_spec fun new_change hnew => ?_
  exact set_spec.imp fun _ hset => ⟨change, new_change, hget, hnew, hset⟩

theorem consume_roll_change_spec :
    (consume_roll_change c d).Meets fun c' => ∃ change new_change,
      c.rolls.delegate_change.lookup d = some change ∧
      new_change.amount = change.amount - c.constants.mine_tokens_per_roll.amount ∧
      c' = c.with_rolls { c.rolls with
        delegate_change := c.rolls.delegate_change.put d (some new_change) } := by
  refine .bind get_spec fun change hget => ?_
  refine .bind (meets_trace Qty.sub_spec) fun new_change hnew => ?_
  exact set_spec.imp fun _ hset => ⟨change, new_change, hget, hnew, hset⟩

/-- A pop unlinks the first roll of the delegate, which has an owner, and
credits the change with the value of a roll. -/
theorem pop_roll_from_delegate_spec :
    (pop_roll_from_delegate c d).Meets fun r => ∃ change new_change roll,
      c.rolls.delegate_change.lookup d = some change ∧
      new_change.amount = change.amount + c.constants.mine_tokens_per_roll.amount ∧
      c.rolls.delegate_roll_list.lookup d = some roll ∧
      (∃ pk, c.rolls.owner.lookup roll = some pk) ∧
      r = (roll, c.with_rolls (c.rolls.popped d roll new_change)) := by
  refine .bind recover_roll_change_spec ?_
  rintro c1 ⟨change, new_change, hchange, hnew, rfl⟩
  split
  · exact meets_fail
  · next roll hhead =>
    refine .bind delete_spec ?_
    rintro c2 ⟨howner, rfl⟩
    refine meets_ok ⟨change, new_change, roll, hchange, hnew, hhead, howner, ?_⟩
    simp [Rolls.popped]

theorem fresh_roll_spec :
    (fresh_roll c).Meets fun r => ∃ roll, c.rolls.next = some roll ∧
      r = (roll, c.with_rolls { c.rolls with next := some (succ roll) }) := by
  refine .bind Single_data_storage.get_spec fun roll hnext => ?_
  refine .bind Single_data_storage.set_spec ?_
  rintro _ rfl
  exact meets_ok ⟨roll, hnext, rfl⟩

/-- The roll handed out is the head of the limbo or, when that is empty, the
next number. -/
theorem get_limbo_roll_spec :
    (get_limbo_roll c).Meets fun r => ∃ roll next,
      (c.rolls.limbo = some roll ∧ next = c.rolls.next ∨
        c.rolls.limbo = none ∧ c.rolls.next = some roll ∧ next = some (succ roll)) ∧
      r = (roll, c.with_rolls { c.rolls with next, limbo := some roll }) := by
  unfold get_limbo_roll
  split
  · next hlimbo =>
    refine .bind fresh_roll_spec ?_
    rintro _ ⟨roll, hnext, rfl⟩
    refine .bind Single_data_storage.init_spec ?_
    rintro _ rfl
    exact meets_ok ⟨roll, _, .inr ⟨hlimbo, hnext, rfl⟩, rfl⟩
  · next roll hlimbo =>
    refine meets_ok ⟨roll, c.rolls.next, .inl ⟨hlimbo, rfl⟩, ?_⟩
    rw [← hlimbo]
    rfl

/-- A creation links a roll without owner in front of the delegate's list and
takes the value of a roll from the change. -/
theorem create_roll_in_delegate_spec :
    (create_roll_in_delegate c d pk).Meets fun c' => ∃ change new_change roll next,
      c.rolls.delegate_change.lookup d = some change ∧
      new_change.amount = change.amount - c.constants.mine_tokens_per_roll.amount ∧
      (c.rolls.limbo = some roll ∧ next = c.rolls.next ∨
        c.rolls.limbo = none ∧ c.rolls.next = some roll ∧ next = some (succ roll)) ∧
      c.rolls.owner.lookup roll = none ∧
      c' = c.with_rolls (c.rolls.created d pk roll next new_change) := by
  refine .bind consume_roll_change_spec ?_
  rintro c1 ⟨change, new_change, hchange, hnew, rfl⟩
  refine .bind get_limbo_roll_spec ?_
  rintro _ ⟨roll, next, hroll, rfl⟩
  refine .bind init_spec ?_
  rintro c3 ⟨howner, rfl⟩
  refine meets_ok ⟨change, new_change, roll, next, hchange, hnew, hroll, howner, ?_⟩
  simp [Rolls.created]

end roll_storage.Delegate

/-! The lists the roll stores stand for. -/

/-- A stock of rolls without owner and a list of rolls for each delegate.
`allocated` counts the numbers handed out so far; every one of them is in
exactly one place. -/
structure Roll_lists where
  allocated : Nat
  limbo : List Roll
  lists : Public_key_hash → List Roll
  allocated_le : allocated ≤ 2 ^ 32
  limbo_nodup : limbo.Nodup
  lists_nodup : ∀ d, (lists d).Nodup
  limbo_disjoint : ∀ d, ∀ r ∈ limbo, r ∉ lists d
  lists_disjoint : ∀ d d' r, r ∈ lists d → r ∈ lists d' → d = d'
  cover : ∀ r, (∃ i < allocated, r = Int32.ofNat i) ↔ r ∈ limbo ∨ ∃ d, r ∈ lists d

namespace Roll_lists

theorem ofNat_injective {i j : Nat} (hi : i < 2 ^ 32) (hj : j < 2 ^ 32)
    (h : Int32.ofNat i = Int32.ofNat j) : i = j := by
  have hbits : BitVec.ofNat 32 i = BitVec.ofNat 32 j := by
    simpa only [Int32.toBitVec_ofNat'] using congrArg Int32.toBitVec h
  have hmod := congrArg BitVec.toNat hbits
  rwa [BitVec.toNat_ofNat, BitVec.toNat_ofNat, Nat.mod_eq_of_lt hi, Nat.mod_eq_of_lt hj] at hmod

def empty : Roll_lists where
  allocated := 0
  limbo := []
  lists _ := []
  allocated_le := by decide
  limbo_nodup := List.nodup_nil
  lists_nodup _ := List.nodup_nil
  limbo_disjoint := by simp
  lists_disjoint := by simp
  cover := by simp

/-- Hand out the next number when the stock is empty. -/
def fresh (a : Roll_lists) (hlimbo : a.limbo = []) (hlt : a.allocated < 2 ^ 32) : Roll_lists where
  allocated := a.allocated + 1
  limbo := [Int32.ofNat a.allocated]
  lists := a.lists
  allocated_le := hlt
  limbo_nodup := List.nodup_singleton _
  lists_nodup := a.lists_nodup
  limbo_disjoint d r hr hmem := by
    rw [List.mem_singleton] at hr
    obtain ⟨i, hi, hri⟩ := (a.cover r).mpr (.inr ⟨d, hmem⟩)
    have heq : i = a.allocated := ofNat_injective (by omega) hlt (hri.symm.trans hr)
    omega
  lists_disjoint := a.lists_disjoint
  cover r := by
    have hcover := a.cover r
    simp only [hlimbo, List.not_mem_nil, false_or] at hcover
    rw [List.mem_singleton, ← hcover]
    constructor
    · rintro ⟨i, hi, rfl⟩
      rcases Nat.lt_succ_iff_lt_or_eq.mp hi with hi | rfl
      · exact .inr ⟨i, hi, rfl⟩
      · exact .inl rfl
    · rintro (rfl | ⟨i, hi, rfl⟩)
      · exact ⟨a.allocated, by omega, rfl⟩
      · exact ⟨i, by omega, rfl⟩

theorem mem_update {lists : Public_key_hash → List Roll} {d d' : Public_key_hash} {l : List Roll}
    {r : Roll} :
    r ∈ Function.update lists d l d' ↔ if d' = d then r ∈ l else r ∈ lists d' := by
  split <;> simp_all

/-- Give the first roll of the stock to a delegate. -/
def create (a : Roll_lists) (d : Public_key_hash) {r : Roll} {l : List Roll}
    (hlimbo : a.limbo = r :: l) : Roll_lists where
  allocated := a.allocated
  limbo := l
  lists := Function.update a.lists d (r :: a.lists d)
  allocated_le := a.allocated_le
  limbo_nodup := by
    have hnodup := a.limbo_nodup
    rw [hlimbo] at hnodup
    exact hnodup.of_cons
  lists_nodup d' := by
    by_cases hd : d' = d
    · subst hd
      rw [Function.update_self]
      exact (a.lists_nodup d').cons (a.limbo_disjoint d' r (by simp [hlimbo]))
    · rw [Function.update_of_ne hd]
      exact a.lists_nodup d'
  limbo_disjoint d' x hx hmem := by
    have hnodup := a.limbo_nodup
    rw [hlimbo, List.nodup_cons] at hnodup
    have hx' : x ∈ a.limbo := by rw [hlimbo]; exact List.mem_cons_of_mem r hx
    rw [mem_update] at hmem
    split at hmem
    · rcases List.mem_cons.mp hmem with rfl | hmem
      · exact hnodup.1 hx
      · exact a.limbo_disjoint d x hx' hmem
    · exact a.limbo_disjoint d' x hx' hmem
  lists_disjoint d1 d2 x h1 h2 := by
    have hr : ∀ d', r ∉ a.lists d' := fun d' => a.limbo_disjoint d' r (by simp [hlimbo])
    rw [mem_update] at h1 h2
    by_cases hd1 : d1 = d <;> by_cases hd2 : d2 = d
    · rw [hd1, hd2]
    · rw [if_pos hd1] at h1
      rw [if_neg hd2] at h2
      rcases List.mem_cons.mp h1 with rfl | h1
      · exact absurd h2 (hr d2)
      · exact hd1.trans (a.lists_disjoint d d2 x h1 h2)
    · rw [if_neg hd1] at h1
      rw [if_pos hd2] at h2
      rcases List.mem_cons.mp h2 with rfl | h2
      · exact absurd h1 (hr d1)
      · exact (a.lists_disjoint d1 d x h1 h2).trans hd2.symm
    · rw [if_neg hd1] at h1
      rw [if_neg hd2] at h2
      exact a.lists_disjoint d1 d2 x h1 h2
  cover x := by
    rw [a.cover x, hlimbo, List.mem_cons]
    constructor
    · rintro ((rfl | hx) | ⟨d', hx⟩)
      · exact .inr ⟨d, by simp⟩
      · exact .inl hx
      · refine .inr ⟨d', ?_⟩
        rw [mem_update]
        split
        · next e => exact List.mem_cons_of_mem r (e ▸ hx)
        · exact hx
    · rintro (hx | ⟨d', hx⟩)
      · exact .inl (.inr hx)
      · rw [mem_update] at hx
        split at hx
        · rcases List.mem_cons.mp hx with rfl | hx
          · exact .inl (.inl rfl)
          · exact .inr ⟨d, hx⟩
        · exact .inr ⟨d', hx⟩

/-- Return the first roll of a delegate to the stock. -/
def pop (a : Roll_lists) (d : Public_key_hash) {r : Roll} {l : List Roll}
    (hlist : a.lists d = r :: l) : Roll_lists where
  allocated := a.allocated
  limbo := r :: a.limbo
  lists := Function.update a.lists d l
  allocated_le := a.allocated_le
  limbo_nodup := by
    refine a.limbo_nodup.cons ?_
    intro hmem
    exact a.limbo_disjoint d r hmem (by simp [hlist])
  lists_nodup d' := by
    by_cases hd : d' = d
    · subst hd
      have hnodup := a.lists_nodup d'
      rw [hlist] at hnodup
      rw [Function.update_self]
      exact hnodup.of_cons
    · rw [Function.update_of_ne hd]
      exact a.lists_nodup d'
  limbo_disjoint d' x hx hmem := by
    have hnodup := a.lists_nodup d
    rw [hlist, List.nodup_cons] at hnodup
    rw [mem_update] at hmem
    rcases List.mem_cons.mp hx with rfl | hx
    · split at hmem
      · exact hnodup.1 hmem
      · next hd => exact hd (a.lists_disjoint d' d x hmem (by simp [hlist]))
    · split at hmem
      · exact a.limbo_disjoint d x hx (by rw [hlist]; exact List.mem_cons_of_mem r hmem)
      · exact a.limbo_disjoint d' x hx hmem
  lists_disjoint d1 d2 x h1 h2 := by
    have hsub d' x (hx : x ∈ Function.update a.lists d l d') : x ∈ a.lists d' := by
      rw [mem_update] at hx
      split at hx
      · next e => rw [e, hlist]; exact List.mem_cons_of_mem r hx
      · exact hx
    exact a.lists_disjoint d1 d2 x (hsub d1 x h1) (hsub d2 x h2)
  cover x := by
    rw [a.cover x, List.mem_cons]
    constructor
    · rintro (hx | ⟨d', hx⟩)
      · exact .inl (.inr hx)
      · by_cases hd : d' = d
        · subst hd
          rw [hlist] at hx
          rcases List.mem_cons.mp hx with rfl | hx
          · exact .inl (.inl rfl)
          · exact .inr ⟨d', by rwa [Function.update_self]⟩
        · exact .inr ⟨d', by rwa [Function.update_of_ne hd]⟩
    · rintro ((rfl | hx) | ⟨d', hx⟩)
      · exact .inr ⟨d, by simp [hlist]⟩
      · exact .inl hx
      · rw [mem_update] at hx
        split at hx
        · exact .inr ⟨d, by rw [hlist]; exact List.mem_cons_of_mem r hx⟩
        · exact .inr ⟨d', hx⟩

end Roll_lists

namespace Rolls

/-- The roll stores represent the lists: each is found by following successors
from its head, exactly the rolls of delegates have an owner, and no other
number has a successor. -/
structure Represents (rolls : Rolls) (a : Roll_lists) : Prop where
  next : rolls.next = some (Int32.ofNat a.allocated)
  limbo : Follows rolls.successor.lookup rolls.limbo a.limbo
  lists : ∀ d, Follows rolls.successor.lookup (rolls.delegate_roll_list.lookup d) (a.lists d)
  successor : ∀ r, (rolls.successor.lookup r).isSome → r ∈ a.limbo ∨ ∃ d, r ∈ a.lists d
  owner : ∀ r, (rolls.owner.lookup r).isSome ↔ ∃ d, r ∈ a.lists d

namespace Represents

variable {rolls : Rolls} {a : Roll_lists} {d : Public_key_hash} {pk : Public_key} {r : Roll}

/-- Before the first roll is made there are no lists. -/
theorem initial :
    Represents { Rolls.empty with next := some first } Roll_lists.empty where
  next := rfl
  limbo := .nil
  lists _ := .nil
  successor := by simp [Rolls.empty]
  owner := by simp [Rolls.empty, Roll_lists.empty]

/-- Only the stores that hold the lists matter. -/
theorem congr {rolls' : Rolls} (h : rolls.Represents a) (hnext : rolls'.next = rolls.next)
    (hlimbo : rolls'.limbo = rolls.limbo) (hsuccessor : rolls'.successor = rolls.successor)
    (howner : rolls'.owner = rolls.owner)
    (hlists : rolls'.delegate_roll_list = rolls.delegate_roll_list) : rolls'.Represents a where
  next := hnext ▸ h.next
  limbo := by rw [hlimbo, hsuccessor]; exact h.limbo
  lists := by rw [hlists, hsuccessor]; exact h.lists
  successor := by rw [hsuccessor]; exact h.successor
  owner := by rw [howner]; exact h.owner

/-- The next number is fresh unless all numbers are taken, and then every roll
has an owner. -/
theorem fresh (h : rolls.Represents a) (hlimbo : rolls.limbo = none) (hnext : rolls.next = some r)
    (howner : rolls.owner.lookup r = none) :
    ∃ (hempty : a.limbo = []) (hlt : a.allocated < 2 ^ 32),
      Represents { rolls with next := some (succ r), limbo := some r } (a.fresh hempty hlt) := by
  have hempty : a.limbo = [] := Follows.none_iff.mp (hlimbo ▸ h.limbo)
  have hr : r = Int32.ofNat a.allocated := by
    have hnext' := h.next
    rw [hnext] at hnext'
    exact Option.some.inj hnext'
  have hunlisted : ¬ ∃ d, r ∈ a.lists d := by
    rw [← h.owner r, howner]
    exact Bool.false_ne_true
  have hlt : a.allocated < 2 ^ 32 := by
    refine lt_of_le_of_ne a.allocated_le ?_
    intro hfull
    have hzero : r = Int32.ofNat 0 := by
      rw [hr, hfull]
      decide
    have hcover := (a.cover r).mp ⟨0, by omega, hzero⟩
    rw [hempty] at hcover
    exact hcover.elim (by simp) hunlisted
  have hsuccessor : rolls.successor.lookup r = none := by
    rw [← Option.not_isSome_iff_eq_none]
    intro hsome
    have hmem := h.successor r hsome
    rw [hempty] at hmem
    exact hmem.elim (by simp) hunlisted
  refine ⟨hempty, hlt, ?_⟩
  constructor
  · change some (succ r) = some (Int32.ofNat (a.allocated + 1))
    rw [hr, succ, Int32.ofNat_add]
    rfl
  · change Follows rolls.successor.lookup (some r) [Int32.ofNat a.allocated]
    rw [← hr]
    refine .cons ?_
    rw [hsuccessor]
    exact .nil
  · exact h.lists
  · intro x hx
    have hmem := h.successor x hx
    rw [hempty] at hmem
    exact .inr (hmem.elim (by simp) id)
  · exact h.owner

/-- Moving the head of the limbo to a delegate. -/
theorem created (d : Public_key_hash) (pk : Public_key) (h : rolls.Represents a)
    (hlimbo : rolls.limbo = some r) (change : Mine) :
    ∃ (l : List Roll) (hhead : a.limbo = r :: l),
      (rolls.created d pk r rolls.next change).Represents (a.create d hhead) := by
  have hfollows := h.limbo
  rw [hlimbo, Follows.some_iff] at hfollows
  obtain ⟨l, hhead, hl⟩ := hfollows
  refine ⟨l, hhead, ?_⟩
  have hr : ∀ d', r ∉ a.lists d' := fun d' => a.limbo_disjoint d' r (by simp [hhead])
  have hnodup := a.limbo_nodup
  rw [hhead, nodup_cons] at hnodup
  have hframe x (hx : x ≠ r) : (rolls.created d pk r rolls.next change).successor.lookup x =
      rolls.successor.lookup x := by
    exact lookup_put_ne _ hx _
  constructor
  · exact h.next
  · exact hl.congr fun x hx => hframe x (ne_of_mem_of_not_mem hx hnodup.1)
  · intro d'
    have hlist' := h.lists d'
    simp only [Rolls.created, Roll_lists.create]
    by_cases hd : d' = d
    · subst hd
      rw [lookup_put_self, update_self]
      refine hlist'.push (lookup_put_self _ _ _) ?_
      intro x hx
      exact lookup_put_ne _ (ne_of_mem_of_not_mem hx (hr d')) _
    · rw [lookup_put_ne _ hd, update_of_ne hd]
      refine hlist'.congr ?_
      intro x hx
      exact lookup_put_ne _ (ne_of_mem_of_not_mem hx (hr d')) _
  · intro x hx
    rw [← (a.create d hhead).cover]
    by_cases hxr : x = r
    · subst hxr
      exact (a.cover x).mpr (.inl (by simp [hhead]))
    · rw [hframe x hxr] at hx
      exact (a.cover x).mpr (h.successor x hx)
  · intro x
    simp only [Rolls.created, Roll_lists.create, Roll_lists.mem_update]
    by_cases hxr : x = r
    · subst hxr
      simp only [lookup_put_self, Option.isSome_some, true_iff]
      exact ⟨d, by simp⟩
    · rw [lookup_put_ne _ hxr, h.owner]
      constructor
      · rintro ⟨d', hx⟩
        refine ⟨d', ?_⟩
        split
        · next e => exact mem_cons_of_mem r (e ▸ hx)
        · exact hx
      · rintro ⟨d', hx⟩
        split at hx
        · exact ⟨d, mem_of_ne_of_mem hxr hx⟩
        · exact ⟨d', hx⟩

/-- Moving the first roll of a delegate to the limbo. -/
theorem popped (h : rolls.Represents a) (hhead : rolls.delegate_roll_list.lookup d = some r)
    (change : Mine) :
    ∃ (l : List Roll) (hlist : a.lists d = r :: l),
      (rolls.popped d r change).Represents (a.pop d hlist) := by
  have hfollows := h.lists d
  rw [hhead, Follows.some_iff] at hfollows
  obtain ⟨l, hlist, hl⟩ := hfollows
  refine ⟨l, hlist, ?_⟩
  have hr : r ∈ a.lists d := by simp [hlist]
  have hlimbo : r ∉ a.limbo := fun hmem => a.limbo_disjoint d r hmem hr
  have hnodup := a.lists_nodup d
  rw [hlist, nodup_cons] at hnodup
  constructor
  · exact h.next
  · refine h.limbo.push (lookup_put_self _ _ _) ?_
    intro x hx
    exact lookup_put_ne _ (ne_of_mem_of_not_mem hx hlimbo) _
  · intro d'
    simp only [Rolls.popped, Roll_lists.pop]
    by_cases hd : d' = d
    · subst hd
      rw [lookup_put_self, update_self]
      refine hl.congr ?_
      intro x hx
      exact lookup_put_ne _ (ne_of_mem_of_not_mem hx hnodup.1) _
    · rw [lookup_put_ne _ hd, update_of_ne hd]
      refine (h.lists d').congr ?_
      intro x hx
      have hne : x ≠ r := by
        rintro rfl
        exact hd (a.lists_disjoint d' d x hx hr)
      exact lookup_put_ne _ hne _
  · intro x hx
    rw [← (a.pop d hlist).cover]
    by_cases hxr : x = r
    · subst hxr
      exact (a.cover x).mpr (.inr ⟨d, hr⟩)
    · refine (a.cover x).mpr (h.successor x ?_)
      rwa [← lookup_put_ne _ hxr]
  · intro x
    simp only [Rolls.popped, Roll_lists.pop, Roll_lists.mem_update]
    by_cases hxr : x = r
    · subst hxr
      simp only [lookup_put_self, Option.isSome_none, Bool.false_eq_true, false_iff]
      rintro ⟨d', hx⟩
      split at hx
      · exact hnodup.1 hx
      · next hd => exact hd (a.lists_disjoint d' d x hx hr)
    · rw [lookup_put_ne _ hxr, h.owner]
      constructor
      · rintro ⟨d', hx⟩
        refine ⟨d', ?_⟩
        split
        · next e =>
          rw [e, hlist] at hx
          exact mem_of_ne_of_mem hxr hx
        · exact hx
      · rintro ⟨d', hx⟩
        split at hx
        · exact ⟨d, by rw [hlist]; exact mem_cons_of_mem r hx⟩
        · exact ⟨d', hx⟩

end Represents

end Rolls

end plexus
