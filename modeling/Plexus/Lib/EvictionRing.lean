import Mathlib.Data.List.Nodup
import Mathlib.Tactic.Common

/-! Bounded rings: a full ring gives up its oldest element for a new one. -/

/-- The operations of a ring. `elements` lists it from the oldest element to the
newest; an addition returns the element that is given up. -/
class EvictionRing (α : Type) where
  Ring : Type
  create : Nat → Ring
  clear : Ring → Ring
  add_and_return_erased : Ring → α → Option α × Ring
  elements : Ring → List α

namespace EvictionRing

open List

variable {α : Type} [EvictionRing α]

/-- The element that is given up when another one is added. -/
def erased (r : Ring α) (x : α) : Option α := (add_and_return_erased r x).1

/-- The ring after an element is added. -/
def add (r : Ring α) (x : α) : Ring α := (add_and_return_erased r x).2

end EvictionRing

/-- New rings are empty, and only the oldest element is ever given up. -/
class LawfulEvictionRing (α : Type) [EvictionRing α] : Prop where
  elements_create {n : Nat} (h : 0 < n) :
    EvictionRing.elements (EvictionRing.create n : EvictionRing.Ring α) = []
  elements_clear (r : EvictionRing.Ring α) : EvictionRing.elements (EvictionRing.clear r) = []
  elements_add (r : EvictionRing.Ring α) (x : α) :
    ∃ l, EvictionRing.elements r = (EvictionRing.erased r x).toList ++ l ∧
      EvictionRing.elements (EvictionRing.add r x) = l ++ [x]

namespace EvictionRing

open List LawfulEvictionRing

attribute [simp] elements_clear

/-- A queue that knows its capacity is such a ring. -/
@[reducible] def queue (α : Type) : EvictionRing α where
  Ring := Nat × List α
  create n := (n, [])
  clear r := (r.1, [])
  add_and_return_erased r x :=
    if r.2.length < r.1 then (none, (r.1, r.2 ++ [x])) else (r.2.head?, (r.1, r.2.tail ++ [x]))
  elements r := r.2

theorem queue_lawful (α : Type) : @LawfulEvictionRing α (queue α) :=
  let _ := queue α
  { elements_create := fun _ => rfl
    elements_clear := fun _ => rfl
    elements_add := by
      rintro ⟨capacity, elements⟩ x
      have hadd : add_and_return_erased (capacity, elements) x = if elements.length < capacity
          then (none, (capacity, elements ++ [x]))
          else (elements.head?, (capacity, elements.tail ++ [x])) := rfl
      unfold erased add
      rw [hadd]
      split
      · exact ⟨elements, rfl, rfl⟩
      · exact ⟨elements.tail, by cases elements <;> rfl, rfl⟩ }

variable {α : Type} [EvictionRing α] [LawfulEvictionRing α] {r : Ring α}

/-- Adding an element that is not in the ring keeps the elements distinct. -/
theorem nodup_add {x : α} (h : (elements r).Nodup) (hx : x ∉ elements r) :
    (elements (add r x)).Nodup := by
  obtain ⟨l, hold, hnew⟩ := elements_add r x
  rw [hold] at h hx
  rw [hnew]
  refine nodup_append.mpr ⟨h.of_append_right, nodup_singleton x, ?_⟩
  rintro a ha b hb rfl
  rw [mem_singleton] at hb
  subst hb
  exact hx (mem_append_right _ ha)

theorem mem_of_erased {x y : α} (h : erased r x = some y) : y ∈ elements r := by
  obtain ⟨l, hold, -⟩ := elements_add r x
  rw [hold, h]
  exact mem_cons_self

/-- After an addition the ring holds the new element and everything that was
not given up. -/
theorem mem_add {x y : α} (h : (elements r).Nodup) :
    y ∈ elements (add r x) ↔ y = x ∨ (y ∈ elements r ∧ erased r x ≠ some y) := by
  obtain ⟨l, hold, hnew⟩ := elements_add r x
  rw [hnew, mem_append, mem_singleton, or_comm]
  refine or_congr_right ?_
  rw [hold] at h ⊢
  cases herased : erased r x with
  | none => simp
  | some e =>
    rw [herased, Option.toList_some, singleton_append, nodup_cons] at h
    simp only [Option.toList_some, singleton_append, mem_cons, ne_eq, Option.some.injEq]
    constructor
    · intro hy
      exact ⟨.inr hy, by rintro rfl; exact h.1 hy⟩
    · rintro ⟨rfl | hy, hne⟩
      · exact absurd rfl hne
      · exact hy

end EvictionRing
