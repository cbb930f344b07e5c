import Mathlib.Data.Finset.Card
import Mathlib.Tactic.Common

/-! Singly linked lists whose links are kept in one shared successor map. -/

/-- Following the successors from `head` visits exactly the elements of the
list, in order, and then stops. -/
inductive Follows {α : Type} (next : α → Option α) : Option α → List α → Prop where
  | nil : Follows next none []
  | cons {r : α} {l : List α} : Follows next (next r) l → Follows next (some r) (r :: l)

namespace Follows

open List

variable {α : Type} {next next' : α → Option α} {head : Option α} {r : α} {l l' : List α}

theorem none_iff : Follows next none l ↔ l = [] := by
  constructor
  · intro h
    cases h
    rfl
  · rintro rfl
    exact .nil

theorem some_iff : Follows next (some r) l ↔ ∃ t, l = r :: t ∧ Follows next (next r) t := by
  constructor
  · intro h
    cases h with
    | cons h => exact ⟨_, rfl, h⟩
  · rintro ⟨t, rfl, h⟩
    exact .cons h

section

variable (h : Follows next head l)

include h

theorem head_eq : head = l.head? := by
  cases h <;> rfl

/-- The successor map leaves no choice. -/
theorem unique (h' : Follows next head l') : l = l' := by
  induction h generalizing l' with
  | nil => exact (none_iff.mp h').symm
  | cons _ ih =>
    obtain ⟨t, rfl, ht⟩ := some_iff.mp h'
    rw [ih ht]

/-- Every visited element starts the suffix of the list that begins with it. -/
theorem suffix (hr : r ∈ l) :
    ∃ t, Follows next (some r) (r :: t) ∧ t.length < l.length := by
  induction h with
  | nil => cases hr
  | @cons a t ht ih =>
    rcases mem_cons.mp hr with rfl | hr
    · exact ⟨t, .cons ht, by simp⟩
    · obtain ⟨u, hu, _⟩ := ih hr
      exact ⟨u, hu, by simp; omega⟩

/-- A list that ends never visits an element twice. -/
theorem nodup : l.Nodup := by
  induction h with
  | nil => exact nodup_nil
  | @cons a t ht ih =>
    refine nodup_cons.mpr ⟨?_, ih⟩
    intro hmem
    -- the suffix at the second visit would be the whole list again
    obtain ⟨u, hu, hlen⟩ := ht.suffix hmem
    have heq : a :: u = a :: t := hu.unique (.cons ht)
    have htail : u = t := (List.cons.inj heq).2
    rw [htail] at hlen
    exact lt_irrefl _ hlen

/-- Only the links of visited elements matter. -/
theorem congr (hnext : ∀ a ∈ l, next' a = next a) :
    Follows next' head l := by
  induction h with
  | nil => exact .nil
  | @cons a t _ ih =>
    refine .cons ?_
    rw [hnext a (by simp)]
    exact ih fun b hb => hnext b (by simp [hb])

/-- Linking a new element in front of a list. -/
theorem push (hlink : next' r = head) (hframe : ∀ a ∈ l, next' a = next a) :
    Follows next' (some r) (r :: l) := by
  refine .cons ?_
  rw [hlink]
  exact h.congr hframe

/-- An element with a successor is not the last one, so the number of linked
elements bounds the length. -/
theorem length_le (S : Finset α) (hS : ∀ a, (next a).isSome → a ∈ S) :
    l.length ≤ S.card + 1 := by
  have hinit {head : Option α} {l : List α} (h : Follows next head l) : ∀ a ∈ l.dropLast, a ∈
      S := by
    induction h with
    | nil => intro a ha; cases ha
    | @cons b t ht ih =>
      intro a ha
      cases t with
      | nil => cases ha
      | cons c u =>
        simp only [dropLast_cons_cons, mem_cons] at ha
        rcases ha with rfl | ha
        · exact hS a (by rw [ht.head_eq]; rfl)
        · exact ih a ha
  have hnodup : l.dropLast.Nodup := h.nodup.sublist l.dropLast_sublist
  have hcard : l.dropLast.length ≤ S.card := by
    classical
    rw [← toFinset_card_of_nodup hnodup]
    exact Finset.card_le_card fun a ha => hinit h a (mem_toFinset.mp ha)
  rw [length_dropLast] at hcard
  omega

end

end Follows
