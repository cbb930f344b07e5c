import Mathlib.Data.List.Chain
import Mathlib.Tactic.Common

/-! Forests given by a parent function: ancestors, lowest common ancestors and
the paths between them. -/

namespace Ancestry

open List Option

variable {α : Type} {parent : α → Option α}

/-- The ancestor of `x` that is `n` links away. -/
def climb (parent : α → Option α) : Nat → α → Option α
  | 0, x => some x
  | n + 1, x => (parent x).bind (climb parent n)

@[simp] theorem climb_zero (x : α) : climb parent 0 x = some x := rfl

theorem climb_succ (n : Nat) (x : α) :
    climb parent (n + 1) x = (parent x).bind (climb parent n) := rfl

theorem climb_one (x : α) : climb parent 1 x = parent x := by
  rw [climb_succ]
  cases parent x <;> rfl

theorem climb_add (m n : Nat) (x : α) :
    climb parent (m + n) x = (climb parent m x).bind (climb parent n) := by
  induction m generalizing x with
  | zero => rw [Nat.zero_add, climb_zero, bind_some]
  | succ m ih =>
    rw [Nat.succ_add, climb_succ, climb_succ, bind_assoc]
    cases parent x with
    | none => rfl
    | some y => exact ih y

variable {x y : α} {n m : Nat}

theorem climb_trans {z : α} (hxy : climb parent m x = some y)
    (hyz : climb parent n y = some z) : climb parent (m + n) x = some z := by
  rw [climb_add, hxy, bind_some, hyz]

/-- Past the end of the links there is nothing. -/
theorem climb_eq_none_of_le (h : climb parent m x = none) (hle : m ≤ n) :
    climb parent n x = none := by
  obtain ⟨k, rfl⟩ := Nat.exists_eq_add_of_le hle
  rw [climb_add, h, bind_none]

/-- Everything on the way to an ancestor is there. -/
theorem exists_climb_of_le {z : α} (h : climb parent n x = some z) (hle : m ≤ n) :
    ∃ y, climb parent m x = some y ∧ climb parent (n - m) y = some z := by
  obtain ⟨k, rfl⟩ := Nat.exists_eq_add_of_le hle
  rw [climb_add, bind_eq_some_iff] at h
  rw [Nat.add_sub_cancel_left]
  exact h

/-- Parent functions that agree on everything the climb visits climb alike. -/
theorem climb_congr {parent' : α → Option α} {P : α → Prop}
    (hclosed : ∀ x y, P x → parent x = some y → P y) (heq : ∀ x, P x → parent' x = parent x)
    (hx : P x) (n : Nat) : climb parent' n x = climb parent n x := by
  induction n generalizing x with
  | zero => rfl
  | succ n ih =>
    rw [climb_succ, climb_succ, heq x hx]
    cases hy : parent x with
    | none => rfl
    | some y => exact ih (hclosed x y hx hy)

/-- `a` is `x` or above it. -/
def Ancestor (parent : α → Option α) (a x : α) : Prop :=
  ∃ n, climb parent n x = some a

theorem Ancestor.refl (x : α) : Ancestor parent x x := ⟨0, rfl⟩

variable {a : α} {b : α}

theorem Ancestor.trans (hab : Ancestor parent a b) (hbx : Ancestor parent b x) :
    Ancestor parent a x := by
  obtain ⟨m, hm⟩ := hbx
  obtain ⟨n, hn⟩ := hab
  exact ⟨m + n, climb_trans hm hn⟩

theorem Ancestor.of_parent (h : parent x = some y) : Ancestor parent y x :=
  ⟨1, by rw [climb_one, h]⟩

theorem Ancestor.up (h : parent x = some y) (ha : Ancestor parent a y) : Ancestor parent a x :=
  ha.trans (Ancestor.of_parent h)

/-- An ancestor of `x` is `x`, or an ancestor of its parent. -/
theorem Ancestor.eq_or_parent (h : Ancestor parent a x) :
    a = x ∨ ∃ y, parent x = some y ∧ Ancestor parent a y := by
  obtain ⟨n, hn⟩ := h
  cases n with
  | zero => exact .inl (Option.some.inj hn).symm
  | succ n =>
    rw [climb_succ, bind_eq_some_iff] at hn
    obtain ⟨y, hy, hn⟩ := hn
    exact .inr ⟨y, hy, n, hn⟩

theorem Ancestor.eq_of_parent_eq_none (h : Ancestor parent a x) (hx : parent x = none) : a = x := by
  obtain heq | ⟨y, hy, -⟩ := h.eq_or_parent
  · exact heq
  · rw [hx] at hy
    cases hy

/-- A proper ancestor is an ancestor of the parent. -/
theorem Ancestor.to_parent (h : Ancestor parent a x) (hne : a ≠ x) (hy : parent x = some y) :
    Ancestor parent a y := by
  obtain heq | ⟨y', hy', ha⟩ := h.eq_or_parent
  · exact absurd heq hne
  · rw [hy] at hy'
    cases hy'
    exact ha

/-- Two ancestors of one element are ancestors of each other, one way or the other. -/
theorem Ancestor.total (ha : Ancestor parent a x) (hb : Ancestor parent b x) :
    Ancestor parent a b ∨ Ancestor parent b a := by
  obtain ⟨m, hm⟩ := ha
  obtain ⟨n, hn⟩ := hb
  obtain hle | hle := Nat.le_total m n
  · obtain ⟨y, hy, hyb⟩ := exists_climb_of_le hn hle
    rw [hm] at hy
    cases hy
    exact .inr ⟨_, hyb⟩
  · obtain ⟨y, hy, hya⟩ := exists_climb_of_le hm hle
    rw [hn] at hy
    cases hy
    exact .inl ⟨_, hya⟩

/-- What the parent function keeps holds of every ancestor. -/
theorem Ancestor.closed {P : α → Prop} (hclosed : ∀ x y, P x → parent x = some y → P y)
    (h : Ancestor parent a x) (hx : P x) : P a := by
  obtain ⟨n, hn⟩ := h
  induction n generalizing x with
  | zero =>
    cases hn
    exact hx
  | succ n ih =>
    rw [climb_succ, bind_eq_some_iff] at hn
    obtain ⟨y, hy, hn⟩ := hn
    exact ih (hclosed x y hx hy) hn

/-- A proper ancestor is reached through a child of its own. -/
theorem Ancestor.exists_child (h : Ancestor parent a x) (hne : a ≠ x) :
    ∃ c, parent c = some a ∧ Ancestor parent c x := by
  obtain ⟨n, hn⟩ := h
  induction n generalizing x with
  | zero =>
    cases hn
    exact absurd rfl hne
  | succ n ih =>
    rw [climb_succ, bind_eq_some_iff] at hn
    obtain ⟨y, hy, hn⟩ := hn
    by_cases hay : a = y
    · rw [hay]
      exact ⟨x, hy, .refl x⟩
    · obtain ⟨c, hc, hcy⟩ := ih hay hn
      exact ⟨c, hc, hcy.up hy⟩

/-- `a` is a lowest common ancestor of `x` and `y`. -/
structure IsMeet (parent : α → Option α) (a x y : α) : Prop where
  left : Ancestor parent a x
  right : Ancestor parent a y
  lowest : ∀ b, Ancestor parent b x → Ancestor parent b y → Ancestor parent b a

theorem IsMeet.self (x : α) : IsMeet parent x x x := ⟨.refl x, .refl x, fun _ h _ => h⟩

theorem IsMeet.symm (h : IsMeet parent a x y) : IsMeet parent a y x :=
  ⟨h.right, h.left, fun b hy hx => h.lowest b hx hy⟩

/-- Leaving `y` for its parent loses no common ancestor, unless `y` is above `x`. -/
theorem IsMeet.of_parent {y' : α} (h : IsMeet parent a x y') (hy : parent y = some y')
    (hnot : ¬ Ancestor parent y x) : IsMeet parent a x y := by
  refine ⟨h.left, h.right.up hy, fun b hbx hby => ?_⟩
  have hne : b ≠ y := by
    rintro rfl
    exact hnot hbx
  exact h.lowest b hbx (hby.to_parent hne hy)

/-- A quantity that falls from every element to its parent. -/
def Falling {β : Type} [LT β] (parent : α → Option α) (P : α → Prop) (time : α → β) : Prop :=
  ∀ x y, P x → parent x = some y → time y < time x

section Falling

variable {β : Type} [Preorder β] {P : α → Prop} {time : α → β} (hfall : Falling parent P time)
  (hclosed : ∀ x y, P x → parent x = some y → P y)

include hfall hclosed

/-- Along proper ancestors it falls too. -/
theorem Falling.lt_of_ancestor (h : Ancestor parent a x) (hx : P x) (hne : a ≠ x) :
    time a < time x := by
  obtain ⟨n, hn⟩ := h
  induction n generalizing x with
  | zero =>
    cases hn
    exact absurd rfl hne
  | succ n ih =>
    rw [climb_succ, bind_eq_some_iff] at hn
    obtain ⟨y, hy, hn⟩ := hn
    have hlt := hfall x y hx hy
    by_cases hay : a = y
    · rw [hay]
      exact hlt
    · exact (ih (hclosed x y hx hy) hay hn).trans hlt

/-- Nothing is its own proper ancestor. -/
theorem Falling.antisymm (hax : Ancestor parent a x) (hxa : Ancestor parent x a) (hx : P x) :
    a = x := by
  by_contra hne
  have hlt := hfall.lt_of_ancestor hclosed hax hx hne
  have hlt' := hfall.lt_of_ancestor hclosed hxa (hax.closed hclosed hx) (Ne.symm hne)
  exact lt_asymm hlt hlt'

/-- Lowest common ancestors are unique. -/
theorem IsMeet.unique (ha : IsMeet parent a x y) (hb : IsMeet parent b x y) (hx : P x) : a = b :=
  hfall.antisymm hclosed (hb.lowest a ha.left ha.right) (ha.lowest b hb.left hb.right)
    (hb.left.closed hclosed hx)

end Falling

/-- A rank that is one more than the parent's. -/
def Ranked (parent : α → Option α) (P : α → Prop) (rank : α → Nat) : Prop :=
  ∀ x y, P x → parent x = some y → rank x = rank y + 1

section Ranked

variable {P : α → Prop} {rank : α → Nat}

/-- The rank counts the steps. -/
theorem Ranked.climb (hrank : Ranked parent P rank) (hclosed : ∀ x y, P x → parent x = some y → P y)
    (h : climb parent n x = some a) (hx : P x) : rank x = rank a + n := by
  induction n generalizing x with
  | zero =>
    cases h
    rfl
  | succ n ih =>
    rw [climb_succ, bind_eq_some_iff] at h
    obtain ⟨y, hy, h⟩ := h
    have hxy := hrank x y hx hy
    have hya := ih h (hclosed x y hx hy)
    omega

/-- An ancestor is found at the distance its rank gives. -/
theorem Ranked.climb_sub (hrank : Ranked parent P rank)
    (hclosed : ∀ x y, P x → parent x = some y → P y) (h : Ancestor parent a x) (hx : P x) :
    rank a ≤ rank x ∧ Ancestry.climb parent (rank x - rank a) x = some a := by
  obtain ⟨n, hn⟩ := h
  have hsum := hrank.climb hclosed hn hx
  have heq : rank x - rank a = n := by omega
  exact ⟨by omega, by rw [heq, hn]⟩

end Ranked

/-- `l` is the way from `a`, left out, to `x`. -/
def IsPath (parent : α → Option α) (a : α) (l : List α) (x : α) : Prop :=
  (a :: l).IsChain (fun u v => parent v = some u) ∧ (a :: l).getLast? = some x

theorem IsPath.nil (x : α) : IsPath parent x [] x := ⟨.singleton x, rfl⟩

theorem isPath_nil_iff : IsPath parent a [] x ↔ a = x := by
  constructor
  · rintro ⟨-, h⟩
    simpa using h
  · rintro rfl
    exact .nil a

variable {l : List α}

theorem isPath_cons_iff {c : α} :
    IsPath parent a (c :: l) x ↔ parent c = some a ∧ IsPath parent c l x := by
  unfold IsPath
  rw [isChain_cons_cons, getLast?_cons_cons, and_assoc]

/-- Paths are put together. -/
theorem IsPath.append {l' : List α} (h : IsPath parent a l b) (h' : IsPath parent b l' x) :
    IsPath parent a (l ++ l') x := by
  induction l generalizing a with
  | nil =>
    rw [isPath_nil_iff] at h
    rw [h]
    exact h'
  | cons c l ih =>
    rw [isPath_cons_iff] at h
    exact isPath_cons_iff.mpr ⟨h.1, ih h.2⟩

/-- A path begins at an ancestor. -/
theorem IsPath.ancestor (h : IsPath parent a l x) : Ancestor parent a x := by
  induction l generalizing a with
  | nil =>
    rw [isPath_nil_iff] at h
    rw [h]
    exact .refl x
  | cons c l ih =>
    rw [isPath_cons_iff] at h
    exact (Ancestor.of_parent h.1).trans (ih h.2)

/-- Whatever lies on a path is between its ends, and below its lower end. -/
theorem IsPath.mem (h : IsPath parent a l x) (hy : y ∈ l) :
    Ancestor parent y x ∧ ∃ z, parent y = some z ∧ Ancestor parent a z := by
  induction l generalizing a with
  | nil => cases hy
  | cons c l ih =>
    rw [isPath_cons_iff] at h
    obtain ⟨hc, hl⟩ := h
    cases hy with
    | head => exact ⟨hl.ancestor, a, hc, .refl a⟩
    | tail _ hy =>
      obtain ⟨hyx, z, hz, hcz⟩ := ih hl hy
      exact ⟨hyx, z, hz, (Ancestor.of_parent hc).trans hcz⟩

/-- What is above the lower end of a path, and at most its upper end, is on it. -/
theorem IsPath.mem_or_ancestor (h : IsPath parent a l x) (hy : Ancestor parent y x) :
    y ∈ l ∨ Ancestor parent y a := by
  induction l generalizing a with
  | nil =>
    rw [isPath_nil_iff] at h
    rw [h]
    exact .inr hy
  | cons c l ih =>
    rw [isPath_cons_iff] at h
    obtain ⟨hc, hl⟩ := h
    obtain hmem | hyc := ih hl
    · exact .inl (mem_cons_of_mem c hmem)
    · by_cases heq : y = c
      · rw [heq]
        exact .inl mem_cons_self
      · exact .inr (hyc.to_parent heq hc)

theorem IsPath.cons_of_parent {c : α} (hc : parent c = some a) (h : IsPath parent c l x) :
    IsPath parent a (c :: l) x :=
  isPath_cons_iff.mpr ⟨hc, h⟩

end Ancestry
