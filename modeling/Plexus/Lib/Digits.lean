import Mathlib.Data.Nat.Digits.Lemmas

/-! Numbers as strings of digits, the highest first. -/

namespace Digits

open List

/-- A string is a run of a character and a rest that does not start with it. -/
theorem exists_leading {α : Type} [DecidableEq α] (c : α) (s : List α) :
    ∃ z s', s = replicate z c ++ s' ∧ s'.head? ≠ some c := by
  induction s with
  | nil => exact ⟨0, [], rfl, by simp⟩
  | cons x s ih =>
    by_cases hx : x = c
    · obtain ⟨z, s', rfl, hs'⟩ := ih
      exact ⟨z + 1, s', by rw [hx]; rfl, hs'⟩
    · exact ⟨0, x :: s, rfl, by simpa using hx⟩

variable {b : ℕ} [NeZero b]

/-- The digits of a number, with no leading zero. -/
def digits (b n : ℕ) [NeZero b] : List (Fin b) := ((Nat.digits b n).map (Fin.ofNat b)).reverse

def number (l : List (Fin b)) : ℕ := Nat.ofDigits b (l.map Fin.val).reverse

theorem number_replicate (z : ℕ) (l : List (Fin b)) : number (replicate z 0 ++ l) = number l := by
  simp [number, Nat.ofDigits_append_replicate_zero]

variable (hb : 1 < b)

include hb

theorem val_digits (n : ℕ) : (digits b n).map Fin.val = (Nat.digits b n).reverse := by
  rw [digits, map_reverse, map_map, map_congr_left (g := id) ?_, map_id]
  exact fun d hd => Nat.mod_eq_of_lt (Nat.digits_lt_base hb hd)

theorem number_digits (n : ℕ) : number (digits b n) = n := by
  rw [number, val_digits hb, reverse_reverse, Nat.ofDigits_digits]

theorem digits_number {l : List (Fin b)} (hl : l.head? ≠ some 0) : digits b (number l) = l := by
  rw [digits, number, Nat.digits_ofDigits b hb]
  · simp [Function.comp_def]
  · simp
  · intro hne heq
    rw [getLast_reverse] at heq
    have hzero : (l.map Fin.val).head? = some 0 := by
      rw [head?_eq_some_head (by simpa using hne), heq]
    rw [head?_map, Option.map_eq_some_iff] at hzero
    obtain ⟨i, hi, hval⟩ := hzero
    rw [hi, Fin.val_eq_zero_iff.mp hval] at hl
    exact hl rfl

theorem head?_digits (n : ℕ) : (digits b n).head? ≠ some 0 := by
  intro h
  have hzero : ((digits b n).map Fin.val).head? = some 0 := by
    rw [head?_map, h]
    rfl
  rw [val_digits hb, head?_reverse] at hzero
  rcases Nat.eq_zero_or_pos n with rfl | hn
  · simp at hzero
  · rw [getLast?_eq_some_getLast (Nat.digits_ne_nil_iff_ne_zero.mpr hn.ne'),
      Option.some.injEq] at hzero
    exact Nat.getLast_digit_ne_zero b hn.ne' hzero

end Digits
