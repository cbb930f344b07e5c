import Mathlib.Data.Int.Bitwise
import Mathlib.Data.String.Basic

/-! Integers as strings, as the runtime of OCaml writes and reads them. -/

namespace IntOfString

open Nat (toDigits ofDigitChars)

/-- The format `%d` -/
def format_int (n : ℤ) : String :=
  if n < 0 then String.ofList ('-' :: toDigits 10 n.natAbs) else String.ofList (toDigits 10 n.natAbs)

def parse_digit (c : Char) : Option ℕ :=
  if '0' ≤ c ∧ c ≤ '9' then some (c.toNat - '0'.toNat)
  else if 'A' ≤ c ∧ c ≤ 'F' then some (c.toNat - 'A'.toNat + 10)
  else if 'a' ≤ c ∧ c ≤ 'f' then some (c.toNat - 'a'.toNat + 10)
  else none

/-- Whether the number is negative, and the rest -/
def parse_sign : List Char → Bool × List Char
  | '-' :: l => (true, l)
  | '+' :: l => (false, l)
  | l => (false, l)

/-- The base, whether the number is read as a signed one, and the rest -/
def parse_base : List Char → ℕ × Bool × List Char
  | '0' :: c :: l =>
    if c = 'x' ∨ c = 'X' then (16, false, l)
    else if c = 'o' ∨ c = 'O' then (8, false, l)
    else if c = 'b' ∨ c = 'B' then (2, false, l)
    else if c = 'u' ∨ c = 'U' then (10, false, l)
    else (10, true, '0' :: c :: l)
  | l => (10, true, l)

/-- The digits after the first one. The runtime stops when a word overflows;
such numbers are out of range in the end. -/
def parse_digits (base : ℕ) : List Char → ℕ → Option ℕ
  | [], res => some res
  | c :: l, res =>
    if c = '_' then parse_digits base l res
    else
      match parse_digit c with
      | some d => if d < base then parse_digits base l (base * res + d) else none
      | none => none

def parse_nat (base : ℕ) : List Char → Option ℕ
  | [] => none
  | c :: l =>
    match parse_digit c with
    | some d => if d < base then parse_digits base l d else none
    | none => none

/-- Integers of any size -/
def parse_int (s : String) : Option ℤ :=
  let (negative, l) := parse_sign s.toList
  let (base, _, l) := parse_base l
  (parse_nat base l).map fun res : ℕ => if negative then -(res : ℤ) else res

/-- Integers of a number of bits. In another base than ten, and after `0u`, the
digits are those of an unsigned integer. -/
def parse_intnat (nbits : ℕ) (s : String) : Option ℤ :=
  let (negative, l) := parse_sign s.toList
  let (base, signedness, l) := parse_base l
  match parse_nat base l with
  | none => none
  | some res =>
    let bound := if ¬ signedness then 2 ^ nbits - 1 else
      if negative then 2 ^ (nbits - 1) else 2 ^ (nbits - 1) - 1
    if res ≤ bound then some (if negative then -res else res) else none

section Digits

variable {l : List Char} (h : ∀ c ∈ l, c.isDigit)

/-- A decimal digit is read as its value. -/
theorem parse_digit_isDigit {c : Char} (h : c.isDigit) :
    parse_digit c = some (c.toNat - '0'.toNat) ∧ c.toNat - '0'.toNat < 10 := by
  have hc : 48 ≤ c.toNat ∧ c.toNat ≤ 57 := Char.isDigit_iff_toNat.mp h
  have hzero : '0'.toNat = 48 := rfl
  refine ⟨if_pos hc, ?_⟩
  omega

include h

theorem parse_sign_digits : parse_sign l = (false, l) := by
  cases l with
  | nil => rfl
  | cons c l =>
    have hc : c.isDigit := h c List.mem_cons_self
    unfold parse_sign
    split
    · next heq =>
      cases heq
      cases hc
    · next heq =>
      cases heq
      cases hc
    · rfl

theorem parse_base_digits : parse_base l = (10, true, l) := by
  unfold parse_base
  split
  · next c l =>
    have hc : c.isDigit := h c (by simp)
    have hne (d : Char) (hd : d.isDigit = false) : c ≠ d := by
      rintro rfl
      rw [hc] at hd
      cases hd
    simp [hne]
  · rfl

/-- Decimal digits are read one after the other. -/
theorem parse_digits_digits (res : ℕ) : parse_digits 10 l res = some (ofDigitChars 10 l res) := by
  induction l generalizing res with
  | nil => rfl
  | cons c l ih =>
    have hc : c.isDigit := h c List.mem_cons_self
    have hne : c ≠ '_' := by
      rintro rfl
      cases hc
    obtain ⟨hdigit, hlt⟩ := parse_digit_isDigit hc
    simp only [parse_digits, hne, if_false, hdigit, hlt, if_true]
    rw [ih fun c hc => h c (List.mem_cons_of_mem _ hc), Nat.ofDigitChars_cons]

end Digits

/-- What is written for a natural is read as it was, with no sign and in base
ten. -/
theorem parse_nat_toDigits (n : ℕ) :
    parse_sign (toDigits 10 n) = (false, toDigits 10 n) ∧
      parse_base (toDigits 10 n) = (10, true, toDigits 10 n) ∧
      parse_nat 10 (toDigits 10 n) = some n := by
  have hdigits c (hc : c ∈ toDigits 10 n) : c.isDigit :=
    Nat.isDigit_of_mem_toDigits (by omega) le_rfl hc
  refine ⟨parse_sign_digits hdigits, parse_base_digits hdigits, ?_⟩
  have hvalue : ofDigitChars 10 (toDigits 10 n) 0 = n := Nat.ofDigitChars_ten_toDigits
  cases hl : toDigits 10 n with
  | nil => exact absurd hl Nat.toDigits_ne_nil
  | cons c l =>
    rw [hl] at hdigits hvalue
    obtain ⟨hdigit, hlt⟩ := parse_digit_isDigit (hdigits c List.mem_cons_self)
    simp only [parse_nat, hdigit, hlt, if_true]
    rw [parse_digits_digits fun c hc => hdigits c (List.mem_cons_of_mem _ hc), ← hvalue,
      Nat.ofDigitChars_cons, mul_zero, zero_add]

variable {n : ℤ}

/-- What is written for an integer is read as a sign and its digits in base
ten. -/
theorem parse_format_int (n : ℤ) :
    parse_sign (format_int n).toList = (decide (n < 0), toDigits 10 n.natAbs) := by
  rw [format_int]
  split
  · next h =>
    rw [String.toList_ofList, decide_eq_true h]
    rfl
  · next h =>
    rw [String.toList_ofList, decide_eq_false h, (parse_nat_toDigits _).1]

theorem sign_natAbs (n : ℤ) : (if decide (n < 0) then -(n.natAbs : ℤ) else n.natAbs) = n := by
  simp only [decide_eq_true_eq]
  split <;> omega

/-- An integer is read back from its decimal digits. -/
@[simp] theorem parse_int_format_int (n : ℤ) : parse_int (format_int n) = some n := by
  obtain ⟨-, hbase, hnat⟩ := parse_nat_toDigits n.natAbs
  simp only [parse_int, parse_format_int, hbase, hnat, Option.map_some, sign_natAbs]

/-- An integer of `nbits` bits is read back from its decimal digits. -/
theorem parse_intnat_format_int (nbits : ℕ) (hlow : -2 ^ (nbits - 1) ≤ n)
    (hhigh : n < 2 ^ (nbits - 1)) : parse_intnat nbits (format_int n) = some n := by
  obtain ⟨-, hbase, hnat⟩ := parse_nat_toDigits n.natAbs
  simp only [parse_intnat, parse_format_int, hbase, hnat, sign_natAbs]
  have hbound : n.natAbs ≤ if decide (n < 0) then 2 ^ (nbits - 1) else 2 ^ (nbits - 1) - 1 := by
    have hcast : (2 : ℤ) ^ (nbits - 1) = (2 ^ (nbits - 1) : ℕ) := by
      push_cast
      rfl
    rw [hcast] at hlow hhigh
    simp only [decide_eq_true_eq]
    split <;> omega
  simpa using hbound

end IntOfString
