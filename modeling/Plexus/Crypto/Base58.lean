import Mathlib.Data.List.FinRange
import Plexus.Lib.Digits

/-! Base 58: strings of digits and strings of bytes. -/

namespace plexus.base58

open List Digits

/-- A character of a string is a byte. -/
abbrev Byte := Fin 256

/-- An alphabet has 58 characters. -/
structure Alphabet where
  encode : Fin 58 → Byte
  decode : Byte → Byte

/-- A round of the loop that fills the table of `decode`. -/
def Alphabet.make_round (alphabet : Fin 58 → Byte) (str : Byte → Byte) (i : Fin 58) :
    Option (Byte → Byte) :=
  if str (alphabet i) ≠ 255 then none
  else some (Function.update str (alphabet i) (Fin.ofNat 256 i))

def Alphabet.make (alphabet : Fin 58 → Byte) : Option Alphabet := do
  let str ← (finRange 58).foldlM (make_round alphabet) fun _ => 255
  pure ⟨alphabet, str⟩

def count_leading_char : List Byte → Byte → ℕ
  | [], _ => 0
  | x :: s, c => if x ≠ c then 0 else count_leading_char s c + 1

def count_trailing_char (s : List Byte) (c : Byte) : ℕ := count_leading_char s.reverse c

/-- Zarith's `of_bits`: the lowest byte comes first. -/
def of_bits (s : List Byte) : ℕ := Nat.ofDigits 256 (s.map Fin.val)

/-- Zarith's `to_bits`: whole words of eight bytes. -/
def to_bits (z : ℕ) : List Byte :=
  let s := (Nat.digits 256 z).map (Fin.ofNat 256)
  s ++ replicate ((8 - s.length % 8) % 8) 0

variable (alphabet : Alphabet)

def of_char (x : Byte) : Option ℕ :=
  let pos := alphabet.decode x
  if pos = 255 then none else some pos

def to_char (x : ℕ) : Byte := alphabet.encode (Fin.ofNat 58 x)

/-- The characters are written from the end of `res`, where `i` places are
left. There is an exception when none is left. -/
def raw_encode.loop : ℕ → ℕ → List Byte → Option (ℕ × List Byte)
  | s, 0, res => if s = 0 then some (0, res) else none
  | s, i + 1, res =>
    if s = 0 then some (i + 1, res)
    else loop (s / 58) i (res.set i (to_char alphabet (s % 58)))

def raw_encode (s : List Byte) : Option (List Byte) := do
  let len := s.length
  let s := s.reverse
  let zero := alphabet.encode 0
  let zeros := count_trailing_char s 0
  let res_len := (len * 8 + 4) / 5
  let res := replicate res_len 0
  let (i, res) ← raw_encode.loop alphabet (of_bits s) res_len res
  pure (replicate zeros zero ++ res.drop i)

/-- A round of the loop that reads the digits. -/
def decode_round (a : ℕ) (c : Byte) : Option ℕ := (of_char alphabet c).map fun i => i + a * 58

def raw_decode (s : List Byte) : Option (List Byte) := do
  let res ← s.foldlM (decode_round alphabet) 0
  let res := to_bits res
  let res_tzeros := count_trailing_char res 0
  let len := res.length - res_tzeros
  let zeros := count_leading_char s (alphabet.encode 0)
  pure (replicate zeros 0 ++ (res.take len).reverse)

theorem count_leading_char_replicate {c : Byte} {s : List Byte} (hs : s.head? ≠ some c) (z : ℕ) :
    count_leading_char (replicate z c ++ s) c = z := by
  induction z with
  | zero =>
    cases s with
    | nil => rfl
    | cons x s => exact if_pos (by simpa using hs)
  | succ z ih => simp [replicate_succ, count_leading_char, ih]

theorem of_bits_reverse (s : List Byte) : of_bits s.reverse = number s := by
  rw [of_bits, number, map_reverse]

theorem to_bits_stripped (n : ℕ) :
    ((to_bits n).take ((to_bits n).length - count_trailing_char (to_bits n) 0)).reverse =
      digits 256 n := by
  have hhead := head?_digits (b := 256) (by decide) n
  unfold digits at hhead ⊢
  rw [count_trailing_char, to_bits, reverse_append, reverse_replicate,
    count_leading_char_replicate hhead]
  simp

/-! Encoding. -/

theorem loop_spec {s i : ℕ} (hs : s < 58 ^ i) {res : List Byte} (hi : i ≤ res.length) :
    ∃ i' res', raw_encode.loop alphabet s i res = some (i', res') ∧
      res'.drop i' = (digits 58 s).map alphabet.encode ++ res.drop i := by
  induction i generalizing s res with
  | zero =>
    obtain rfl : s = 0 := by simpa using hs
    exact ⟨0, res, rfl, by simp [digits]⟩
  | succ i ih =>
    rw [raw_encode.loop]
    split
    · next h =>
      subst h
      exact ⟨i + 1, res, rfl, by simp [digits]⟩
    · next h =>
      have hset : (res.set i (to_char alphabet (s % 58))).drop i =
          to_char alphabet (s % 58) :: res.drop (i + 1) := by
        rw [drop_eq_getElem_cons (by simpa using hi), getElem_set_self, drop_set]
        simp
      have hlt : s / 58 < 58 ^ i := Nat.div_lt_of_lt_mul (by rwa [pow_succ'] at hs)
      have hlength : i ≤ (res.set i (to_char alphabet (s % 58))).length := by
        rw [length_set]
        omega
      obtain ⟨i', res', hloop, hdrop⟩ := ih hlt hlength
      refine ⟨i', res', hloop, ?_⟩
      rw [hdrop, hset, digits, digits, Nat.digits_def' (by decide) (Nat.pos_of_ne_zero h)]
      simp [to_char]

theorem number_lt (s : List Byte) : number s < 58 ^ ((s.length * 8 + 4) / 5) := by
  have hlt := Nat.ofDigits_lt_base_pow_length (b := 256) (l := (s.map Fin.val).reverse) (by decide)
    (by simp)
  rw [length_reverse, length_map] at hlt
  calc number s < (2 ^ 8) ^ s.length := hlt
    _ = 2 ^ (8 * s.length) := (pow_mul _ _ _).symm
    _ ≤ 2 ^ (5 * ((s.length * 8 + 4) / 5)) := Nat.pow_le_pow_right (by decide) (by omega)
    _ = (2 ^ 5) ^ ((s.length * 8 + 4) / 5) := pow_mul _ _ _
    _ ≤ 58 ^ ((s.length * 8 + 4) / 5) := Nat.pow_le_pow_left (by decide) _

section

variable {alphabet} {z : ℕ} {l : List (Fin 58)}

theorem raw_encode_eq {s : List Byte} (hs : s.head? ≠ some 0) :
    raw_encode alphabet (replicate z 0 ++ s) =
      some ((replicate z 0 ++ digits 58 (number s)).map alphabet.encode) := by
  obtain ⟨i, res, hloop, hdrop⟩ := loop_spec alphabet (number_lt (replicate z 0 ++ s))
    (length_replicate (a := (0 : Byte))).ge
  rw [raw_encode, of_bits_reverse, hloop, count_trailing_char, reverse_reverse,
    count_leading_char_replicate hs]
  simp [hdrop, number_replicate]

/-! Decoding. -/

/-- Different characters, and the table that reads them. -/
structure Alphabet.Lawful (alphabet : Alphabet) : Prop where
  injective : alphabet.encode.Injective
  decode_encode : ∀ i, alphabet.decode (alphabet.encode i) = Fin.ofNat 256 i
  decode_other : ∀ c, (∀ i, alphabet.encode i ≠ c) → alphabet.decode c = 255

theorem Alphabet.fold_make_round {a : Fin 58 → Byte} (ha : a.Injective)
    (hl : l.Nodup) (str : Byte → Byte) (hstr : ∀ i ∈ l, str (a i) = 255) :
    ∃ str', l.foldlM (make_round a) str = some str' ∧ (∀ i ∈ l, str' (a i) = Fin.ofNat 256 i) ∧
      ∀ c, (∀ i ∈ l, a i ≠ c) → str' c = str c := by
  induction l generalizing str with
  | nil => exact ⟨str, rfl, by simp, fun _ _ => rfl⟩
  | cons i l ih =>
    obtain ⟨hi, hl⟩ := nodup_cons.mp hl
    have hne : ∀ j ∈ l, a j ≠ a i := fun j hj heq => hi (ha heq ▸ hj)
    obtain ⟨str', hfold, hin, hout⟩ := ih hl (Function.update str (a i) (Fin.ofNat 256 i))
      fun j hj => by rw [Function.update_of_ne (hne j hj), hstr j (mem_cons_of_mem i hj)]
    refine ⟨str', ?_, ?_, ?_⟩
    · rw [foldlM_cons, make_round, if_neg (not_not.mpr (hstr i mem_cons_self))]
      exact hfold
    · refine forall_mem_cons.mpr ⟨?_, hin⟩
      rw [hout _ hne, Function.update_self]
    · intro c hc
      rw [forall_mem_cons] at hc
      rw [hout c hc.2, Function.update_of_ne (Ne.symm hc.1)]

theorem Alphabet.make_lawful {a : Fin 58 → Byte} (ha : a.Injective) :
    ∃ alphabet, make a = some alphabet ∧ alphabet.encode = a ∧ alphabet.Lawful := by
  obtain ⟨str, hfold, hin, hout⟩ := fold_make_round ha (nodup_finRange 58) (fun _ => 255)
    fun _ _ => rfl
  refine ⟨⟨a, str⟩, ?_, rfl, ha, fun i => hin i (mem_finRange i), ?_⟩
  · rw [make, hfold]
    rfl
  · exact fun c hc => hout c fun i _ => hc i

variable (halphabet : alphabet.Lawful)

include halphabet

theorem of_char_encode (i : Fin 58) : of_char alphabet (alphabet.encode i) = some i.val := by
  rw [of_char, halphabet.decode_encode]
  revert i
  decide

theorem Alphabet.head?_encode (hl : l.head? ≠ some 0) :
    (l.map alphabet.encode).head? ≠ some (alphabet.encode 0) := by
  rw [head?_map]
  intro h
  obtain ⟨i, hi, heq⟩ := Option.map_eq_some_iff.mp h
  exact hl (halphabet.injective heq ▸ hi)

theorem fold_decode_round (l : List (Fin 58)) :
    (l.map alphabet.encode).foldlM (decode_round alphabet) 0 = some (number l) := by
  induction l using reverseRecOn with
  | nil => rfl
  | append_singleton l i ih =>
    rw [map_append, foldlM_append, ih]
    simp [decode_round, of_char_encode halphabet, number, Nat.ofDigits_cons, mul_comm]

theorem raw_decode_eq (hl : l.head? ≠ some 0) :
    raw_decode alphabet ((replicate z 0 ++ l).map alphabet.encode) =
      some (replicate z 0 ++ digits 256 (number l)) := by
  have hhead := Alphabet.head?_encode halphabet hl
  rw [raw_decode, fold_decode_round halphabet, number_replicate, map_append, map_replicate,
    count_leading_char_replicate hhead]
  exact congrArg (fun s => some (replicate z 0 ++ s)) (to_bits_stripped _)

theorem raw_decode_eq_none {s : List Byte} {c : Byte} (hc : c ∈ s)
    (hother : ∀ i, alphabet.encode i ≠ c) : raw_decode alphabet s = none := by
  have hround (a : ℕ) : decode_round alphabet a c = none := by
    simp [decode_round, of_char, halphabet.decode_other c hother]
  obtain ⟨s1, s2, rfl⟩ := append_of_mem hc
  rw [raw_decode, foldlM_append]
  cases s1.foldlM (decode_round alphabet) 0 with
  | none => rfl
  | some a => simp [hround]

end

/-- Encoding and decoding are inverse to each other, with as many leading zeros
on one side as on the other. -/
theorem base58_bijective {a : Fin 58 → Byte} (ha : a.Injective) :
    ∃ alphabet, Alphabet.make a = some alphabet ∧
      (∀ b, ∃ s, raw_encode alphabet b = some s ∧ raw_decode alphabet s = some b ∧
        count_leading_char s (a 0) = count_leading_char b 0) ∧
      (∀ s, (∀ c ∈ s, ∃ i, a i = c) →
        ∃ b, raw_decode alphabet s = some b ∧ raw_encode alphabet b = some s) ∧
      ∀ s, (∃ c ∈ s, ∀ i, a i ≠ c) → raw_decode alphabet s = none := by
  obtain ⟨alphabet, hmake, rfl, halphabet⟩ := Alphabet.make_lawful ha
  refine ⟨alphabet, hmake, ?_, ?_, ?_⟩
  · intro b
    obtain ⟨z, b, rfl, hb⟩ := exists_leading 0 b
    have hdigits := head?_digits (b := 58) (by decide) (number b)
    refine ⟨_, raw_encode_eq hb, ?_, ?_⟩
    · rw [raw_decode_eq halphabet hdigits, number_digits (by decide), digits_number (by decide) hb]
    · rw [map_append, map_replicate, count_leading_char_replicate hb,
        count_leading_char_replicate (Alphabet.head?_encode halphabet hdigits)]
  · intro s hs
    have hrange : s ∈ Set.range (map alphabet.encode) := by
      rw [Set.range_list_map]
      exact hs
    obtain ⟨l, rfl⟩ := hrange
    obtain ⟨z, l, rfl, hl⟩ := exists_leading 0 l
    refine ⟨_, raw_decode_eq halphabet hl, ?_⟩
    rw [raw_encode_eq (head?_digits (by decide) _), number_digits (by decide),
      digits_number (by decide) hl]
  · rintro s ⟨c, hc, hother⟩
    exact raw_decode_eq_none halphabet hc hother

theorem base58_bijective_first_characters :
    ∃ alphabet, Alphabet.make (fun i => Fin.ofNat 256 i) = some alphabet ∧
      raw_decode alphabet [3, 58] = none := by
  have ha : (fun i : Fin 58 => Fin.ofNat 256 i).Injective := by decide
  obtain ⟨alphabet, hmake, -, -, hnone⟩ := base58_bijective ha
  exact ⟨alphabet, hmake, hnone _ ⟨58, by simp, by decide⟩⟩

end plexus.base58
