import Mathlib.Data.List.Shortlex
import Plexus.Lib.DataEncoding
import Plexus.Main
import Plexus.Shell.ChainValidator

/-! The order of fitnesses (`fitness.ml`, `fitness_repr.ml`). -/

namespace plexus.fitness

open List state fitness_repr Data_encoding

/-- The bytes from a position on. The second string is read out of bounds where
it ends before the first. -/
def compare_byte : state.Bytes → state.Bytes → Option Ordering
  | [], _ => some .eq
  | x :: b1, y :: b2 =>
    let c := Ord.compare x y
    if c = .eq then compare_byte b1 b2 else some c
  | _ :: _, [] => none

def compare_bytes (b1 b2 : state.Bytes) : Option Ordering :=
  let c := Ord.compare b1.length b2.length
  if c = .eq then compare_byte b1 b2 else some c

/-- Lists of different lengths fail the assertion. -/
def compare_rec : Fitness → Fitness → Option Ordering
  | [], [] => some .eq
  | i1 :: f1, i2 :: f2 => do
    let i ← compare_bytes i1 i2
    if i = .eq then compare_rec f1 f2 else some i
  | _, _ => none

def compare (f1 f2 : Fitness) : Option Ordering :=
  let len := Ord.compare f1.length f2.length
  if len = .eq then compare_rec f1 f2 else some len

section

variable {α : Type} {cmp : α → α → Ordering}

/-- Both loops are lexicographic on lists of the same length. -/
theorem compare_lists_eq {loop : List α → List α → Option Ordering}
    (hnil : loop [] [] = some .eq)
    (hcons : ∀ x y l l', loop (x :: l) (y :: l') =
      if cmp x y = .eq then loop l l' else some (cmp x y)) (l l' : List α) :
    (if Ord.compare l.length l'.length = .eq then loop l l'
      else some (Ord.compare l.length l'.length)) =
      some ((Ord.compare l.length l'.length).then (List.compareLex cmp l l')) := by
  have hloop : ∀ l l', l.length = l'.length → loop l l' = some (List.compareLex cmp l l') := by
    intro l
    induction l with
    | nil =>
      intro l' hlength
      obtain rfl := length_eq_zero_iff.mp hlength.symm
      exact hnil
    | cons x l ih =>
      intro l' hlength
      obtain ⟨y, l', rfl⟩ := exists_cons_of_length_eq_add_one hlength.symm
      rw [hcons, ih l' (Nat.succ.inj hlength), List.compareLex]
      cases cmp x y <;> rfl
  cases hlen : Ord.compare l.length l'.length with
  | eq => exact hloop l l' (Nat.compare_eq_eq.mp hlen)
  | lt | gt => rfl

variable [Std.LawfulEqCmp cmp]

theorem compare_lists_lawful {l l' : List α}
    (h : (Ord.compare l.length l'.length).then (List.compareLex cmp l l') = .eq) : l = l' :=
  Std.LawfulEqCmp.eq_of_compare (Ordering.then_eq_eq.mp h).2

theorem compare_lists_eq_lt_iff {r : α → α → Prop} (hr : ∀ x y, cmp x y = .lt ↔ r x y)
    (l l' : List α) :
    (Ord.compare l.length l'.length).then (List.compareLex cmp l l') = .lt ↔ Shortlex r l l' := by
  have hlex : List.compareLex cmp l l' = .lt ↔ Lex r l l' := by
    induction l generalizing l' with
    | nil => cases l' <;> simp [List.compareLex]
    | cons x l ih =>
      cases l' with
      | nil => simp [List.compareLex]
      | cons y l' =>
        have heq : cmp x y = .eq ↔ x = y := Std.LawfulEqCmp.compare_eq_iff_eq
        rw [List.compareLex, cons_lex_cons_iff, ← hr, ← ih, ← heq]
        cases cmp x y <;> simp
  rw [shortlex_def, Ordering.then_eq_lt, Nat.compare_eq_lt, Nat.compare_eq_eq, hlex]

end

instance : Std.LawfulEqCmp Fitness.compare_bytes where
  eq_of_compare := compare_lists_lawful

instance : Std.LawfulEqCmp Fitness.compare where
  eq_of_compare := compare_lists_lawful

theorem compare_eq (f1 f2 : Fitness) : compare f1 f2 = some (Fitness.compare f1 f2) := by
  have hbytes (b1 b2) : compare_bytes b1 b2 = some (Fitness.compare_bytes b1 b2) :=
    compare_lists_eq rfl (fun _ _ _ _ => rfl) b1 b2
  refine compare_lists_eq rfl (fun i1 i2 l l' => ?_) f1 f2
  rw [compare_rec, hbytes]
  rfl

theorem compare_eq_lt_iff (f1 f2 : Fitness) :
    Fitness.compare f1 f2 = .lt ↔ Shortlex (Shortlex (· < ·)) f1 f2 := by
  have hbytes (b1 b2) : Fitness.compare_bytes b1 b2 = .lt ↔ Shortlex (· < ·) b1 b2 :=
    compare_lists_eq_lt_iff (fun _ _ => Std.compare_eq_lt) b1 b2
  exact compare_lists_eq_lt_iff hbytes f1 f2

/-! The integers of the protocol. -/

theorem int64_to_bytes_eq (a : Int64) : int64_to_bytes a = write_be 8 a.toUInt64.toNat := by
  simp only [int64_to_bytes, write_be, cons.injEq, ← UInt8.toNat_inj, UInt64.toNat_toUInt8,
    UInt64.toNat_shiftRight, UInt64.reduceToNat, Nat.shiftRight_eq_div_pow, UInt8.toNat_ofNat',
    Nat.reduceMod, Nat.reducePow, true_and, and_true]
  and_intros <;> omega

/-- Big-endian strings are ordered like numbers. -/
theorem write_be_lex_iff {k m n : ℕ} (hm : m < 256 ^ k) (hn : n < 256 ^ k) :
    Lex (· < ·) (write_be k m) (write_be k n) ↔ m < n := by
  induction k generalizing m n with
  | zero =>
    rw [pow_zero] at hm hn
    simp [write_be]
    omega
  | succ k ih =>
    have hpos : 0 < 256 ^ k := Nat.pow_pos (by decide)
    rw [pow_succ] at hm hn
    rw [write_be, write_be, cons_lex_cons_iff, ih (Nat.mod_lt _ hpos) (Nat.mod_lt _ hpos),
      UInt8.lt_iff_toNat_lt, ← UInt8.toNat_inj, toNat_ofNat (Nat.div_lt_of_lt_mul hm),
      toNat_ofNat (Nat.div_lt_of_lt_mul hn)]
    have hm := Nat.div_add_mod m (256 ^ k)
    have hn := Nat.div_add_mod n (256 ^ k)
    have hmlt := Nat.mod_lt m hpos
    have hnlt := Nat.mod_lt n hpos
    rcases lt_trichotomy (m / 256 ^ k) (n / 256 ^ k) with hlt | heq | hlt
    · have hle := Nat.mul_le_mul_left (256 ^ k) hlt
      rw [Nat.mul_succ] at hle
      omega
    · rw [heq] at hm ⊢
      omega
    · have hle := Nat.mul_le_mul_left (256 ^ k) hlt
      rw [Nat.mul_succ] at hle
      omega

theorem toUInt64_lt_iff {a b : Int64} (ha : 0 ≤ a) (hb : 0 ≤ b) :
    a.toUInt64.toNat < b.toUInt64.toNat ↔ a < b := by
  rw [Int64.le_iff_toInt_le] at ha hb
  rw [Int64.lt_iff_toInt_lt]
  have hnat (c : Int64) (hc : 0 ≤ c.toInt) : (c.toUInt64.toNat : ℤ) = c.toInt := by
    have hcond := c.toBitVec.toInt_eq_toNat_cond
    have hint : c.toInt = c.toBitVec.toInt := rfl
    change (c.toBitVec.toNat : ℤ) = _
    split at hcond <;> omega
  rw [← hnat a ha, ← hnat b hb, Nat.cast_lt]

theorem shift_or (x : UInt64) : (x >>> 8) <<< 8 ||| x.toUInt8.toUInt64 = x := by
  have hlt : x.toNat % 2 ^ 8 < 2 ^ 8 := Nat.mod_lt _ (by decide)
  have hx := x.toNat_lt
  have hsmall : x.toNat >>> 8 <<< 8 < 2 ^ 64 := by
    rw [Nat.shiftLeft_eq, Nat.shiftRight_eq_div_pow]
    omega
  rw [← UInt64.toNat_inj]
  simp only [UInt64.toNat_or, UInt64.toNat_shiftLeft, UInt64.toNat_shiftRight, UInt64.reduceToNat,
    Nat.reduceMod, UInt8.toNat_toUInt64, UInt64.toNat_toUInt8]
  rw [Nat.mod_eq_of_lt hsmall, ← Nat.shiftLeft_add_eq_or_of_lt hlt, Nat.shiftLeft_eq,
    Nat.shiftRight_eq_div_pow]
  omega

theorem int64_of_to_bytes (a : Int64) : int64_of_bytes (int64_to_bytes a) = .ok a := by
  have hlength : ¬ (int64_to_bytes a).length ≠ 8 := not_not.mpr rfl
  have hround {x y : UInt64} (h : y = x >>> 8) : y <<< 8 ||| x.toUInt8.toUInt64 = x := by
    rw [h, shift_or]
  have hfirst : (0 : UInt64) = (a.toUInt64 >>> 56) >>> 8 := by
    have := a.toUInt64.toNat_lt
    simp [← UInt64.toNat_inj, Nat.shiftRight_eq_div_pow]
    omega
  rw [int64_of_bytes, if_neg hlength, int64_to_bytes]
  simp (disch := simp [← UInt64.toBitVec_inj, ← BitVec.shiftRight_add]) only [foldl_cons, foldl_nil,
    hround hfirst, hround]
  rfl

/-- Fitnesses are totally ordered: first by length, then by their first different
components, and these by length and then by bytes. No assertion fails, and the
integers of the protocol keep their order and are read back. -/
theorem fitness_order :
    (∀ f1 f2, compare f1 f2 = some (Fitness.compare f1 f2)) ∧
    Std.TransCmp Fitness.compare ∧ Std.LawfulEqCmp Fitness.compare ∧
    (∀ f1 f2, Fitness.compare f1 f2 = .lt ↔ Shortlex (Shortlex (· < ·)) f1 f2) ∧
    ∀ a b : Int64, 0 ≤ a → 0 ≤ b →
      (a < b ↔ Fitness.compare (from_int64 a) (from_int64 b) = .lt) ∧
      to_int64 (from_int64 a) = .ok a := by
  have hlt (c : Int64) : c.toUInt64.toNat < 256 ^ 8 := c.toUInt64.toNat_lt
  refine ⟨compare_eq, inferInstance, inferInstance, compare_eq_lt_iff, fun a b ha hb => ⟨?_, ?_⟩⟩
  · rw [compare_eq_lt_iff, from_int64, from_int64, shortlex_cons_iff, shortlex_singleton_iff,
      shortlex_iff_lex (by rfl), int64_to_bytes_eq, int64_to_bytes_eq,
      write_be_lex_iff (hlt a) (hlt b), toUInt64_lt_iff ha hb]
  · rw [from_int64, to_int64, if_pos rfl, int64_of_to_bytes]

theorem fitness_order_one_two :
    (0 : Int64) ≤ 1 ∧ (0 : Int64) ≤ 2 ∧ Fitness.compare (from_int64 1) (from_int64 2) = .lt :=
  ⟨by decide, by decide,
    ((fitness_order.2.2.2.2 1 2 (by decide) (by decide)).1).mp (by decide)⟩

end plexus.fitness
