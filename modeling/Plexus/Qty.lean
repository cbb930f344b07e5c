import Plexus.Error
import Mathlib.Tactic.Ring
import Mathlib.Tactic.Linarith
import Mathlib.Data.Nat.Size

namespace plexus.Qty

open Result Nat Int Int64

variable {id : Token}

instance : LT (Qty id) := ⟨fun a b => a.int64 < b.int64⟩

instance : LE (Qty id) := ⟨fun a b => a.int64 ≤ b.int64⟩

instance (a b : Qty id) : Decidable (a < b) := inferInstanceAs (Decidable (a.int64 < b.int64))

instance (a b : Qty id) : Decidable (a ≤ b) := inferInstanceAs (Decidable (a.int64 ≤ b.int64))

def zero : Qty id := ⟨0, by decide⟩

instance : Inhabited (Qty id) := ⟨zero⟩

variable (t : Qty id)

def to_mutez : Int64 := t.int64

def of_mutez (t : Int64) : Option (Qty id) :=
  if h : t < 0 then none else some ⟨t, Int64.not_lt.mp h⟩

/-- The amount as an integer. -/
def amount : ℤ := t.int64.toInt

theorem amount_nonneg : 0 ≤ t.amount := le_iff_toInt_le.mp t.nonneg

theorem amount_lt : t.amount < 2 ^ 63 := toInt_lt t.int64

theorem amount_injective : Function.Injective (amount : Qty id → ℤ) := by
  rintro ⟨a, ha⟩ ⟨b, hb⟩ h
  have : a = b := toInt_inj.mp h
  subst this
  rfl

variable {a : Qty id} {b : Qty id}

@[simp] theorem amount_inj : a.amount = b.amount ↔ a = b := amount_injective.eq_iff

@[simp] theorem amount_zero : (zero : Qty id).amount = 0 := rfl

theorem amount_eq_zero_iff : a.amount = 0 ↔ a = zero := by
  rw [← amount_inj, amount_zero]

theorem lt_iff_amount_lt : a < b ↔ a.amount < b.amount := lt_iff_toInt_lt

theorem le_iff_amount_le : a ≤ b ↔ a.amount ≤ b.amount := le_iff_toInt_le

theorem eq_zero_of_not_pos (h : ¬ zero < a) : a = zero := by
  rw [lt_iff_amount_lt, amount_zero] at h
  have hnonneg := a.amount_nonneg
  exact amount_eq_zero_iff.mp (by omega)

/-- Subtraction, refused when it would be negative. -/
def sub (t1 t2 : Qty id) : Tzresult (Qty id) :=
  if h : t2 ≤ t1 then
    .ok ⟨t1.int64 - t2.int64, by
      have h1 := le_iff_amount_le.mp h
      have h2 := t1.amount_lt
      have h3 := t2.amount_nonneg
      unfold amount at h1 h2 h3
      rw [Int64.le_iff_toInt_le, Int64.toInt_sub]
      rw [Int.bmod_eq_of_le (by omega) (by omega)]
      simpa using h1⟩
  else fail (.Subtraction_underflow id t1.int64 t2.int64)

/-- Addition in 64 bits: an overflow is noticed because the sum then wraps
below the first operand. -/
def add (t1 t2 : Qty id) : Tzresult (Qty id) :=
  if h : t1.int64 + t2.int64 < t1.int64 then fail (.Addition_overflow id t1.int64 t2.int64)
  else .ok ⟨t1.int64 + t2.int64, Int64.le_trans t1.nonneg (Int64.not_lt.mp h)⟩

/-- The loop of the multiplication: `acc` plus `cur` times `pow`. The source
doubles `pow` also after the last bit of `cur`. -/
def mul_step : Nat → Nat → Qty id → Qty id → Tzresult (Qty id)
  | 0, _, _, _ => .div
  | fuel + 1, cur, pow, acc =>
    if cur = 0 then .ok acc
    else do
      let npow ← add pow pow
      if cur % 2 = 1 then
        let nacc ← add acc pow
        mul_step fuel (cur / 2) npow nacc
      else mul_step fuel (cur / 2) npow acc

/-- Multiplication by a non-negative 64-bit integer, which has at most 63
bits. -/
def mul (m : Int64) : Tzresult (Qty id) :=
  if m < 0 then fail (.Negative_multiplicator id t.int64 m)
  else
    match mul_step 64 m.toInt.toNat t zero with
    | .error [.Addition_overflow i a b] =>
      .error [.Multiplication_overflow id t.int64 m, .Addition_overflow i a b]
    | r => r

private theorem toInt_div {d : Int64} (hd : ¬ d ≤ 0) :
    (t.int64 / d).toInt = t.amount / d.toInt := by
  have hd' : 0 < d.toInt := by
    rw [le_iff_toInt_le] at hd
    simpa using hd
  have h0 := t.amount_nonneg
  have h1 := t.amount_lt
  have hle : t.amount / d.toInt ≤ t.amount := ediv_le_self _ h0
  have hnonneg : 0 ≤ t.amount / d.toInt := ediv_nonneg h0 hd'.le
  rw [Int64.toInt_div]
  change (t.amount.tdiv d.toInt).bmod _ = _
  rw [tdiv_eq_ediv_of_nonneg h0]
  exact bmod_eq_of_le (by omega) (by omega)

def div (d : Int64) : Tzresult (Qty id) :=
  if h : d ≤ 0 then fail (.Invalid_divisor id t.int64 d)
  else
    .ok ⟨t.int64 / d, by
      have hd : 0 < d.toInt := by
        rw [Int64.le_iff_toInt_le] at h
        simpa using h
      rw [Int64.le_iff_toInt_le, toInt_div t h]
      exact Int.ediv_nonneg t.amount_nonneg hd.le⟩

theorem sub_eq_ok_iff {c : Qty id} : sub a b = .ok c ↔ c.amount = a.amount - b.amount := by
  unfold sub
  split
  · next h =>
    have h1 := le_iff_amount_le.mp h
    have h2 := a.amount_lt
    have h3 := b.amount_nonneg
    unfold amount at h1 h2 h3
    have hval : (a.int64 - b.int64).toInt = a.int64.toInt - b.int64.toInt := by
      rw [toInt_sub]
      exact bmod_eq_of_le (by omega) (by omega)
    rw [Result.ok.injEq, ← amount_inj]
    unfold amount
    rw [hval]
    exact eq_comm
  · next h =>
    have h1 : ¬ b.amount ≤ a.amount := fun hle => h (le_iff_amount_le.mpr hle)
    have h2 := c.amount_nonneg
    simp only [fail_ne_ok, false_iff]
    omega

/-- Subtraction either returns or reports the underflow. -/
theorem sub_cases (a b : Qty id) :
    (b.amount ≤ a.amount ∧ ∃ c, sub a b = .ok c) ∨
      (a.amount < b.amount ∧ sub a b = fail (.Subtraction_underflow id a.int64 b.int64)) := by
  by_cases h : b ≤ a
  · left
    exact ⟨le_iff_amount_le.mp h, _, dif_pos h⟩
  · right
    refine ⟨?_, dif_neg h⟩
    rw [le_iff_amount_le] at h
    omega

private theorem toInt_add_cases (a b : Qty id) :
    (a.int64 + b.int64).toInt = a.amount + b.amount ∧ a.amount + b.amount < 2 ^ 63 ∨
      (a.int64 + b.int64).toInt < 0 ∧ 2 ^ 63 ≤ a.amount + b.amount := by
  have ha := a.amount_nonneg
  have hb := b.amount_nonneg
  have ha' := a.amount_lt
  have hb' := b.amount_lt
  unfold amount at *
  rw [toInt_add, bmod_def]
  split <;> omega

theorem add_eq_ok_iff {c : Qty id} : add a b = .ok c ↔ c.amount = a.amount + b.amount := by
  have hb := b.amount_nonneg
  have ha := a.amount_nonneg
  have hc := c.amount_lt
  unfold add
  rcases toInt_add_cases a b with ⟨hval, hlt⟩ | ⟨hneg, hge⟩
  · have hnot : ¬ a.int64 + b.int64 < a.int64 := by
      rw [lt_iff_toInt_lt, hval]
      unfold amount at *
      omega
    rw [dif_neg hnot, Result.ok.injEq, ← amount_inj, eq_comm]
    change _ = (a.int64 + b.int64).toInt ↔ _
    rw [hval]
  · have hlt : a.int64 + b.int64 < a.int64 := by
      rw [lt_iff_toInt_lt]
      unfold amount at *
      omega
    rw [dif_pos hlt]
    simp only [fail_ne_ok, false_iff]
    omega

/-- Addition either returns or reports the overflow. -/
theorem add_cases (a b : Qty id) :
    (a.amount + b.amount < 2 ^ 63 ∧ ∃ c, add a b = .ok c) ∨
      (2 ^ 63 ≤ a.amount + b.amount ∧ add a b = fail (.Addition_overflow id a.int64 b.int64)) := by
  by_cases h : a.int64 + b.int64 < a.int64
  · right
    refine ⟨?_, dif_pos h⟩
    have hb := b.amount_nonneg
    rcases toInt_add_cases a b with ⟨hval, hlt⟩ | ⟨hneg, hge⟩
    · rw [lt_iff_toInt_lt, hval] at h
      unfold amount at *
      omega
    · exact hge
  · left
    have hok : add a b = .ok ⟨_, _⟩ := dif_neg h
    refine ⟨?_, _, hok⟩
    rw [← add_eq_ok_iff.mp hok]
    exact amount_lt _

variable {fuel cur : Nat}

/-- The loop of the multiplication adds every bit, or reports the first sum
that does not fit, which may be the double of the last power. -/
private theorem mul_step_cases (hcur : cur < 2 ^ fuel) (pow acc : Qty id) :
    (pow.amount * 2 ^ cur.size < 2 ^ 63 ∧
      ∃ r : Qty id, mul_step (fuel + 1) cur pow acc = .ok r ∧
        r.amount = acc.amount + cur * pow.amount) ∨
    ((2 ^ 63 ≤ pow.amount * 2 ^ cur.size ∨ 2 ^ 63 ≤ acc.amount + cur * pow.amount) ∧
      ∃ a b, mul_step (fuel + 1) cur pow acc = fail (.Addition_overflow id a b)) := by
  induction fuel generalizing cur pow acc with
  | zero =>
    obtain rfl : cur = 0 := by omega
    exact .inl ⟨by simpa using pow.amount_lt, acc, rfl, by simp⟩
  | succ fuel ih =>
    rw [mul_step]
    split
    · next hzero =>
      subst hzero
      exact .inl ⟨by simpa using pow.amount_lt, acc, rfl, by simp⟩
    · next hne =>
      have hsize : cur.size = (cur / 2).size + 1 := by
        have hbit := size_bit (by rwa [bit_bodd_div2])
        rwa [bit_bodd_div2, Nat.div2_val] at hbit
      have hsplit : (cur : ℤ) = 2 * (cur / 2 : ℕ) + (cur % 2 : ℕ) := by omega
      have hrest := @ih (cur / 2) (by omega)
      have hpow := pow.amount_nonneg
      have hhalf : 0 ≤ ((cur / 2 : ℕ) : ℤ) * pow.amount := mul_nonneg (by omega) hpow
      rw [hsize, hsplit, pow_succ]
      generalize cur / 2 = half at *
      rcases add_cases pow pow with ⟨_, npow, hnpow⟩ | ⟨hover, hfail⟩
      · have hdouble : npow.amount = 2 * pow.amount := by rw [add_eq_ok_iff.mp hnpow, two_mul]
        have hpower : npow.amount * 2 ^ half.size = pow.amount * (2 ^ half.size * 2) := by
          rw [hdouble]
          ring
        rw [hnpow, bind_ok]
        split
        · next hodd =>
          rw [hodd]
          rcases add_cases acc pow with ⟨_, nacc, hnacc⟩ | ⟨hover, hfail⟩
          · have hsum : nacc.amount + half * npow.amount =
                acc.amount + (2 * half + (1 : ℕ)) * pow.amount := by
              rw [add_eq_ok_iff.mp hnacc, hdouble]
              ring
            rw [hnacc, bind_ok, ← hpower, ← hsum]
            exact hrest npow nacc
          · rw [hfail]
            refine .inr ⟨.inr ?_, _, _, rfl⟩
            push_cast
            linarith
        · next heven =>
          have hzero : cur % 2 = 0 := by omega
          have hsum : acc.amount + half * npow.amount =
              acc.amount + (2 * half + (0 : ℕ)) * pow.amount := by
            rw [hdouble]
            ring
          rw [hzero, ← hpower, ← hsum]
          exact hrest npow acc
      · have hone : (1 : ℤ) ≤ 2 ^ half.size := one_le_pow₀ (by decide)
        rw [hfail]
        exact .inr ⟨.inl (by nlinarith), _, _, rfl⟩

variable {m : Int64}

/-- A multiplication returns the product, or reports that the first operand
times a power of two above the second does not fit. -/
theorem mul_cases (hm : 0 ≤ m.toInt) :
    (t.amount * 2 ^ m.toInt.toNat.size < 2 ^ 63 ∧
      ∃ r, mul t m = .ok r ∧ r.amount = t.amount * m.toInt) ∨
    (2 ^ 63 ≤ t.amount * 2 ^ m.toInt.toNat.size ∧
      ∃ a b, mul t m = .error [.Multiplication_overflow id t.int64 m,
        .Addition_overflow id a b]) := by
  have hsize := lt_size_self m.toInt.toNat
  have hcur : m.toInt.toNat < 2 ^ 63 := by
    have := m.toInt_lt
    omega
  have hneg : ¬ m < 0 := by
    rw [lt_iff_toInt_lt]
    exact hm.not_gt
  have hproduct : (zero : Qty id).amount + m.toInt.toNat * t.amount = t.amount * m.toInt := by
    rw [amount_zero, zero_add, toNat_of_nonneg hm, mul_comm]
  have hless : t.amount * m.toInt ≤ t.amount * 2 ^ m.toInt.toNat.size := by
    apply mul_le_mul_of_nonneg_left _ t.amount_nonneg
    rw [← toNat_of_nonneg hm]
    exact_mod_cast hsize.le
  have hstep := mul_step_cases hcur t zero
  unfold mul
  rw [hproduct] at hstep
  rw [if_neg hneg]
  rcases hstep with ⟨hfits, r, hr, hamount⟩ | ⟨hover, a, b, hfail⟩
  · rw [hr]
    exact .inl ⟨hfits, r, rfl, hamount⟩
  · rw [hfail]
    exact .inr ⟨hover.elim (fun h => h) hless.trans', a, b, rfl⟩

theorem mul_negative {t : Qty id} (hm : ¬ 0 ≤ m.toInt) :
    mul t m = .error [.Negative_multiplicator id t.int64 m] := by
  have hneg : m < 0 := by
    rw [lt_iff_toInt_lt]
    exact not_le.mp hm
  exact if_pos hneg

/-- A multiplication that returns is exact. -/
theorem mul_eq_ok {t r : Qty id} (h : mul t m = .ok r) :
    r.amount = t.amount * m.toInt := by
  by_cases hm : 0 ≤ m.toInt
  · rcases mul_cases t hm with ⟨_, r', hr', hamount⟩ | ⟨_, _, _, hfail⟩
    · rw [hr', Result.ok.injEq] at h
      rw [← h, hamount]
    · rw [hfail] at h
      cases h
  · rw [mul_negative hm] at h
    cases h

theorem add_spec {a b : Qty id} : (add a b).Meets fun c => c.amount = a.amount + b.amount := by
  refine ⟨?_, add_eq_ok_iff.mp⟩
  rcases add_cases a b with ⟨_, c, h⟩ | ⟨_, h⟩
  · rw [h]
    exact total_ok c
  · rw [h]
    exact total_fail _

theorem sub_spec {a b : Qty id} : (sub a b).Meets fun c => c.amount = a.amount - b.amount := by
  refine ⟨?_, sub_eq_ok_iff.mp⟩
  rcases sub_cases a b with ⟨_, c, h⟩ | ⟨_, h⟩
  · rw [h]
    exact total_ok c
  · rw [h]
    exact total_fail _

theorem total_mul (m : Int64) : (mul t m).Total := by
  by_cases hm : 0 ≤ m.toInt
  · rcases mul_cases t hm with ⟨_, r, h, _⟩ | ⟨_, _, _, h⟩
    · rw [h]
      exact total_ok r
    · rw [h]
      exact total_error _
  · rw [mul_negative hm]
    exact total_error _

/-- The errors of a multiplication are its own. -/
theorem mul_error {t : Qty id} {e : Trace} (h : mul t m = .error e) :
    e = [.Negative_multiplicator id t.int64 m] ∨
      ∃ a b, e = [.Multiplication_overflow id t.int64 m, .Addition_overflow id a b] := by
  by_cases hm : 0 ≤ m.toInt
  · rcases mul_cases t hm with ⟨_, r, hr, _⟩ | ⟨_, a, b, hfail⟩
    · rw [hr] at h
      cases h
    · rw [hfail] at h
      cases h
      exact .inr ⟨a, b, rfl⟩
  · rw [mul_negative hm] at h
    cases h
    exact .inl rfl

/-- An operation returns exactly when the result fits, and then the result. -/
def Exact (r : Tzresult (Qty id)) (result : ℤ) : Prop :=
  ((∃ c, r = .ok c) ↔ 0 ≤ result ∧ result < 2 ^ 63) ∧ ∀ c, r = .ok c → c.amount = result

/-- Additions and subtractions of tokens are exact, and so is every
multiplication that returns; it does not return when the first operand times a
power of two above the second does not fit. -/
theorem token_arithmetic_exact_iff (a b : Qty id) {m : Int64} (hm : 0 ≤ m.toInt) :
    Exact (add a b) (a.amount + b.amount) ∧ Exact (sub a b) (a.amount - b.amount) ∧
      (∀ c, mul a m = .ok c → c.amount = a.amount * m.toInt) ∧
      (Exact (mul a m) (a.amount * m.toInt) ↔
        (a.amount * m.toInt < 2 ^ 63 → a.amount * 2 ^ m.toInt.toNat.size < 2 ^ 63)) := by
  have ha := a.amount_nonneg
  have ha' := a.amount_lt
  have hb := b.amount_nonneg
  have hproduct : 0 ≤ a.amount * m.toInt := mul_nonneg ha hm
  refine ⟨⟨?_, fun c => add_eq_ok_iff.mp⟩, ⟨?_, fun c => sub_eq_ok_iff.mp⟩, fun c => mul_eq_ok, ?_⟩
  · rcases add_cases a b with ⟨hfits, hok⟩ | ⟨hover, hfail⟩
    · exact iff_of_true hok ⟨by omega, hfits⟩
    · exact iff_of_false (by simp [hfail]) (by omega)
  · rcases sub_cases a b with ⟨hle, hok⟩ | ⟨hlt, hfail⟩
    · exact iff_of_true hok ⟨by omega, by omega⟩
    · exact iff_of_false (by simp [hfail]) (by omega)
  · rcases mul_cases a hm with ⟨hfits, r, hr, hamount⟩ | ⟨hover, x, y, hfail⟩
    · refine iff_of_true ⟨iff_of_true ⟨r, hr⟩ ⟨hproduct, ?_⟩, fun c => mul_eq_ok⟩ fun _ => hfits
      rw [← hamount]
      exact r.amount_lt
    · have hnone : ¬ ∃ c, mul a m = .ok c := by simp [hfail]
      constructor
      · rintro ⟨hreturns, _⟩ hfits
        exact absurd (hreturns.mpr ⟨hproduct, hfits⟩) hnone
      · intro hholds
        refine ⟨iff_of_false hnone fun hfits => ?_, fun c => mul_eq_ok⟩
        exact absurd (hholds hfits.2) (not_lt.mpr hover)

theorem token_arithmetic_exact_cent :
    0 ≤ (100 : Int64).toInt ∧ (Exact (mul (⟨10000, by decide⟩ : Qty .tez) 100) 1000000 ↔
      ((1000000 : ℤ) < 2 ^ 63 → (10000 : ℤ) * 2 ^ Nat.size 100 < 2 ^ 63)) :=
  ⟨by decide, (token_arithmetic_exact_iff (⟨10000, by decide⟩ : Qty .tez) zero
    (by decide)).2.2.2⟩

/-- A product that is the first operand is refused because its double does not
fit. -/
theorem token_times_one_refused :
    (⟨4611686018427387904, by decide⟩ : Qty .tez).amount * (1 : Int64).toInt < 2 ^ 63 ∧
      ∀ c, mul (⟨4611686018427387904, by decide⟩ : Qty .tez) 1 ≠ .ok c := by
  refine ⟨by decide, fun c h => ?_⟩
  rcases mul_cases (⟨4611686018427387904, by decide⟩ : Qty .tez) (m := 1) (by decide) with
    ⟨hfits, _⟩ | ⟨_, _, _, hfail⟩
  · exact absurd hfits (by decide)
  · rw [hfail] at h
    cases h

end plexus.Qty
