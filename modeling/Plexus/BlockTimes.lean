import Plexus.Baking
import Plexus.Lib.FixedWidth

/-! When a block may be baked, for the baker and for the validator. -/

namespace plexus.baking

open List Finset

open Result (bind_ok)

/-- The period at a priority. The last one is repeated. -/
def period_at (durations : List Int64) (i : Nat) : ℤ :=
  (durations[min i (durations.length - 1)]?.getD 0).toInt

/-- The first periods together. -/
def delay (durations : List Int64) (n : Nat) : ℤ := ∑ i ∈ Finset.range n, period_at durations i

variable {durations : List Int64}

theorem delay_cons (first : Int64) (hne : durations ≠ []) (n : Nat) :
    delay (first :: durations) (n + 1) = first.toInt + delay durations n := by
  have hlength := length_pos_iff.mpr hne
  have hnext i : period_at (first :: durations) (i + 1) = period_at durations i := by
    have hmin : min (i + 1) durations.length = min i (durations.length - 1) + 1 := by omega
    unfold period_at
    rw [length_cons, Nat.add_sub_cancel, hmin, getElem?_cons_succ]
  unfold delay
  rw [Finset.sum_range_succ', add_comm]
  simp only [hnext]
  rfl

theorem delay_singleton (last : Int64) (n : Nat) : delay [last] n = n * last.toInt := by
  have hperiod i : period_at [last] i = last.toInt := by
    unfold period_at
    simp
  unfold delay
  simp only [hperiod, sum_const, card_range, nsmul_eq_mul]

theorem delay_mono (hnonneg : ∀ d ∈ durations, 0 ≤ d.toInt) {m n : Nat} (hmn : m ≤ n) :
    delay durations m ≤ delay durations n := by
  have hperiod i : 0 ≤ period_at durations i := by
    unfold period_at
    cases hi : durations[min i (durations.length - 1)]? with
    | none => exact le_refl 0
    | some d => exact hnonneg d (mem_of_getElem? hi)
  exact Finset.sum_le_sum_of_subset_of_nonneg (Finset.range_mono hmn) fun i _ _ => hperiod i

theorem mult_eq {i : Int32} (h : 0 ≤ i.toInt) (p : Int64) :
    period_repr.mult i p = .ok (i.toInt64 * p) := by
  refine if_neg ?_
  rw [Int32.lt_iff_toInt_lt]
  exact not_lt.mpr h

/-- The sum is computed modulo the width of a timestamp. -/
theorem cumsum_eq (hne : durations ≠ []) (acc : Int64) (p : Int32) :
    cumsum_time_between_blocks acc durations p =
      .ok (acc + Int64.ofInt (delay durations p.toInt.toNat)) := by
  induction durations generalizing acc p with
  | nil => exact absurd rfl hne
  | cons first durations ih =>
    by_cases hp : p ≤ 0
    · have hzero : p.toInt.toNat = 0 := by
        rw [Int32.le_iff_toInt_le, Int32.toInt_zero] at hp
        omega
      rw [hzero]
      cases durations <;> simp [cumsum_time_between_blocks, hp, delay]
    · have hpos : 0 < p.toInt := by
        rwa [Int32.not_le, Int32.lt_iff_toInt_lt, Int32.toInt_zero] at hp
      cases durations with
      | nil =>
        rw [cumsum_time_between_blocks, if_neg hp, mult_eq hpos.le, bind_ok, delay_singleton,
          Int.toNat_of_nonneg hpos.le, Int64.ofInt_mul, Int64.ofInt_toInt, ← Int32.toInt_toInt64,
          Int64.ofInt_toInt]
        rfl
      | cons second rest =>
        have hlt := p.toInt_lt
        have hpred : (p - 1).toInt = p.toInt - 1 :=
          Int32.toInt_sub_exact (by rw [Int32.toInt_one]; omega) (by rw [Int32.toInt_one]; omega)
        have hsucc : p.toInt.toNat = (p - 1).toInt.toNat + 1 := by omega
        rw [cumsum_time_between_blocks, if_neg hp, ih (cons_ne_nil _ _), hsucc,
          delay_cons first (cons_ne_nil _ _), Int64.ofInt_add, Int64.ofInt_toInt,
          Int64.add_assoc]
        simp

/-- How many periods are summed up for a priority. -/
def counted (priority : Nat) : Nat := (Int32.ofNat priority + 1).toInt.toNat

theorem counted_le (priority : Nat) : counted priority ≤ priority + 1 := by
  have hone : (1 : Int32).toInt = 1 := rfl
  have hsum : (Int32.ofNat priority + 1).toInt = ((priority : ℤ) + 1).bmod (2 ^ 32) := by
    rw [Int32.toInt_add, hone, Int32.toInt_ofNat']
    exact Int.bmod_add_bmod
  unfold counted
  rw [hsum, Int.bmod_def]
  split <;> omega

/-- What `minimal_time` should return. -/
def Exact_minimal_time (c : Context) (priority : Nat) (pred_timestamp : Int64) : Prop :=
  let exact := pred_timestamp.toInt + delay c.constants.time_between_blocks (priority + 1)
  (exact < 2 ^ 63 → ∃ time, minimal_time c priority pred_timestamp = .ok time ∧
    time.toInt = exact) ∧
  (2 ^ 63 ≤ exact → ∃ e, minimal_time c priority pred_timestamp = .error e)

/-- The sum of the periods fits, and the count of the periods does not wrap, or wraps only
over empty periods. -/
def Representable (c : Context) (priority : Nat) (pred_timestamp : Int64) : Prop :=
  pred_timestamp.toInt + delay c.constants.time_between_blocks (priority + 1) < 2 ^ 63 ∧
    delay c.constants.time_between_blocks (counted priority) =
      delay c.constants.time_between_blocks (priority + 1)

variable {c : Context} {priority : Nat}

theorem minimal_time_eq (hne : c.constants.time_between_blocks ≠ [])
    (hnonneg : ∀ d ∈ c.constants.time_between_blocks, 0 ≤ d.toInt) {pred_timestamp : Int64}
    (hfits : pred_timestamp.toInt + delay c.constants.time_between_blocks (priority + 1) < 2 ^ 63) :
    ∃ time, minimal_time c priority pred_timestamp = .ok time ∧ time.toInt =
      pred_timestamp.toInt + delay c.constants.time_between_blocks (counted priority) := by
  refine ⟨_, cumsum_eq hne _ _, ?_⟩
  have hmono := delay_mono hnonneg (counted_le priority)
  have hstart := delay_mono hnonneg (counted priority).zero_le
  have hlow := pred_timestamp.le_toInt
  rw [delay, sum_range_zero] at hstart
  have hsize : Int64.size = 2 ^ 64 := rfl
  rw [← counted, Int64.toInt_add, Int64.toInt_ofInt, hsize, Int.add_bmod_bmod]
  exact Int.bmod_eq_of_le (by omega) (by omega)

/-- Nothing in the sum of the periods is checked for overflow. -/
theorem minimal_time_exact_iff {c : Context} (hne : c.constants.time_between_blocks ≠ [])
    (hnonneg : ∀ d ∈ c.constants.time_between_blocks, 0 ≤ d.toInt) (pred_timestamp : Int64) :
    (∀ priority, Exact_minimal_time c priority pred_timestamp ↔
      Representable c priority pred_timestamp) ∧
    ∀ priority priority' time time', priority ≤ priority' →
      Representable c priority pred_timestamp → Representable c priority' pred_timestamp →
      minimal_time c priority pred_timestamp = .ok time →
      minimal_time c priority' pred_timestamp = .ok time' → time ≤ time' := by
  have hvalue {priority : Nat} {time : Int64} (h : Representable c priority pred_timestamp)
      (htime : minimal_time c priority pred_timestamp = .ok time) : time.toInt =
      pred_timestamp.toInt + delay c.constants.time_between_blocks (priority + 1) := by
    obtain ⟨time', htime', hexact⟩ := minimal_time_eq hne hnonneg h.1
    rw [htime] at htime'
    cases htime'
    rw [hexact, h.2]
  constructor
  · intro priority
    constructor
    · rintro ⟨hexact, herror⟩
      have hfits : pred_timestamp.toInt +
          delay c.constants.time_between_blocks (priority + 1) < 2 ^ 63 := by
        by_contra hlarge
        obtain ⟨e, he⟩ := herror (not_lt.mp hlarge)
        unfold minimal_time at he
        rw [cumsum_eq hne] at he
        cases he
      obtain ⟨time, htime, heq⟩ := hexact hfits
      obtain ⟨time', htime', _⟩ := minimal_time_eq hne hnonneg hfits
      rw [htime] at htime'
      cases htime'
      exact ⟨hfits, by omega⟩
    · intro h
      refine ⟨fun _ => ?_, fun hlarge => absurd h.1 (not_lt.mpr hlarge)⟩
      obtain ⟨time, htime, _⟩ := minimal_time_eq hne hnonneg h.1
      exact ⟨time, htime, hvalue h htime⟩
  · intro priority priority' time time' hle h h' htime htime'
    rw [Int64.le_iff_toInt_le, hvalue h htime, hvalue h' htime']
    exact add_le_add_right (delay_mono hnonneg (Nat.succ_le_succ hle)) _

def first_block (constants : Constants) : Context :=
  raw_context.prepare_first_block constants 1 0 0

theorem minimal_time_mainnet :
    Exact_minimal_time (first_block default_parameters.constants_mainnet) 3 0 := by
  have hnonneg : ∀ d ∈ default_parameters.constants_mainnet.time_between_blocks, 0 ≤ d.toInt := by
    simp [default_parameters.constants_mainnet]
  exact ((minimal_time_exact_iff (by decide) hnonneg 0).1 3).mpr ⟨by decide, rfl⟩

/-- Past the last time that there is, the earliest time of a block is long ago. -/
theorem minimal_time_wraps :
    ¬ Exact_minimal_time (first_block default_parameters.constants_mainnet) 0 Int64.maxValue := by
  rintro ⟨-, herror⟩
  obtain ⟨e, he⟩ := herror (by decide)
  cases he

/-- A block is accepted with these endorsements. -/
def Accepted (c : Context) (priority : Nat) (pred_timestamp : Int64) (endorsing_power : Nat) :
    Prop :=
  ∃ block_delay, check_timestamp c priority pred_timestamp = .ok block_delay ∧
    minimum_allowed_endorsements c block_delay ≤ endorsing_power

def minimal_valid_time (ctxt : Context) (priority endorsing_power : Nat) : Tzresult Int64 := do
  let predecessor_timestamp := ctxt.timestamp
  let minimal_time ← minimal_time ctxt priority predecessor_timestamp
  let missing_endorsements := max 0 ((ctxt.constants.initial_endorsers : ℤ) - endorsing_power)
  let delay ← period_repr.mult (Int32.ofInt missing_endorsements)
    ctxt.constants.delay_per_missing_endorsement
  pure (minimal_time + delay)

/-- The delay that the endorsements that are missing should cost. -/
def missing_delay (constants : Constants) (endorsing_power : Nat) : ℤ :=
  max 0 ((constants.initial_endorsers : ℤ) - endorsing_power) *
    constants.delay_per_missing_endorsement.toInt

/-- No time that the baker or the validator computes overflows, also where the
validator goes on with an OCaml `int`. -/
structure In_time (constants : Constants) (earliest timestamp : Int64) (endorsing_power : Nat) :
    Prop where
  difference : (timestamp - earliest).toInt = timestamp.toInt - earliest.toInt
  waited : timestamp.toInt - earliest.toInt < 2 ^ 62
  constant : constants.delay_per_missing_endorsement.toInt < 2 ^ 62
  initial_endorsers : constants.initial_endorsers < 2 ^ 62
  missing : (constants.initial_endorsers : ℤ) - endorsing_power < 2 ^ 31
  delay : missing_delay constants endorsing_power < 2 ^ 63
  sum : earliest.toInt + missing_delay constants endorsing_power < 2 ^ 63

theorem check_timestamp_eq_ok_iff {pred_timestamp earliest block_delay : Int64}
    (hearliest : minimal_time c priority pred_timestamp = .ok earliest) :
    check_timestamp c priority pred_timestamp = .ok block_delay ↔
      0 ≤ c.timestamp - earliest ∧ block_delay = c.timestamp - earliest := by
  unfold check_timestamp period_repr.of_seconds
  rw [hearliest, bind_ok, trace_eq_ok_iff, trace_eq_ok_iff]
  split <;> simp_all [fail, eq_comm]

theorem to_int_eq {n : ℤ} (hlow : -2 ^ 62 ≤ n) (hhigh : n < 2 ^ 62) : to_int n = n :=
  Int.bmod_eq_of_le (by omega) (by omega)

/-- The endorsements that the validator asks for, where nothing overflows. -/
theorem minimum_allowed_endorsements_eq {earliest timestamp : Int64} {endorsing_power : Nat}
    (hdelay : 0 ≤ c.constants.delay_per_missing_endorsement.toInt)
    (h : In_time c.constants earliest timestamp endorsing_power)
    (hle : earliest.toInt ≤ timestamp.toInt) :
    (minimum_allowed_endorsements c (timestamp - earliest) : ℤ) =
      max 0 (c.constants.initial_endorsers -
        if c.constants.delay_per_missing_endorsement.toInt = 0 then timestamp.toInt - earliest.toInt
        else (timestamp.toInt - earliest.toInt) / c.constants.delay_per_missing_endorsement.toInt) := by
  obtain ⟨hdifference, hwaited, hconstant, hinitial, -⟩ := h
  have hnonneg := sub_nonneg.mpr hle
  have hquotient := Int.ediv_nonneg hnonneg hdelay
  have hquotient_le := Int.ediv_le_self c.constants.delay_per_missing_endorsement.toInt hnonneg
  have hquotient_eq := to_int_eq (hquotient.trans' (by decide)) (hquotient_le.trans_lt hwaited)
  unfold minimum_allowed_endorsements
  dsimp only
  rw [hdifference, to_int_eq (by omega) hconstant, to_int_eq (by omega) hwaited,
    Int.tdiv_eq_ediv_of_nonneg hnonneg, hquotient_eq]
  split
  all_goals
    rw [to_int_eq (by omega) (by omega)]
    omega

theorem minimum_allowed_endorsements_le_iff {earliest timestamp : Int64} {endorsing_power : Nat}
    (hdelay : 0 < c.constants.delay_per_missing_endorsement.toInt)
    (h : In_time c.constants earliest timestamp endorsing_power)
    (hle : earliest.toInt ≤ timestamp.toInt) :
    minimum_allowed_endorsements c (timestamp - earliest) ≤ endorsing_power ↔
      missing_delay c.constants endorsing_power ≤ timestamp.toInt - earliest.toInt := by
  have hnonneg := sub_nonneg.mpr hle
  have hquotient := Int.ediv_nonneg hnonneg hdelay.le
  rw [← Nat.cast_le (α := ℤ), minimum_allowed_endorsements_eq hdelay.le h hle, if_neg hdelay.ne',
    missing_delay, ← Int.le_ediv_iff_mul_le hdelay]
  omega

theorem minimal_valid_time_exact {endorsing_power : Nat}
    {earliest timestamp : Int64} (hdelay : 0 ≤ c.constants.delay_per_missing_endorsement.toInt)
    (hearliest : minimal_time c priority c.timestamp = .ok earliest)
    (h : In_time c.constants earliest timestamp endorsing_power) :
    ∃ time, minimal_valid_time c priority endorsing_power = .ok time ∧
      time.toInt = earliest.toInt + missing_delay c.constants endorsing_power := by
  obtain ⟨-, -, -, -, _, _, _⟩ := h
  have hlow := earliest.le_toInt
  unfold minimal_valid_time missing_delay at *
  generalize hm : max 0 ((c.constants.initial_endorsers : ℤ) - endorsing_power) = missing at *
  have hcount : (Int32.ofInt missing).toInt = missing :=
    Int32.toInt_ofInt_of_le (by omega) (by omega)
  have hnonneg := Int.mul_nonneg (show 0 ≤ missing by omega) hdelay
  have hcost : ((Int32.ofInt missing).toInt64 * c.constants.delay_per_missing_endorsement).toInt =
      missing * c.constants.delay_per_missing_endorsement.toInt := by
    rw [Int64.toInt_mul_exact, Int32.toInt_toInt64, hcount] <;>
      rw [Int32.toInt_toInt64, hcount] <;> omega
  dsimp only
  rw [hearliest, bind_ok, mult_eq (by omega), bind_ok]
  refine ⟨_, rfl, ?_⟩
  rw [Int64.toInt_add, hcost]
  exact Int.bmod_eq_of_le (by omega) (by omega)

/-- Without a delay for missing endorsements, the baker waits for none of them, and the validator
still for one second each. -/
theorem baker_agrees_iff {b c : Context} (hconstants : b.constants = c.constants)
    (hdelay : 0 ≤ c.constants.delay_per_missing_endorsement.toInt) (priority endorsing_power : Nat)
    {earliest : Int64} (hearliest : minimal_time c priority b.timestamp = .ok earliest)
    (h : In_time c.constants earliest c.timestamp endorsing_power) :
    (Accepted c priority b.timestamp endorsing_power ↔
      ∃ time, minimal_valid_time b priority endorsing_power = .ok time ∧ time ≤ c.timestamp) ↔
    (c.constants.delay_per_missing_endorsement = 0 → earliest ≤ c.timestamp →
      (c.constants.initial_endorsers : ℤ) ≤
        endorsing_power + (c.timestamp.toInt - earliest.toInt)) := by
  obtain ⟨time, htime, hexact⟩ := minimal_valid_time_exact (hconstants ▸ hdelay)
    (by rwa [minimal_time, hconstants]) (hconstants ▸ h)
  rw [hconstants] at hexact
  have hbaker : (∃ time, minimal_valid_time b priority endorsing_power = .ok time ∧
      time ≤ c.timestamp) ↔ earliest.toInt + missing_delay c.constants endorsing_power ≤
        c.timestamp.toInt := by
    simp only [htime, Result.ok.injEq, exists_eq_left', Int64.le_iff_toInt_le, hexact]
  have hvalidator : Accepted c priority b.timestamp endorsing_power ↔ earliest ≤ c.timestamp ∧
      minimum_allowed_endorsements c (c.timestamp - earliest) ≤ endorsing_power := by
    unfold Accepted
    simp only [check_timestamp_eq_ok_iff hearliest, and_assoc, exists_and_left, exists_eq_left,
      Int64.le_iff_toInt_le, h.difference, Int64.toInt_zero, sub_nonneg]
  rw [hbaker, hvalidator, ← Int64.toInt_inj, Int64.toInt_zero, Int64.le_iff_toInt_le]
  rcases hdelay.eq_or_lt with hzero | hpos
  · have hfree : missing_delay c.constants endorsing_power = 0 := by
      unfold missing_delay
      rw [← hzero, mul_zero]
    have hallowed (hle : earliest.toInt ≤ c.timestamp.toInt) :=
      minimum_allowed_endorsements_eq hdelay h hle
    rw [if_pos hzero.symm] at hallowed
    rw [hfree]
    omega
  · have hcost : 0 ≤ missing_delay c.constants endorsing_power :=
      Int.mul_nonneg (le_max_left _ _) hdelay
    have hiff := minimum_allowed_endorsements_le_iff hpos h
    have hne := hpos.ne'
    simp only [hne, false_imp_iff, iff_true]
    constructor
    · rintro ⟨hle, hallowed⟩
      have := (hiff hle).mp hallowed
      omega
    · intro hle
      have hearly : earliest.toInt ≤ c.timestamp.toInt := by omega
      exact ⟨hearly, (hiff hearly).mpr (by omega)⟩

/-- With every endorsement missing, a block has to wait for 60 and 24 times 8 seconds. -/
theorem baker_agrees_mainnet :
    let b := first_block default_parameters.constants_mainnet
    let c := { b with timestamp := 252 }
    Accepted c 0 b.timestamp 0 ↔
      ∃ time, minimal_valid_time b 0 0 = .ok time ∧ time ≤ c.timestamp := by
  intro b c
  have hconstants : b.constants = c.constants := rfl
  have hearliest : minimal_time c 0 b.timestamp = .ok 60 := rfl
  have htime : In_time c.constants 60 c.timestamp 0 :=
    ⟨by decide, by decide, by decide, by decide, by decide, by decide, by decide⟩
  exact (baker_agrees_iff hconstants (by decide) 0 0 hearliest htime).mpr fun hzero => by cases hzero

theorem baker_disagrees_free :
    let b := first_block { default_parameters.constants_mainnet with
      delay_per_missing_endorsement := 0 }
    let c := { b with timestamp := 60 }
    minimal_valid_time b 0 0 = .ok 60 ∧ ¬ Accepted c 0 b.timestamp 0 := by
  refine ⟨rfl, ?_⟩
  rintro ⟨_, hcheck, hallowed⟩
  cases hcheck
  exact absurd hallowed (by decide)

end plexus.baking
