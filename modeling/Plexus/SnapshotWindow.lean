import Plexus.SeedWindow
import Plexus.Lib.FixedWidth

/-! The snapshots of rolls that are kept, from cycle to cycle. -/

namespace plexus

open List Nat

open Storage.Roll (uint16_to_bytes Snapshot_for_cycle_get_eq_ok_iff)
open Result (bind_inv bind_ok)
open Indexed_data_storage (set_eq_ok_iff init_eq_ok_iff delete_eq_ok_iff)

namespace roll_storage

open level_storage seed_repr constants_storage roll_storage Store

variable {c c' : Context}

/-- What is stored for a cycle: a number, and the snapshots that were taken and
not dropped. -/
structure Kept (c : Context) (cycle : Cycle) (number : Option (Option Nat)) (taken : Nat → Prop) :
    Prop where
  number_eq : c.cycles.roll_snapshot.lookup cycle = number
  last : ∀ j, (c.cycles.last_roll.lookup (cycle, j)).isSome ↔ taken j
  owners : ∀ j, (c.cycles.snapshots.lookup (cycle, j)).isSome ↔ taken j

/-- The snapshot with this index is kept for a cycle. -/
def Frozen (c : Context) (cycle : Cycle) (index : Nat) : Prop :=
  Kept c cycle (some (some index)) (· = index)

/-- This many snapshots were taken for a cycle. -/
def Open (c : Context) (cycle : Cycle) (count : Nat) : Prop :=
  Kept c cycle (some (some count)) (· < count)

/-- Nothing is stored for a cycle. -/
def Absent (c : Context) (cycle : Cycle) : Prop := Kept c cycle none fun _ => False

/-- What is stored for a cycle is what it was. -/
structure Untouched (c c' : Context) (cycle : Cycle) : Prop where
  number : c'.cycles.roll_snapshot.lookup cycle = c.cycles.roll_snapshot.lookup cycle
  last : ∀ j, c'.cycles.last_roll.lookup (cycle, j) = c.cycles.last_roll.lookup (cycle, j)
  owners : ∀ j, c'.cycles.snapshots.lookup (cycle, j) = c.cycles.snapshots.lookup (cycle, j)

theorem Untouched.refl (c : Context) (cycle : Cycle) : Untouched c c cycle :=
  ⟨rfl, fun _ => rfl, fun _ => rfl⟩

variable {cycle : Cycle}

theorem Untouched.trans {c'' : Context} (h : Untouched c c' cycle) (h' : Untouched c' c'' cycle) :
    Untouched c c'' cycle :=
  ⟨h'.number.trans h.number, fun j => (h'.last j).trans (h.last j),
    fun j => (h'.owners j).trans (h.owners j)⟩

variable {number : Option (Option Nat)} {taken : Nat → Prop}

/-- What is kept of a cycle depends on that cycle only. -/
theorem Kept.of_untouched (h : Kept c cycle number taken) (hsame : Untouched c c' cycle) :
    Kept c' cycle number taken := by
  refine ⟨hsame.number.trans h.number_eq, ?_, ?_⟩
  · intro j
    rw [hsame.last]
    exact h.last j
  · intro j
    rw [hsame.owners]
    exact h.owners j

theorem Kept.congr {taken' : Nat → Prop} (h : Kept c cycle number taken)
    (htaken : ∀ j, taken j ↔ taken' j) : Kept c cycle number taken' :=
  ⟨h.number_eq, fun j => (h.last j).trans (htaken j), fun j => (h.owners j).trans (htaken j)⟩

section Taken

variable {V : Type} {s : Store (Cycle × Nat) V} {cycle : Cycle} {taken : Nat → Prop}

theorem taken_put_some (h : ∀ j, (s.lookup (cycle, j)).isSome ↔ taken j) (index : Nat) (v : V)
    (j : Nat) : ((s.put (cycle, index) (some v)).lookup (cycle, j)).isSome ↔ taken j ∨ j = index := by
  by_cases hj : j = index
  · rw [hj, lookup_put_self]
    exact iff_of_true rfl (.inr rfl)
  · have hne : (cycle, j) ≠ (cycle, index) := fun heq => hj (congrArg Prod.snd heq)
    rw [lookup_put_ne _ hne, h, or_iff_left hj]

theorem taken_put_none (h : ∀ j, (s.lookup (cycle, j)).isSome ↔ taken j) (index j : Nat) :
    ((s.put (cycle, index) none).lookup (cycle, j)).isSome ↔ taken j ∧ j ≠ index := by
  by_cases hj : j = index
  · rw [hj, lookup_put_self]
    exact iff_of_false (by simp) (fun h => h.2 rfl)
  · have hne : (cycle, j) ≠ (cycle, index) := fun heq => hj (congrArg Prod.snd heq)
    rw [lookup_put_ne _ hne, h, and_iff_left hj]

/-- Other cycles are not concerned. -/
theorem taken_put_ne {k : Cycle} (hk : k ≠ cycle) (index : Nat) (o : Option V) (j : Nat) :
    (s.put (cycle, index) o).lookup (k, j) = s.lookup (k, j) :=
  lookup_put_ne _ (fun heq => hk (congrArg Prod.fst heq)) _

end Taken

/-! One more snapshot. -/

variable {count : Nat}

/-- One more snapshot is taken for the cycle. -/
theorem snapshot_rolls_for_cycle_success (hopen : Open c cycle count) (hfits : count + 1 < 2 ^ 16)
    (h : snapshot_rolls_for_cycle c cycle = .ok c') :
    Open c' cycle (count + 1) ∧ ∀ k : Nat, k ≠ cycle → Untouched c c' k := by
  obtain ⟨_, hindex, h⟩ := bind_inv h
  rw [Snapshot_for_cycle_get_eq_ok_iff, hopen.number_eq] at hindex
  cases hindex
  obtain ⟨c1, hset, h⟩ := bind_inv h
  rw [set_eq_ok_iff] at hset
  obtain ⟨_, rfl⟩ := hset
  obtain ⟨c2, howner, h⟩ := bind_inv h
  obtain ⟨last, _, h⟩ := bind_inv h
  rw [init_eq_ok_iff] at h
  obtain ⟨_, hc'⟩ := h
  unfold Storage.Roll.Owner_snapshot at howner
  split at howner
  · exact absurd howner fail_ne_ok
  cases howner
  have hnumber : uint16_to_bytes ((count : ℤ) + 1) = some (count + 1) := by
    unfold uint16_to_bytes
    rw [if_pos (by omega)]
    rfl
  have hkept : Kept c' cycle (some (some (count + 1))) fun j => j < count ∨ j = count := by
    rw [hc', ← hnumber]
    exact ⟨lookup_put_self _ _ _, taken_put_some hopen.last count last,
      taken_put_some hopen.owners count c.rolls.owner⟩
  refine ⟨hkept.congr fun j => by omega, ?_⟩
  intro k hk
  rw [hc']
  exact ⟨lookup_put_ne _ hk _, taken_put_ne hk count _, taken_put_ne hk count _⟩

/-! The snapshot of a cycle is dropped. -/

variable {index : Nat}

/-- The calls of `clear_cycle`, for a cycle that has its snapshot. -/
theorem clear_cycle_eq (hfrozen : Frozen c cycle index) : clear_cycle c cycle =
    .ok (Storage.Roll.Owner_delete_snapshot (Storage.Roll.Last_for_snapshot.put
      (Storage.Roll.Snapshot_for_cycle.put c cycle none) (cycle, index) none) (cycle, index)) := by
  have hget : Storage.Roll.Snapshot_for_cycle_get c cycle = .ok index :=
    Storage.Roll.Snapshot_for_cycle_get_eq_ok_iff.mpr hfrozen.number_eq
  have hdelete : Storage.Roll.Snapshot_for_cycle.delete c cycle =
      .ok (Storage.Roll.Snapshot_for_cycle.put c cycle none) :=
    (delete_eq_ok_iff _).mpr ⟨⟨_, hfrozen.number_eq⟩, rfl⟩
  have hlast : Storage.Roll.Last_for_snapshot.delete
      (Storage.Roll.Snapshot_for_cycle.put c cycle none) (cycle, index) =
      .ok (Storage.Roll.Last_for_snapshot.put
        (Storage.Roll.Snapshot_for_cycle.put c cycle none) (cycle, index) none) := by
    refine (delete_eq_ok_iff _).mpr ⟨?_, rfl⟩
    exact Option.isSome_iff_exists.mp ((hfrozen.last index).mpr rfl)
  unfold clear_cycle
  rw [hget, bind_ok, hdelete, bind_ok, hlast, bind_ok]
  rfl

/-- Nothing is left of a cycle that is cleared. -/
theorem clear_cycle_success (hfrozen : Frozen c cycle index) (h : clear_cycle c cycle = .ok c') :
    Absent c' cycle ∧ ∀ k : Nat, k ≠ cycle → Untouched c c' k := by
  rw [clear_cycle_eq hfrozen, Result.ok.injEq] at h
  have hkept : Kept c' cycle none fun j => j = index ∧ j ≠ index := by
    rw [← h]
    exact ⟨lookup_put_self _ _ _, taken_put_none hfrozen.last index,
      taken_put_none hfrozen.owners index⟩
  refine ⟨hkept.congr fun j => by simp, ?_⟩
  intro k hk
  rw [← h]
  exact ⟨lookup_put_ne _ hk _, taken_put_ne hk index _, taken_put_ne hk index _⟩

/-! One snapshot of a cycle is chosen. -/

/-- A round of the loop of `freeze_rolls_for_cycle`. -/
def drop_round (cycle : Cycle) (selected_index : ℤ) (ctxt : Context) (index : Nat) :
    Tzresult Context :=
  if (index : ℤ) = selected_index then pure ctxt
  else
    Storage.Roll.Last_for_snapshot.delete (Storage.Roll.Owner_delete_snapshot ctxt (cycle, index))
      (cycle, index)

variable {selected_index : ℤ}

/-- A round drops one snapshot, unless it is the chosen one. -/
theorem drop_round_success (hkept : Kept c cycle number taken)
    (h : drop_round cycle selected_index c index = .ok c') :
    Kept c' cycle number (fun j => taken j ∧ (j ≠ index ∨ (j : ℤ) = selected_index)) ∧
      ∀ k : Nat, k ≠ cycle → Untouched c c' k := by
  unfold drop_round at h
  split at h
  · next hselected =>
    cases h
    refine ⟨hkept.congr fun j => ?_, fun k _ => .refl c k⟩
    by_cases hj : j = index
    · rw [hj]
      simp [hselected]
    · simp [hj]
  · next hselected =>
    rw [delete_eq_ok_iff] at h
    obtain ⟨_, hc'⟩ := h
    have hdropped : Kept c' cycle number fun j => taken j ∧ j ≠ index := by
      rw [hc']
      exact ⟨hkept.number_eq, taken_put_none hkept.last index, taken_put_none hkept.owners index⟩
    refine ⟨hdropped.congr fun j => ?_, ?_⟩
    · by_cases hj : j = index
      · rw [hj]
        simp [hselected]
      · simp [hj]
    · intro k hk
      rw [hc']
      exact ⟨rfl, taken_put_ne hk index _, taken_put_ne hk index _⟩

/-- All but the chosen snapshot are dropped, by induction on them. -/
theorem drop_all_success {l : List Nat} (hkept : Kept c cycle number taken)
    (h : l.foldlM (drop_round cycle selected_index) c = .ok c') :
    Kept c' cycle number (fun j => taken j ∧ (j ∉ l ∨ (j : ℤ) = selected_index)) ∧
      ∀ k : Nat, k ≠ cycle → Untouched c c' k := by
  induction l generalizing c taken with
  | nil =>
    cases h
    exact ⟨hkept.congr fun j => by simp, fun k _ => .refl _ k⟩
  | cons index l ih =>
    rw [foldlM_cons] at h
    obtain ⟨c1, hround, h⟩ := bind_inv h
    obtain ⟨hkept1, huntouched1⟩ := drop_round_success hkept hround
    obtain ⟨hkept', huntouched'⟩ := ih hkept1 h
    refine ⟨hkept'.congr fun j => ?_, fun k hk => (huntouched1 k hk).trans (huntouched' k hk)⟩
    simp only [mem_cons, not_or]
    tauto

/-- Dropping succeeds where the snapshots are there. -/
theorem drop_all_total {l : List Nat} (hnodup : l.Nodup) (hkept : Kept c cycle number taken)
    (htaken : ∀ j ∈ l, taken j) : ∃ c', l.foldlM (drop_round cycle selected_index) c = .ok c' := by
  induction l generalizing c taken with
  | nil => exact ⟨c, rfl⟩
  | cons index l ih =>
    rw [nodup_cons] at hnodup
    obtain ⟨c1, hround⟩ : ∃ c1, drop_round cycle selected_index c index = .ok c1 := by
      unfold drop_round
      split
      · exact ⟨c, rfl⟩
      · refine ⟨_, (delete_eq_ok_iff _).mpr ⟨?_, rfl⟩⟩
        exact Option.isSome_iff_exists.mp ((hkept.last index).mpr (htaken index mem_cons_self))
    rw [foldlM_cons, hround, bind_ok]
    apply ih hnodup.2 (drop_round_success hkept hround).1
    intro j hj
    refine ⟨htaken j (mem_cons_of_mem index hj), .inl ?_⟩
    rintro rfl
    exact hnodup.1 hj

section Draw

variable [Environment]

omit [Environment] in
theorem toInt_ofNat_count (hfits : count < 2 ^ 16) : (Int32.ofNat count).toInt = count :=
  Int32.toInt_ofNat_of_lt (by omega)

variable {bound : Int32}

/-- The word of a sequence that is read after `n` others. -/
def word (sequence : Sequence) (n : Nat) : Int32 :=
  get_int32 ((fun s => (take s).2)^[n + 1] sequence).bytes

omit [Environment] in
/-- A word that is dropped, so that the next one is read. -/
def Rejected (bound w : Int32) : Prop := Int32.maxValue - Int32.maxValue % bound ≤ int32_abs w

/-- The first word of a sequence that is not dropped is not the least integer, or
the bound divides it. -/
def Fair (bound : Int32) (sequence : Sequence) : Prop :=
  ∀ n, (∀ m < n, Rejected bound (word sequence m)) → word sequence n = Int32.minValue →
    bound.toInt ∣ 2 ^ 31

section Take

variable {sequence sequence' : Sequence} {v : Int32}

/-- The loop returns the remainder of the first word it accepts. -/
theorem take_int32_loop_word {fuel : Nat}
    (h : take_int32_loop bound fuel sequence = .ok (v, sequence')) :
    ∃ n, (∀ m < n, Rejected bound (word sequence m)) ∧ ¬ Rejected bound (word sequence n) ∧
      v = int32_abs (word sequence n) % bound := by
  induction fuel generalizing sequence with
  | zero => cases h
  | succ fuel ih =>
    rw [take_int32_loop] at h
    dsimp only at h
    split at h
    next hrejected =>
      obtain ⟨n, hbefore, haccepted, hv⟩ := ih h
      refine ⟨n + 1, fun m hm => ?_, haccepted, hv⟩
      cases m with
      | zero => exact hrejected
      | succ m => exact hbefore m (lt_of_succ_lt_succ hm)
    next haccepted =>
      cases h
      exact ⟨0, fun _ hm => absurd hm (not_lt_zero _), haccepted, rfl⟩

/-- What is drawn is the remainder of the first word that is not dropped. -/
theorem take_int32_word (h : take_int32 sequence bound = .ok (v, sequence')) :
    0 < bound.toInt ∧ ∃ n, (∀ m < n, Rejected bound (word sequence m)) ∧
      ¬ Rejected bound (word sequence n) ∧
      v.toInt = (int32_abs (word sequence n)).toInt.tmod bound.toInt := by
  unfold take_int32 at h
  split at h
  next => cases h
  next hpos =>
    rw [Int32.not_le, Int32.lt_iff_toInt_lt] at hpos
    obtain ⟨n, hbefore, haccepted, rfl⟩ := take_int32_loop_word h
    exact ⟨hpos, n, hbefore, haccepted, Int32.toInt_mod _ _⟩

/-- What is drawn is below the bound. -/
theorem take_int32_lt (h : take_int32 sequence bound = .ok (v, sequence')) :
    v.toInt < bound.toInt := by
  obtain ⟨hpos, _, _, _, hr⟩ := take_int32_word h
  rw [hr]
  exact Int.tmod_lt_of_pos _ hpos

omit [Environment] in
/-- Only the least integer has a negative absolute value. -/
theorem int32_abs_nonneg {w : Int32} (hw : w ≠ Int32.minValue) : 0 ≤ (int32_abs w).toInt := by
  unfold int32_abs
  split
  · next hneg =>
    rw [Int32.lt_iff_toInt_lt, Int32.toInt_zero] at hneg
    have hlow : -2 ^ 31 ≤ w.toInt := w.le_toInt
    have hne : w.toInt ≠ -2 ^ 31 := fun heq => hw (Int32.toInt_inj.mp heq)
    rw [Int32.toInt_neg, Int.bmod_eq_of_le (by omega) (by omega)]
    omega
  · next hnonneg =>
    rwa [Int32.not_lt, Int32.le_iff_toInt_le] at hnonneg

omit [Environment] in
/-- The least integer is not dropped. -/
theorem not_rejected_minValue (hpos : 0 < bound.toInt) : ¬ Rejected bound Int32.minValue := by
  have hmax : Int32.maxValue.toInt = 2 ^ 31 - 1 := rfl
  have hmin : (int32_abs Int32.minValue).toInt = -2 ^ 31 := by decide
  have hrem : (Int32.maxValue % bound).toInt = (2 ^ 31 - 1) % bound.toInt := by
    rw [Int32.toInt_mod, hmax, Int.tmod_eq_emod_of_nonneg (by decide)]
  have hnonneg := Int.emod_nonneg (2 ^ 31 - 1) hpos.ne'
  have hlt := Int.emod_lt_of_pos (2 ^ 31 - 1) hpos
  have hbound := bound.toInt_lt
  unfold Rejected
  rw [Int32.le_iff_toInt_le, Int32.toInt_sub_exact (by omega) (by omega), hmin]
  omega

/-- What is drawn is in range exactly from a fair sequence. -/
theorem take_int32_range (h : take_int32 sequence bound = .ok (v, sequence')) :
    0 ≤ v.toInt ∧ v.toInt < bound.toInt ↔ Fair bound sequence := by
  have hlt := take_int32_lt h
  obtain ⟨hpos, n, hbefore, haccepted, hv⟩ := take_int32_word h
  -- Only the word that was accepted can be the first one that is not dropped.
  have hfair : Fair bound sequence ↔
      (word sequence n = Int32.minValue → bound.toInt ∣ 2 ^ 31) := by
    refine ⟨fun hfair => hfair n hbefore, fun hn m hm hleast => hn ?_⟩
    have hm' : m = n := by
      rcases lt_trichotomy m n with hlt | heq | hgt
      · exact absurd (hleast ▸ hbefore m hlt) (not_rejected_minValue hpos)
      · exact heq
      · exact absurd (hm n hgt) haccepted
    rw [← hm', hleast]
  rw [hfair]
  by_cases hw : word sequence n = Int32.minValue
  · have hmin : (int32_abs Int32.minValue).toInt = -2 ^ 31 := by decide
    rw [hw, hmin, Int.neg_tmod, Int.tmod_eq_emod_of_nonneg (by decide)] at hv
    have hrem := Int.emod_nonneg (2 ^ 31) hpos.ne'
    simp only [hw, true_imp_iff, Int.dvd_iff_emod_eq_zero]
    omega
  · have hnonneg := Int.tmod_nonneg bound.toInt (int32_abs_nonneg hw)
    simp only [hw, false_imp_iff, iff_true]
    omega

end Take

/-- Where the snapshot of a cycle is drawn from. -/
def snapshot_sequence (seed : seed_repr.Seed) : seed_repr.Sequence :=
  seed_repr.sequence
    (seed_repr.initialize_new seed [seed_repr.bytes_of_string "roll_snapshot"]) 0

/-- What is left to do once the number of snapshots and the seed are read. -/
theorem freeze_rolls_for_cycle_eq (hopen : Open c cycle count) {seed : Seed}
    (hseed : c.cycles.random_seed.lookup cycle = some seed) :
    freeze_rolls_for_cycle c cycle = (do
      let draw ← take_int32 (snapshot_sequence seed) (Int32.ofNat count)
      (range count).foldlM (drop_round cycle draw.1.toInt)
        (Storage.Roll.Snapshot_for_cycle.put c cycle (some (uint16_to_bytes draw.1.toInt)))) := by
  have hget : Storage.Roll.Snapshot_for_cycle_get c cycle = .ok count :=
    Snapshot_for_cycle_get_eq_ok_iff.mpr hopen.number_eq
  have hget_seed : Storage.Seed.For_cycle.get c cycle = .ok seed :=
    (Indexed_data_storage.get_eq_ok_iff _).mpr hseed
  have hset : ∀ number, Storage.Roll.Snapshot_for_cycle.set c cycle number =
      .ok (Storage.Roll.Snapshot_for_cycle.put c cycle (some number)) :=
    fun _ => (set_eq_ok_iff _).mpr ⟨⟨_, hopen.number_eq⟩, rfl⟩
  unfold freeze_rolls_for_cycle
  simp only [hget, hget_seed, hset, bind_ok]
  rfl

omit [Environment] in
theorem Open.choose (h : Open c cycle count) (number : Option Nat) :
    Kept (Storage.Roll.Snapshot_for_cycle.put c cycle (some number)) cycle (some number)
      (· < count) :=
  ⟨lookup_put_self _ _ _, h.last, h.owners⟩

/-- The snapshot that is drawn is kept, if there is one with that number. -/
theorem freeze_rolls_for_cycle_success (hopen : Open c cycle count)
    (h : freeze_rolls_for_cycle c cycle = .ok c') :
    ∃ seed selected sequence, c.cycles.random_seed.lookup cycle = some seed ∧
      take_int32 (snapshot_sequence seed) (Int32.ofNat count) =
        .ok (selected, sequence) ∧
      Kept c' cycle (some (uint16_to_bytes selected.toInt))
        (fun j => j < count ∧ (j : ℤ) = selected.toInt) ∧
      ∀ k : Nat, k ≠ cycle → Untouched c c' k := by
  obtain ⟨_, _, hseed⟩ := bind_inv h
  obtain ⟨seed, hseed, _⟩ := bind_inv hseed
  rw [Indexed_data_storage.get_eq_ok_iff] at hseed
  rw [freeze_rolls_for_cycle_eq hopen hseed] at h
  obtain ⟨⟨selected, sequence⟩, hdraw, h⟩ := bind_inv h
  obtain ⟨hkept', huntouched'⟩ := drop_all_success (hopen.choose _) h
  refine ⟨seed, selected, sequence, hseed, hdraw, hkept'.congr fun j => ?_, ?_⟩
  · rw [mem_range]
    tauto
  · intro k hk
    refine .trans ?_ (huntouched' k hk)
    exact ⟨lookup_put_ne _ hk _, fun _ => rfl, fun _ => rfl⟩

/-- The snapshot that is kept is one of those that were taken when the draw is
fair. -/
theorem freeze_rolls_for_cycle_frozen (hopen : Open c cycle count) (hfits : count < 2 ^ 16)
    (hfair : ∀ seed, c.cycles.random_seed.lookup cycle = some seed →
      Fair (Int32.ofNat count) (snapshot_sequence seed)) (h : freeze_rolls_for_cycle c cycle = .ok c') :
    (∃ index, Frozen c' cycle index) ∧ ∀ k : Nat, k ≠ cycle → Untouched c c' k := by
  obtain ⟨seed, selected, sequence, hseed, htake, hkept, huntouched⟩ :=
    freeze_rolls_for_cycle_success hopen h
  obtain ⟨hnonneg, hlt⟩ := (take_int32_range htake).mpr (hfair seed hseed)
  rw [toInt_ofNat_count hfits] at hlt
  have hnumber : uint16_to_bytes selected.toInt = some selected.toInt.toNat := by
    exact if_pos (by omega)
  rw [hnumber] at hkept
  refine ⟨⟨selected.toInt.toNat, hkept.congr fun j => ?_⟩, huntouched⟩
  omega

/-- With a seed and a snapshot the choice can only fail to end. -/
theorem freeze_rolls_for_cycle_total (hopen : Open c cycle count) (hpos : 0 < count)
    (hfits : count < 2 ^ 16) (hseed : (c.cycles.random_seed.lookup cycle).isSome) :
    freeze_rolls_for_cycle c cycle = .div ∨ ∃ c', freeze_rolls_for_cycle c cycle = .ok c' := by
  obtain ⟨seed, hseed⟩ := Option.isSome_iff_exists.mp hseed
  have hbound : 0 < (Int32.ofNat count).toInt := by
    rw [toInt_ofNat_count hfits]
    exact Int.natCast_pos.mpr hpos
  rw [freeze_rolls_for_cycle_eq hopen hseed]
  rcases take_int32_cases (snapshot_sequence seed) (Int32.ofNat count) with
    ⟨_, hle⟩ | ⟨_, hdiv | ⟨selected, sequence, hdraw, _⟩⟩
  · exact absurd hbound (not_lt.mpr hle)
  · left
    rw [hdiv]
    rfl
  · right
    rw [hdraw, bind_ok]
    exact drop_all_total nodup_range (hopen.choose _) fun j hj => mem_range.mp hj

end Draw

/-! The snapshots of all cycles. -/

/-- The levels of a cycle, below a bound, at which a snapshot is taken. The genesis
block takes none. -/
def snapshot_levels (c : Context) (cycle : Nat) (bound : Raw_level) : Finset Raw_level :=
  (Finset.range bound).filter fun l => c.first_level < l ∧ (from_raw c l).cycle = cycle ∧
    (from_raw c l).cycle_position % c.constants.blocks_per_roll_snapshot + 1 =
      c.constants.blocks_per_roll_snapshot

/-- The number of snapshots taken for a cycle at levels below a bound. One is
taken by the genesis block for the first cycle without a chosen snapshot. -/
def snapshots_taken (c : Context) (cycle : Nat) (bound : Raw_level) : Nat :=
  if cycle = c.constants.preserved_cycles + 1 then 1
  else (snapshot_levels c (cycle - (c.constants.preserved_cycles + 2)) bound).card

/-- The number of snapshots that one is drawn from for a cycle: the genesis block
takes one for each of the first cycles, and later ones are taken two cycles before
those that the draw is ahead. -/
def snapshots_for (c : Context) (cycle : Nat) : Nat :=
  if cycle ≤ c.constants.preserved_cycles + 1 then 1
  else (snapshot_levels c (cycle - (c.constants.preserved_cycles + 2))
    (first_level_in_cycle c (cycle - (c.constants.preserved_cycles + 1))).level).card

/-- What is stored in the blocks of cycle `n`, after the snapshots of levels below
a bound. -/
structure Snapshot_window (c : Context) (n : Nat) (bound : Raw_level) : Prop where
  before : ∀ k : Nat, k < n - c.constants.preserved_cycles → Absent c k
  frozen : ∀ k : Nat, n - c.constants.preserved_cycles ≤ k → k ≤ n + c.constants.preserved_cycles →
    ∃ index, Frozen c k index
  opened : ∀ k : Nat, k = n + c.constants.preserved_cycles + 1 ∨
    k = n + c.constants.preserved_cycles + 2 → Open c k (snapshots_taken c k bound)
  after : ∀ k : Nat, n + c.constants.preserved_cycles + 2 < k → Absent c k

/-- Every cycle has a level at which a snapshot is taken. -/
def Snapshot_every_cycle (constants : Constants) : Prop :=
  ∀ cycle, ∃ position, 0 < position ∧ position / constants.blocks_per_cycle = cycle ∧
    position % constants.blocks_per_cycle % constants.blocks_per_roll_snapshot + 1 =
      constants.blocks_per_roll_snapshot

/-- The number of snapshots taken in a cycle fits into 16 bits. -/
def Snapshots_fit (constants : Constants) : Prop :=
  ((Finset.range constants.blocks_per_cycle).filter fun position =>
    position % constants.blocks_per_roll_snapshot + 1 =
      constants.blocks_per_roll_snapshot).card < 2 ^ 16

theorem Snapshot_every_cycle.blocks_per_cycle_pos {constants : Constants}
    (h : Snapshot_every_cycle constants) : 0 < constants.blocks_per_cycle := by
  obtain ⟨_, _, hcycle, _⟩ := h 1
  by_contra hzero
  rw [Nat.eq_zero_of_not_pos hzero, Nat.div_zero] at hcycle
  cases hcycle

/-- The first cycle has more levels than the genesis block. -/
theorem Snapshot_every_cycle.two_le {constants : Constants} (h : Snapshot_every_cycle constants) :
    2 ≤ constants.blocks_per_cycle := by
  obtain ⟨_, _, hcycle, _⟩ := h 0
  have hlt := (div_eq_zero_iff_lt h.blocks_per_cycle_pos).mp hcycle
  omega

/-- The snapshots of a cycle can be counted in 16 bits. -/
theorem card_snapshot_levels_lt (hfit : Snapshots_fit c.constants)
    (hpos : 0 < c.constants.blocks_per_cycle) (cycle : Nat) (bound : Raw_level) :
    (snapshot_levels c cycle bound).card < 2 ^ 16 := by
  refine lt_of_le_of_lt ?_ hfit
  apply Finset.card_le_card_of_injOn fun l => (from_raw c l).cycle_position
  · intro l hl
    rw [Finset.mem_coe, snapshot_levels, Finset.mem_filter] at hl
    rw [Finset.mem_coe, Finset.mem_filter, Finset.mem_range]
    exact ⟨mod_lt _ hpos, hl.2.2.2⟩
  · intro l hl l' hl' heq
    rw [Finset.mem_coe, snapshot_levels, Finset.mem_filter] at hl hl'
    have hlevel : from_raw c l = from_raw c l' := by
      dsimp only at heq
      rw [eq_level_at hl.2.1.le, eq_level_at hl'.2.1.le, hl.2.2.1, hl'.2.2.1, heq]
    exact congrArg Level.level hlevel

theorem snapshots_taken_lt (hfit : Snapshots_fit c.constants)
    (hpos : 0 < c.constants.blocks_per_cycle) (cycle : Nat) (bound : Raw_level) :
    snapshots_taken c cycle bound < 2 ^ 16 := by
  unfold snapshots_taken
  split
  · decide
  · exact card_snapshot_levels_lt hfit hpos _ _

variable {bound : Raw_level} {n : Nat}

/-- A cycle is over with at least one snapshot. -/
theorem snapshots_taken_pos (hevery : Snapshot_every_cycle c.constants)
    (hbound : ∀ l, (from_raw c l).cycle < n → l < bound) :
    0 < snapshots_taken c (n + c.constants.preserved_cycles + 1) bound := by
  unfold snapshots_taken
  cases n with
  | zero =>
    rw [zero_add, if_pos rfl]
    exact one_pos
  | succ n =>
    rw [if_neg (by omega), Finset.card_pos]
    obtain ⟨position, hpos, hcycle, hsnapshot⟩ := hevery n
    have hposition : c.first_level + position - c.first_level = position :=
      Nat.add_sub_cancel_left _ _
    have hindex : n + 1 + c.constants.preserved_cycles + 1 - (c.constants.preserved_cycles + 2) =
        n := by omega
    refine ⟨c.first_level + position, ?_⟩
    rw [hindex]
    unfold snapshot_levels
    rw [Finset.mem_filter, Finset.mem_range, cycle_from_raw, cycle_position_from_raw, hposition]
    refine ⟨hbound _ ?_, Nat.lt_add_of_pos_right hpos, hcycle, hsnapshot⟩
    rw [cycle_from_raw, hposition, hcycle]
    exact lt_succ_self n

/-- All snapshots that one is drawn from are taken when the cycle before is over. -/
theorem snapshots_taken_eq (hpos : 0 < c.constants.blocks_per_cycle)
    (hbound : ∀ l, (from_raw c l).cycle < n → l < bound) :
    snapshots_taken c (n + c.constants.preserved_cycles + 1) bound =
      snapshots_for c (n + c.constants.preserved_cycles + 1) := by
  unfold snapshots_taken snapshots_for
  cases n with
  | zero => rw [zero_add, if_pos rfl, if_pos (le_refl _)]
  | succ n =>
    rw [if_neg (by omega), if_neg (by omega)]
    have hlast : n + 1 + c.constants.preserved_cycles + 1 - (c.constants.preserved_cycles + 2) =
        n := by omega
    have hnext : n + 1 + c.constants.preserved_cycles + 1 - (c.constants.preserved_cycles + 1) =
        n + 1 := by omega
    rw [hlast, hnext]
    congr 1
    ext l
    unfold snapshot_levels
    rw [Finset.mem_filter, Finset.mem_filter, Finset.mem_range, Finset.mem_range,
      show (first_level_in_cycle c (n + 1)).level =
        c.first_level + c.constants.blocks_per_cycle * (n + 1) from rfl]
    refine and_congr_left fun ⟨hfirst, hcycle, _⟩ => iff_of_true (hbound l ?_) ?_
    · rw [hcycle]
      exact lt_succ_self n
    · rw [cycle_from_raw] at hcycle
      have hlt := Nat.lt_mul_div_succ (l - c.first_level) hpos
      rw [hcycle] at hlt
      omega

variable {l : Raw_level}

/-- The snapshot of a level that is not the genesis level. -/
theorem snapshot_levels_succ (hfirst : c.first_level < l) (cycle : Nat) :
    (snapshot_levels c cycle (l + 1)).card = (snapshot_levels c cycle l).card +
      if (from_raw c l).cycle = cycle ∧ (from_raw c l).cycle_position %
        c.constants.blocks_per_roll_snapshot + 1 = c.constants.blocks_per_roll_snapshot
      then 1 else 0 := by
  unfold snapshot_levels
  rw [Finset.range_add_one, Finset.filter_insert]
  by_cases htakes : (from_raw c l).cycle = cycle ∧ (from_raw c l).cycle_position %
      c.constants.blocks_per_roll_snapshot + 1 = c.constants.blocks_per_roll_snapshot
  · rw [if_pos ⟨hfirst, htakes⟩, if_pos htakes, Finset.card_insert_of_notMem (by simp)]
  · rw [if_neg (fun h => htakes h.2), if_neg htakes, add_zero]

/-- A level adds a snapshot to the cycle it is taken for. -/
theorem snapshots_taken_succ (hfirst : c.first_level < l) {cycle : Nat}
    (hcycle : c.constants.preserved_cycles + 1 ≤ cycle) :
    snapshots_taken c cycle (l + 1) = snapshots_taken c cycle l +
      if (from_raw c l).cycle + c.constants.preserved_cycles + 2 = cycle ∧
        (from_raw c l).cycle_position % c.constants.blocks_per_roll_snapshot + 1 =
          c.constants.blocks_per_roll_snapshot
      then 1 else 0 := by
  have hlater : ∀ n : Nat, n + c.constants.preserved_cycles + 2 ≠ c.constants.preserved_cycles + 1 := by
    omega
  have hiff : ∀ n : Nat, cycle ≠ c.constants.preserved_cycles + 1 →
      (n = cycle - (c.constants.preserved_cycles + 2) ↔
        n + c.constants.preserved_cycles + 2 = cycle) := by
    omega
  unfold snapshots_taken
  by_cases hgenesis : cycle = c.constants.preserved_cycles + 1
  · rw [if_pos hgenesis, if_pos hgenesis, if_neg]
    rintro ⟨heq, _⟩
    exact hlater _ (heq.trans hgenesis)
  · rw [if_neg hgenesis, if_neg hgenesis, snapshot_levels_succ hfirst]
    simp only [hiff _ hgenesis]

/-- The window is moved by what is written for one cycle. -/
theorem Snapshot_window.may_snapshot_roll (h : Snapshot_window c n l)
    (hlevel : c.level = from_raw c l) (hn : c.level.cycle = n) (hfirst : c.first_level < l)
    (hfit : Snapshots_fit c.constants) (hpos : 0 < c.constants.blocks_per_cycle)
    (hsnapshot : apply.may_snapshot_roll c = .ok c') : Snapshot_window c' n (l + 1) := by
  have honly := apply.may_snapshot_roll_only hsnapshot
  have hconstants : c'.constants = c.constants := by
    rw [honly]
    rfl
  have htaken k : snapshots_taken c' k (l + 1) = snapshots_taken c k (l + 1) := by
    rw [honly]
    rfl
  have hlt := snapshots_taken_lt hfit hpos (n + c.constants.preserved_cycles + 2) (l + 1)
  have hsucc (k : Nat) (hk : c.constants.preserved_cycles + 1 ≤ k) : snapshots_taken c k (l + 1) =
      snapshots_taken c k l + if n + c.constants.preserved_cycles + 2 = k ∧ c.level.cycle_position %
      c.constants.blocks_per_roll_snapshot + 1 = c.constants.blocks_per_roll_snapshot then 1 else
      0 := by
    rw [snapshots_taken_succ hfirst hk, ← hlevel, hn]
  unfold apply.may_snapshot_roll at hsnapshot
  dsimp only [level_storage.current, raw_context.current_level] at hsnapshot
  split at hsnapshot
  · next htakes =>
    unfold snapshot_rolls at hsnapshot
    dsimp only [raw_context.current_level] at hsnapshot
    have hcycle : cycle_repr.add c.level.cycle (preserved_cycles c + 2) =
        n + c.constants.preserved_cycles + 2 := by
      rw [hn]
      rfl
    rw [hcycle] at hsnapshot
    have hcount := hsucc (n + c.constants.preserved_cycles + 2) (by omega)
    rw [if_pos ⟨rfl, htakes⟩] at hcount
    rw [hcount] at hlt
    obtain ⟨hopen, huntouched⟩ :=
      snapshot_rolls_for_cycle_success (h.opened _ (.inr rfl)) hlt hsnapshot
    refine ⟨?_, ?_, ?_, ?_⟩ <;> rw [hconstants]
    · intro k hk
      exact (h.before k hk).of_untouched (huntouched k (by omega))
    · intro k hlow hhigh
      obtain ⟨index, hfrozen⟩ := h.frozen k hlow hhigh
      exact ⟨index, hfrozen.of_untouched (huntouched k (by omega))⟩
    · intro k hk
      rw [htaken]
      by_cases hlast : k = n + c.constants.preserved_cycles + 2
      · rw [hlast, hcount]
        exact hopen
      · rw [hsucc k (by omega), if_neg (fun heq => hlast heq.1.symm)]
        exact (h.opened k hk).of_untouched (huntouched k hlast)
    · intro k hk
      exact (h.after k hk).of_untouched (huntouched k (by omega))
  · next htakes =>
    cases hsnapshot
    refine ⟨h.before, h.frozen, ?_, h.after⟩
    intro k hk
    rw [hsucc k (by omega), if_neg (fun heq => htakes heq.2)]
    exact h.opened k hk

/-! The end of a cycle. -/

/-- A cycle is opened without snapshots. -/
theorem init_opened (habsent : Absent c cycle)
    (h : Storage.Roll.Snapshot_for_cycle.init c cycle (uint16_to_bytes 0) = .ok c') :
    Open c' cycle 0 ∧ ∀ k : Nat, k ≠ cycle → Untouched c c' k := by
  rw [init_eq_ok_iff] at h
  obtain ⟨_, hc'⟩ := h
  have hkept : Kept c' cycle (some (some 0)) fun _ => False := by
    rw [hc']
    exact ⟨lookup_put_self _ _ _, habsent.last, habsent.owners⟩
  refine ⟨hkept.congr fun j => by simp, ?_⟩
  intro k hk
  rw [hc']
  exact ⟨lookup_put_ne _ hk _, fun _ => rfl, fun _ => rfl⟩

section Ends

variable [Environment]

omit [Environment] in
/-- The oldest cycle of the window is cleared. -/
theorem Snapshot_window.clear (h : Snapshot_window c n bound) {c1 : Context}
    (hclear : Cleared c n c1) :
    c1.cycles.random_seed = c.cycles.random_seed ∧
      (∀ k : Nat, k < n + 1 - c.constants.preserved_cycles → Absent c1 k) ∧
      ∀ k : Nat, n + 1 - c.constants.preserved_cycles ≤ k → Untouched c c1 k := by
  rcases hclear with ⟨hyoung, rfl⟩ | ⟨hold, hclear⟩
  · exact ⟨rfl, fun k hk => by omega, fun k _ => .refl c1 k⟩
  · obtain ⟨_, hfrozen⟩ := h.frozen _ (le_refl _) (by omega)
    obtain ⟨habsent, huntouched⟩ := clear_cycle_success hfrozen hclear
    refine ⟨by rw [clear_cycle_only hclear]; rfl, ?_, fun k hk => huntouched k (by omega)⟩
    intro k hk
    by_cases heq : k = n - c.constants.preserved_cycles
    · rw [heq]
      exact habsent
    · exact (h.before k (by omega)).of_untouched (huntouched k heq)

omit [Environment] in
/-- No snapshot was taken yet for a cycle that is far away. -/
theorem snapshots_taken_zero (hbound : ∀ l, l < bound → (from_raw c l).cycle ≤ n) :
    snapshots_taken c (n + c.constants.preserved_cycles + 3) bound = 0 := by
  have hindex : n + c.constants.preserved_cycles + 3 - (c.constants.preserved_cycles + 2) =
      n + 1 := by omega
  unfold snapshots_taken
  rw [if_neg (by omega), Finset.card_eq_zero, hindex]
  apply Finset.filter_eq_empty_iff.mpr
  rintro l hl ⟨_, hcycle, _⟩
  have hle := hbound l (Finset.mem_range.mp hl)
  rw [hcycle] at hle
  exact absurd hle (not_succ_le_self n)

/-- A cycle end moves the window of snapshots on by one, if the draw is fair. -/
theorem Snapshot_window.cycle_end (h : Snapshot_window c n bound)
    (hbound : ∀ l, l < bound → (from_raw c l).cycle ≤ n) (hfit : Snapshots_fit c.constants)
    (hpos : 0 < c.constants.blocks_per_cycle)
    (hfair : ∀ seed, c.cycles.random_seed.lookup (n + c.constants.preserved_cycles + 1) = some seed →
      Fair (Int32.ofNat (snapshots_taken c (n + c.constants.preserved_cycles + 1) bound))
        (snapshot_sequence seed)) (hend : cycle_end c n = .ok c') :
    Snapshot_window c' (n + 1) bound := by
  have honly := cycle_end_only hend
  have hconstants : c'.constants = c.constants := by
    rw [honly]
    rfl
  have htaken k : snapshots_taken c' k bound = snapshots_taken c k bound := by
    rw [honly]
    rfl
  obtain ⟨c1, c2, hclear, hfreeze, hinit⟩ := cycle_end_success hend
  obtain ⟨hseeds1, hbefore1, huntouched1⟩ := h.clear hclear
  have hopen1 := (h.opened _ (.inl rfl)).of_untouched (huntouched1 _ (by omega))
  rw [← hseeds1] at hfair
  obtain ⟨⟨index, hfrozen2⟩, huntouched2⟩ := freeze_rolls_for_cycle_frozen hopen1
    (snapshots_taken_lt hfit hpos _ _) hfair hfreeze
  have habsent2 : Absent c2 (n + c.constants.preserved_cycles + 3) :=
    ((h.after _ (by omega)).of_untouched (huntouched1 _ (by omega))).of_untouched
      (huntouched2 _ (by omega))
  obtain ⟨hopen', huntouched'⟩ := init_opened habsent2 hinit
  refine ⟨?_, ?_, ?_, ?_⟩ <;> rw [hconstants]
  · intro k hk
    exact ((hbefore1 k hk).of_untouched (huntouched2 k (by omega))).of_untouched
      (huntouched' k (by omega))
  · intro k hlow hhigh
    by_cases hnew : k = n + c.constants.preserved_cycles + 1
    · rw [hnew]
      exact ⟨index, hfrozen2.of_untouched (huntouched' _ (by omega))⟩
    · obtain ⟨index', hfrozen⟩ := h.frozen k (by omega) (by omega)
      exact ⟨index', ((hfrozen.of_untouched (huntouched1 k hlow)).of_untouched
        (huntouched2 k hnew)).of_untouched (huntouched' k (by omega))⟩
  · intro k hk
    rw [htaken]
    by_cases hlast : k = n + c.constants.preserved_cycles + 3
    · rw [hlast, snapshots_taken_zero hbound]
      exact hopen'
    · exact (((h.opened k (by omega)).of_untouched (huntouched1 k (by omega))).of_untouched
        (huntouched2 k (by omega))).of_untouched (huntouched' k hlast)
  · intro k hk
    exact (((h.after k (by omega)).of_untouched (huntouched1 k (by omega))).of_untouched
      (huntouched2 k (by omega))).of_untouched (huntouched' k (by omega))

/-- No key is missing or exists already at the end of a cycle. -/
theorem cycle_end_total (h : Snapshot_window c n bound)
    (hpreserved : 0 < c.constants.preserved_cycles) (hevery : Snapshot_every_cycle c.constants)
    (hfit : Snapshots_fit c.constants) (hbound : ∀ l, (from_raw c l).cycle < n → l < bound)
    (hseed : (c.cycles.random_seed.lookup (n + c.constants.preserved_cycles + 1)).isSome) :
    cycle_end c n = .div ∨ ∃ c', cycle_end c n = .ok c' := by
  have hsub : cycle_repr.sub n c.constants.preserved_cycles =
      .ok (if n < c.constants.preserved_cycles then none
        else some (n - c.constants.preserved_cycles)) :=
    cycle_repr.sub_eq_ok_iff.mpr ⟨hpreserved, rfl⟩
  obtain ⟨c1, hclear, heq⟩ : ∃ c1, Cleared c n c1 ∧
      cycle_end c n = (do
        let c2 ← freeze_rolls_for_cycle c1 (n + c.constants.preserved_cycles + 1)
        Storage.Roll.Snapshot_for_cycle.init c2 (n + c.constants.preserved_cycles + 3)
          (uint16_to_bytes 0)) := by
    unfold cycle_end
    simp only [preserved_cycles, hsub, bind_ok]
    by_cases hyoung : n < c.constants.preserved_cycles
    · refine ⟨c, .inl ⟨hyoung, rfl⟩, ?_⟩
      rw [if_pos hyoung]
      rfl
    · obtain ⟨_, hfrozen⟩ := h.frozen _ (le_refl _) (by omega)
      refine ⟨_, .inr ⟨not_lt.mp hyoung, clear_cycle_eq hfrozen⟩, ?_⟩
      rw [if_neg hyoung]
      dsimp only
      rw [clear_cycle_eq hfrozen]
      rfl
  obtain ⟨hseeds1, _, huntouched1⟩ := h.clear hclear
  have hopen1 := (h.opened _ (.inl rfl)).of_untouched (huntouched1 _ (by omega))
  rw [← hseeds1] at hseed
  rw [heq]
  rcases freeze_rolls_for_cycle_total hopen1 (snapshots_taken_pos hevery hbound)
    (snapshots_taken_lt hfit hevery.blocks_per_cycle_pos _ _) hseed with hdiv | ⟨c2, hfreeze⟩
  · left
    rw [hdiv]
    rfl
  · right
    obtain ⟨_, _, _, _, _, _, huntouched2⟩ := freeze_rolls_for_cycle_success hopen1 hfreeze
    have habsent2 : Absent c2 (n + c.constants.preserved_cycles + 3) :=
      ((h.after _ (by omega)).of_untouched (huntouched1 _ (by omega))).of_untouched
        (huntouched2 _ (by omega))
    rw [hfreeze, bind_ok]
    exact ⟨_, (init_eq_ok_iff _).mpr ⟨habsent2.number_eq, rfl⟩⟩

/-! The genesis block. -/

/-- A cycle with one snapshot needs no draw. -/
theorem first_cycle_frozen (habsent : Absent c cycle) {c1 c2 : Context}
    (hinit : Storage.Roll.Snapshot_for_cycle.init c cycle (uint16_to_bytes 0) = .ok c1)
    (hsnapshot : snapshot_rolls_for_cycle c1 cycle = .ok c2)
    (hfreeze : freeze_rolls_for_cycle c2 cycle = .ok c') :
    (∃ index, Frozen c' cycle index) ∧ ∀ k : Nat, k ≠ cycle → Untouched c c' k := by
  obtain ⟨hopen1, huntouched1⟩ := init_opened habsent hinit
  obtain ⟨hopen2, huntouched2⟩ := snapshot_rolls_for_cycle_success hopen1 (by decide) hsnapshot
  have hfair seed (_ : c2.cycles.random_seed.lookup cycle = some seed) :
      Fair (Int32.ofNat (0 + 1)) (snapshot_sequence seed) :=
    fun _ _ _ => one_dvd _
  obtain ⟨hfrozen, huntouched⟩ := freeze_rolls_for_cycle_frozen hopen2 (by decide) hfair hfreeze
  exact ⟨hfrozen, fun k hk => ((huntouched1 k hk).trans (huntouched2 k hk)).trans (huntouched k hk)⟩

/-- The cycles of the first block. -/
theorem init_first_cycles_success (hempty : ∀ k, Absent c k) (h : init_first_cycles c = .ok c') :
    (∀ k : Nat, k ≤ c.constants.preserved_cycles → ∃ index, Frozen c' k index) ∧
      Open c' (c.constants.preserved_cycles + 1) 1 ∧
      Open c' (c.constants.preserved_cycles + 2) 0 ∧
      ∀ k : Nat, c.constants.preserved_cycles + 2 < k → Absent c' k := by
  obtain ⟨c1, hfold, h⟩ := bind_inv h
  obtain ⟨c2, hinit2, h⟩ := bind_inv h
  obtain ⟨c3, hsnapshot, hinit'⟩ := bind_inv h
  have hrounds : ∀ (l : List Nat) (c0 : Context), l.Nodup → (∀ k ∈ l, Absent c0 k) →
      l.foldlM (fun ctxt cycle => do
        let ctxt ← Storage.Roll.Snapshot_for_cycle.init ctxt cycle (uint16_to_bytes 0)
        let ctxt ← snapshot_rolls_for_cycle ctxt cycle
        freeze_rolls_for_cycle ctxt cycle) c0 = .ok c1 →
      (∀ k ∈ l, ∃ index, Frozen c1 k index) ∧ ∀ k : Nat, k ∉ l → Untouched c0 c1 k := by
    intro l
    induction l with
    | nil =>
      intro c0 _ _ hfold
      cases hfold
      exact ⟨by simp, fun k _ => .refl c1 k⟩
    | cons cycle l ih =>
      intro c0 hnodup habsent hfold
      rw [nodup_cons] at hnodup
      rw [foldlM_cons] at hfold
      obtain ⟨c4, hround, hfold⟩ := bind_inv hfold
      obtain ⟨c5, hinit, hround⟩ := bind_inv hround
      obtain ⟨c6, hsnapshot, hfreeze⟩ := bind_inv hround
      obtain ⟨⟨index, hfrozen⟩, huntouched⟩ :=
        first_cycle_frozen (habsent cycle mem_cons_self) hinit hsnapshot hfreeze
      have habsent4 k (hk : k ∈ l) : Absent c4 k := by
        refine (habsent k (mem_cons_of_mem cycle hk)).of_untouched (huntouched k ?_)
        rintro rfl
        exact hnodup.1 hk
      obtain ⟨hfrozen1, huntouched1⟩ := ih c4 hnodup.2 habsent4 hfold
      constructor
      · rw [forall_mem_cons]
        exact ⟨⟨index, hfrozen.of_untouched (huntouched1 _ hnodup.1)⟩, hfrozen1⟩
      · intro k hk
        rw [mem_cons, not_or] at hk
        exact (huntouched k hk.1).trans (huntouched1 k hk.2)
  obtain ⟨hfrozen1, huntouched1⟩ := hrounds _ c nodup_range (fun k _ => hempty k) hfold
  have habsent1 (k : Nat) (hk : c.constants.preserved_cycles < k) : Absent c1 k := by
    refine (hempty k).of_untouched (huntouched1 k ?_)
    rw [mem_range, preserved_cycles]
    omega
  have hfrozen1' : ∀ k : Nat, k ≤ c.constants.preserved_cycles → ∃ index, Frozen c1 k index :=
    fun k hk => hfrozen1 k (mem_range.mpr (lt_succ_of_le hk))
  unfold preserved_cycles at hinit2 hsnapshot hinit'
  obtain ⟨hopen2, huntouched2⟩ := init_opened (habsent1 _ (by omega)) hinit2
  obtain ⟨hopen3, huntouched3⟩ := snapshot_rolls_for_cycle_success hopen2 (by decide) hsnapshot
  have habsent3 (k : Nat) (hk : c.constants.preserved_cycles + 1 < k) : Absent c3 k := by
    exact ((habsent1 k (by omega)).of_untouched (huntouched2 k (by omega))).of_untouched
      (huntouched3 k (by omega))
  obtain ⟨hopen', huntouched'⟩ := init_opened (habsent3 _ (by omega)) hinit'
  refine ⟨?_, hopen3.of_untouched (huntouched' _ (by omega)), hopen', ?_⟩
  · intro k hk
    obtain ⟨index, hfrozen⟩ := hfrozen1' k hk
    exact ⟨index, ((hfrozen.of_untouched (huntouched2 k (by omega))).of_untouched
      (huntouched3 k (by omega))).of_untouched (huntouched' k (by omega))⟩
  · intro k hk
    exact (habsent3 k (by omega)).of_untouched (huntouched' k (by omega))

end Ends

end roll_storage

end plexus
