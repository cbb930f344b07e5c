import Mathlib.Data.List.Nodup
import Mathlib.Data.Nat.ModEq
import Plexus.Baking

/-! Levels and the cycles they belong to. -/

namespace plexus.level_storage

open List Nat

variable {c : Context} {l : Raw_level}

theorem cycle_from_raw (c : Context) (l : Raw_level) :
    (from_raw c l).cycle = (l - c.first_level) / c.constants.blocks_per_cycle := rfl

theorem cycle_position_from_raw (c : Context) (l : Raw_level) :
    (from_raw c l).cycle_position = (l - c.first_level) % c.constants.blocks_per_cycle := rfl

/-- A level is the last of its cycle if the next one starts a cycle. -/
theorem last_of_a_cycle_iff (hfirst : c.first_level ≤ l) :
    baking.last_of_a_cycle c (from_raw c l) = true ↔
      c.constants.blocks_per_cycle ∣ l + 1 - c.first_level := by
  unfold baking.last_of_a_cycle
  rw [decide_eq_true_eq, cycle_position_from_raw, Nat.sub_add_comm hfirst]
  cases c.constants.blocks_per_cycle with
  | zero => simp
  | succ n => rw [dvd_iff_mod_eq_zero, succ_mod_succ_eq_zero_iff, add_right_cancel_iff]

/-- After the last level of a cycle the next one begins. -/
theorem cycle_succ_of_last (hfirst : c.first_level ≤ l)
    (hlast : baking.last_of_a_cycle c (from_raw c l) = true) :
    (from_raw c (l + 1)).cycle = (from_raw c l).cycle + 1 := by
  rw [last_of_a_cycle_iff hfirst, Nat.sub_add_comm hfirst] at hlast
  rw [cycle_from_raw, cycle_from_raw, Nat.sub_add_comm hfirst]
  exact succ_div_of_dvd hlast

/-- Other levels are followed by one of the same cycle. -/
theorem cycle_succ_of_not_last (hfirst : c.first_level ≤ l)
    (hlast : baking.last_of_a_cycle c (from_raw c l) = false) :
    (from_raw c (l + 1)).cycle = (from_raw c l).cycle := by
  rw [← Bool.not_eq_true, last_of_a_cycle_iff hfirst, Nat.sub_add_comm hfirst] at hlast
  rw [cycle_from_raw, cycle_from_raw, Nat.sub_add_comm hfirst]
  exact succ_div_of_not_dvd hlast

theorem cycle_mono {l' : Raw_level} (h : l ≤ l') :
    (from_raw c l).cycle ≤ (from_raw c l').cycle := by
  rw [cycle_from_raw, cycle_from_raw]
  exact Nat.div_le_div_right (Nat.sub_le_sub_right h _)

/-- Only in a chain whose cycles have levels does a cycle end. -/
theorem blocks_per_cycle_pos {level : Level} (hlast : baking.last_of_a_cycle c level = true) :
    0 < c.constants.blocks_per_cycle := by
  unfold baking.last_of_a_cycle at hlast
  rw [decide_eq_true_eq] at hlast
  omega

/-! The levels of a cycle. -/

/-- The level at a position of a cycle. -/
def level_at (c : Context) (cycle : Cycle) (position : Nat) : Level :=
  from_raw c (c.first_level + c.constants.blocks_per_cycle * cycle + position)

theorem succ_level_at (c : Context) (cycle : Cycle) (position : Nat) :
    succ c (level_at c cycle position) = level_at c cycle (position + 1) := rfl

/-- The cycle of a level that is counted from the first one of a cycle. -/
theorem cycle_level_at (hpos : 0 < c.constants.blocks_per_cycle) (cycle : Cycle) (position : Nat) :
    (level_at c cycle position).cycle = cycle + position / c.constants.blocks_per_cycle := by
  unfold level_at
  rw [cycle_from_raw, Nat.add_assoc, Nat.add_sub_cancel_left, Nat.mul_add_div hpos]

/-- Every level of a cycle has a position in it. -/
theorem eq_level_at (hfirst : c.first_level ≤ l) :
    from_raw c l = level_at c (from_raw c l).cycle (from_raw c l).cycle_position := by
  unfold level_at
  rw [cycle_from_raw, cycle_position_from_raw, Nat.add_assoc, Nat.div_add_mod,
    Nat.add_sub_cancel' hfirst]

/-- The loop collects the levels from a position on, the last one first. -/
theorem levels_with_commitments_loop_eq (hpos : 0 < c.constants.blocks_per_cycle) (cycle : Cycle)
    {fuel position : Nat} (hfuel : fuel + position = c.constants.blocks_per_cycle + 1)
    (hposition : position ≤ c.constants.blocks_per_cycle) (acc : List Level) :
    levels_with_commitments_loop c cycle fuel (level_at c cycle position) acc =
      .ok ((((range' position (c.constants.blocks_per_cycle - position)).map
        (level_at c cycle)).filter (·.expected_commitment)).reverse ++ acc) := by
  induction fuel generalizing position acc with
  | zero => omega
  | succ fuel ih =>
    rw [levels_with_commitments_loop, cycle_level_at hpos, succ_level_at]
    by_cases hend : position = c.constants.blocks_per_cycle
    · rw [hend, Nat.div_self hpos, if_neg (Nat.succ_ne_self cycle), Nat.sub_self]
      rfl
    · have hlt : position < c.constants.blocks_per_cycle := by omega
      have hrest : c.constants.blocks_per_cycle - position =
          c.constants.blocks_per_cycle - (position + 1) + 1 := by omega
      rw [div_eq_of_lt hlt, add_zero, if_pos rfl, hrest, List.range'_succ, map_cons]
      split
      · next hexpected =>
        rw [ih (by omega) (by omega), filter_cons_of_pos hexpected, reverse_cons, append_assoc]
        rfl
      · next hexpected =>
        rw [ih (by omega) (by omega), filter_cons_of_neg hexpected]

/-- Levels depend on the first level and the constants only. -/
theorem levels_with_commitments_congr {c' : Context} (hfirst : c'.first_level = c.first_level)
    (hconstants : c'.constants = c.constants) (cycle : Cycle) :
    levels_with_commitments_in_cycle c' cycle = levels_with_commitments_in_cycle c cycle := by
  have hraw l : from_raw c' l = from_raw c l := by
    unfold from_raw
    rw [hfirst, hconstants]
  have hloop : ∀ cycle fuel level acc, levels_with_commitments_loop c' cycle fuel level acc =
      levels_with_commitments_loop c cycle fuel level acc := by
    intro cycle fuel
    induction fuel with
    | zero => exact fun _ _ => rfl
    | succ fuel ih =>
      intro level acc
      rw [levels_with_commitments_loop, levels_with_commitments_loop, ih, ih, succ, succ, hraw]
  unfold levels_with_commitments_in_cycle first_level_in_cycle
  rw [hconstants, hfirst, hraw]
  exact hloop _ _ _ _

/-- The levels of a cycle at which a nonce is expected. -/
structure Committed (c : Context) (cycle : Cycle) (levels : List Level) : Prop where
  nodup : levels.Nodup
  mem_iff : ∀ level, level ∈ levels ↔ ∃ l, c.first_level ≤ l ∧ level = from_raw c l ∧
    level.cycle = cycle ∧ level.expected_commitment = true

/-- The loop finds the levels of the cycle that expect a commitment, last one
first. -/
theorem levels_with_commitments_in_cycle_eq (hpos : 0 < c.constants.blocks_per_cycle)
    (cycle : Cycle) :
    levels_with_commitments_in_cycle c cycle =
      .ok (((range c.constants.blocks_per_cycle).map (level_at c cycle)).filter
        (·.expected_commitment)).reverse := by
  have hfirst : first_level_in_cycle c cycle = level_at c cycle 0 := rfl
  have hcycle : (level_at c cycle 0).cycle = cycle := by
    rw [cycle_level_at hpos, Nat.zero_div, Nat.add_zero]
  have hfuel : c.constants.blocks_per_cycle + 1 + 0 = c.constants.blocks_per_cycle + 1 := rfl
  unfold levels_with_commitments_in_cycle
  dsimp only
  rw [hfirst, hcycle, levels_with_commitments_loop_eq hpos cycle hfuel (zero_le _),
    append_nil, Nat.sub_zero, range_eq_range']

/-- It always succeeds. -/
theorem levels_with_commitments_in_cycle_success (hpos : 0 < c.constants.blocks_per_cycle)
    (cycle : Cycle) :
    ∃ levels, levels_with_commitments_in_cycle c cycle = .ok levels ∧ Committed c cycle levels := by
  refine ⟨_, levels_with_commitments_in_cycle_eq hpos cycle, ?_, ?_⟩
  · rw [nodup_reverse]
    apply List.Nodup.filter
    apply List.Nodup.map _ nodup_range
    intro p q heq
    have hlevel := congrArg Level.level heq
    exact add_left_cancel hlevel
  · intro level
    rw [mem_reverse, mem_filter, mem_map]
    constructor
    · rintro ⟨⟨_, hmem, rfl⟩, hexpected⟩
      rw [mem_range] at hmem
      refine ⟨_, ?_, rfl, ?_, hexpected⟩
      · rw [add_assoc]
        exact le_add_right _ _
      · rw [cycle_level_at hpos, div_eq_of_lt (by omega), add_zero]
    · rintro ⟨l, hle, rfl, hcycle', hexpected⟩
      refine ⟨⟨(from_raw c l).cycle_position, ?_, ?_⟩, hexpected⟩
      · rw [mem_range]
        exact mod_lt _ hpos
      · rw [← hcycle']
        exact (eq_level_at hle).symm

end plexus.level_storage
