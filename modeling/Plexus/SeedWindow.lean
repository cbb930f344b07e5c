import Plexus.Chains
import Plexus.Levels

/-! The seeds and nonces that are kept, from cycle to cycle. -/

namespace plexus

open List Traced Store init_storage Nat

open Result (bind_eq_ok_iff bind_ok bind_inv)
open Indexed_data_storage (get_eq_ok_iff delete_eq_ok_iff init_eq_ok_iff)

variable {bound : Raw_level} {level : Level}

namespace seed_storage

open level_storage

variable [Environment] {c c' : Context} {unrevealed : List Unrevealed_nonce}

/-! The nonces of a cycle. -/

variable {levels : List Level}

/-- Nonces are found and deleted, and those that were not revealed returned. -/
theorem combine_all_success {seed seed' : seed_repr.Seed} {unrevealed' : List Unrevealed_nonce}
    (h : levels.foldlM combine (c, seed, unrevealed) = .ok (c', seed', unrevealed')) :
    (∀ level ∈ levels, (c.cycles.nonces.lookup (nonce_key level)).isSome) ∧
      c'.cycles.random_seed = c.cycles.random_seed ∧
      (∀ key, c'.cycles.nonces.lookup key =
        if key ∈ levels.map nonce_key then none else c.cycles.nonces.lookup key) ∧
      unrevealed' = (levels.filterMap (unrevealed_at c)).reverse ++ unrevealed := by
  induction levels generalizing c seed unrevealed with
  | nil =>
    cases h
    exact ⟨by simp, rfl, by simp, rfl⟩
  | cons level levels ih =>
    rw [foldlM_cons] at h
    obtain ⟨⟨c1, _, _⟩, hround, h⟩ := bind_inv h
    obtain ⟨hfound, rfl, rfl⟩ := combine_success hround
    obtain ⟨hall, hseeds, hnonces, hunrevealed⟩ := ih h
    have hkept level' (hmem : level' ∈ levels) : nonce_key level' ≠ nonce_key level := by
      intro heq
      have hsome := hall level' hmem
      rw [heq] at hsome
      change ((c.cycles.nonces.put (nonce_key level) none).lookup (nonce_key level)).isSome at hsome
      rw [lookup_put_self] at hsome
      cases hsome
    have hsame : ∀ level' ∈ levels, (c.with_cycles { c.cycles with
          nonces := c.cycles.nonces.put (nonce_key level) none }).cycles.nonces.lookup
          (nonce_key level') = c.cycles.nonces.lookup (nonce_key level') :=
      fun level' hmem => lookup_put_ne _ (hkept level' hmem) _
    refine ⟨?_, hseeds, ?_, ?_⟩
    · intro level' hmem
      rcases mem_cons.mp hmem with rfl | hmem
      · exact hfound
      · rw [← hsame level' hmem]
        exact hall level' hmem
    · intro key
      rw [hnonces, map_cons]
      by_cases hmem : key ∈ levels.map nonce_key
      · rw [if_pos hmem, if_pos (mem_cons_of_mem _ hmem)]
      · rw [if_neg hmem]
        change (c.cycles.nonces.put (nonce_key level) none).lookup key = _
        rw [lookup_put]
        simp only [mem_cons, hmem, or_false]
    · rw [hunrevealed, filterMap_cons]
      have hrest : levels.filterMap (unrevealed_at (c.with_cycles { c.cycles with
          nonces := c.cycles.nonces.put (nonce_key level) none })) =
          levels.filterMap (unrevealed_at c) := by
        apply filterMap_congr
        intro level' hmem
        unfold unrevealed_at
        rw [hsame level' hmem]
      rw [hrest]
      cases unrevealed_at c level with
      | none => rfl
      | some u => simp

/-- The seed can be made if every level has its nonce. -/
theorem combine_all_total (hnodup : (levels.map nonce_key).Nodup)
    (h : ∀ level ∈ levels, (c.cycles.nonces.lookup (nonce_key level)).isSome)
    (seed : seed_repr.Seed) (unrevealed : List Unrevealed_nonce) :
    ∃ acc, levels.foldlM combine (c, seed, unrevealed) = .ok acc := by
  induction levels generalizing c seed unrevealed with
  | nil => exact ⟨_, rfl⟩
  | cons level levels ih =>
    rw [map_cons, nodup_cons] at hnodup
    obtain ⟨_, hround⟩ := combine_recorded (h level mem_cons_self) seed unrevealed
    rw [foldlM_cons, hround, bind_ok]
    apply ih hnodup.2
    intro level' hmem
    have hne : nonce_key level' ≠ nonce_key level := by
      intro heq
      exact hnodup.1 (heq ▸ mem_map_of_mem hmem)
    change ((c.cycles.nonces.put (nonce_key level) none).lookup (nonce_key level')).isSome
    rw [lookup_put_ne _ hne]
    exact h level' (mem_cons_of_mem level hmem)

/-! The end of a cycle. -/

variable {cycle : Cycle}

variable {last_cycle : Nat}

section

omit [Environment]

/-- Clearing an old seed leaves the nonces. -/
theorem Cleared.same {c1 : Context} (h : Cleared c last_cycle c1) :
    c1.cycles.nonces = c.cycles.nonces ∧ c1.first_level = c.first_level ∧
      c1.constants = c.constants := by
  rcases h with ⟨_, rfl⟩ | ⟨_, rfl⟩
  · exact ⟨rfl, rfl, rfl⟩
  · exact ⟨rfl, rfl, rfl⟩

/-- The seeds that are stored in a cycle. -/
def Seed_window (c : Context) (cycle : Nat) : Prop :=
  ∀ k : Nat, (c.cycles.random_seed.lookup k).isSome ↔
    cycle - c.constants.preserved_cycles ≤ k ∧ k ≤ max cycle 1 + c.constants.preserved_cycles

/-- The nonces that are stored in a cycle, for levels below a bound. -/
def Nonce_window (c : Context) (cycle : Nat) (bound : Raw_level) : Prop :=
  ∀ k l : Nat, (c.cycles.nonces.lookup (k, l)).isSome ↔
    c.first_level < l ∧ l < bound ∧ k = (from_raw c l).cycle ∧
      (from_raw c l).expected_commitment = true ∧ cycle ≤ k + 1

/-- The window without its oldest seed. -/
theorem Seed_window.clear (h : Seed_window c last_cycle)
    (hpreserved : 0 < c.constants.preserved_cycles) {c1 : Context} (hc1 : Cleared c last_cycle c1)
    (k : Nat) :
    (c1.cycles.random_seed.lookup k).isSome ↔
      last_cycle + 1 - c.constants.preserved_cycles ≤ k ∧
        k ≤ max last_cycle 1 + c.constants.preserved_cycles := by
  have hk := h k
  rcases hc1 with ⟨hyoung, rfl⟩ | ⟨hold, rfl⟩
  · rw [hk]
    omega
  · change ((c.cycles.random_seed.put _ none).lookup k).isSome ↔ _
    by_cases heq : k = last_cycle - c.constants.preserved_cycles
    · rw [heq, lookup_put_self]
      refine iff_of_false (by simp) ?_
      omega
    · rw [lookup_put_ne _ heq, hk]
      omega

end

/-- A cycle end moves the window of seeds on by one. -/
theorem Seed_window.cycle_end (h : Seed_window c last_cycle)
    (hpreserved : 0 < c.constants.preserved_cycles)
    (hend : seed_storage.cycle_end c last_cycle = .ok (c', unrevealed)) :
    Seed_window c' (last_cycle + 1) := by
  have hconstants : c'.constants = c.constants := by
    rw [cycle_end_only hend]
    rfl
  obtain ⟨_, c1, hc1, _, hcompute⟩ := cycle_end_eq_ok_iff.mp hend
  intro k
  have hk := h.clear hpreserved hc1 k
  rw [hconstants]
  rcases hcompute with ⟨hzero, rfl, _⟩ | ⟨revealed, hrevealed, hcompute⟩
  · rw [hk]
    omega
  · obtain ⟨_, _, c2, seed, _, _, hfold, _, rfl⟩ := compute_for_cycle_eq_ok_iff.mp hcompute
    have hseeds := (combine_all_success hfold).2.1
    change ((c2.cycles.random_seed.put _ (some seed)).lookup k).isSome ↔ _
    by_cases heq : k = last_cycle + c.constants.preserved_cycles + 1
    · rw [heq, lookup_put_self]
      refine iff_of_true rfl ?_
      omega
    · rw [lookup_put_ne _ heq, hseeds, hk]
      omega

/-- What `cycle_end` does with the nonces of the cycle before. -/
structure Nonces_ended (c c' : Context) (revealed : Cycle) (unrevealed : List Unrevealed_nonce)
    (levels : List Level) : Prop where
  levels_eq : levels_with_commitments_in_cycle c revealed = .ok levels
  found : ∀ level ∈ levels, (c.cycles.nonces.lookup (nonce_key level)).isSome
  deleted : ∀ key, c'.cycles.nonces.lookup key =
    if key ∈ levels.map nonce_key then none else c.cycles.nonces.lookup key
  unrevealed_eq : unrevealed = (levels.filterMap (unrevealed_at c)).reverse

/-- A cycle end takes the nonces of the revealed cycle. -/
theorem cycle_end_nonces {revealed : Nat} (h : cycle_end c (revealed + 1) = .ok (c', unrevealed)) :
    ∃ levels, Nonces_ended c c' revealed unrevealed levels := by
  obtain ⟨_, c1, hc1, _, hcompute⟩ := cycle_end_eq_ok_iff.mp h
  obtain ⟨hnonces1, hfirst1, hconstants1⟩ := hc1.same
  rcases hcompute with ⟨hzero, _⟩ | ⟨revealed', hrevealed, hcompute⟩
  · cases hzero
  · cases hrevealed
    obtain ⟨levels, _, c2, _, hlevels, _, hfold, _, rfl⟩ := compute_for_cycle_eq_ok_iff.mp hcompute
    obtain ⟨hfound, _, hdeleted, hunrevealed⟩ := combine_all_success hfold
    rw [append_nil] at hunrevealed
    have hunrevealed_at : unrevealed_at c1 = unrevealed_at c := by
      funext level
      unfold unrevealed_at
      rw [hnonces1]
    rw [hnonces1] at hfound hdeleted
    rw [hunrevealed_at] at hunrevealed
    refine ⟨levels, ?_, hfound, hdeleted, hunrevealed⟩
    rw [← hlevels]
    exact levels_with_commitments_congr hfirst1.symm hconstants1.symm revealed

omit [Environment] in
/-- The key of a level tells the level. -/
theorem mem_map_nonce_key (h : Committed c cycle levels) {k l : Nat} :
    (k, l) ∈ levels.map nonce_key ↔ c.first_level ≤ l ∧ k = cycle ∧ k = (from_raw c l).cycle ∧
      (from_raw c l).expected_commitment = true := by
  rw [mem_map]
  constructor
  · rintro ⟨level, hmem, heq⟩
    obtain ⟨l', hle, rfl, hcycle, hexpected⟩ := (h.mem_iff level).mp hmem
    cases heq
    exact ⟨hle, hcycle, rfl, hexpected⟩
  · rintro ⟨hle, rfl, hcycle, hexpected⟩
    refine ⟨from_raw c l, (h.mem_iff _).mpr ⟨l, hle, rfl, hcycle.symm, hexpected⟩, ?_⟩
    rw [hcycle]
    rfl

omit [Environment] in
/-- Levels of one cycle have different keys. -/
theorem nodup_nonce_keys (h : Committed c cycle levels) : (levels.map nonce_key).Nodup := by
  apply List.Nodup.map_on _ h.nodup
  intro level hmem level' hmem' heq
  obtain ⟨l, _, rfl, _⟩ := (h.mem_iff level).mp hmem
  obtain ⟨l', _, rfl, _⟩ := (h.mem_iff level').mp hmem'
  exact congrArg (from_raw c) (congrArg Prod.snd heq)

/-- A cycle end moves the window of nonces on by one. -/
theorem Nonce_window.cycle_end (h : Nonce_window c last_cycle bound)
    (hpos : 0 < c.constants.blocks_per_cycle)
    (hend : seed_storage.cycle_end c last_cycle = .ok (c', unrevealed)) :
    Nonce_window c' (last_cycle + 1) bound := by
  have honly := cycle_end_only hend
  have hraw l : from_raw c' l = from_raw c l := by
    rw [honly]
    rfl
  have hfirst : c'.first_level = c.first_level := by
    rw [honly]
    rfl
  intro k l
  rw [hraw, hfirst]
  have hkl := h k l
  cases last_cycle with
  | zero =>
    have hnonces : c'.cycles.nonces = c.cycles.nonces := by
      obtain ⟨_, c1, hc1, _, ⟨_, rfl, _⟩ | ⟨revealed, hrevealed, _⟩⟩ := cycle_end_eq_ok_iff.mp hend
      · exact hc1.same.1
      · cases hrevealed
    have hold : 0 ≤ k + 1 ↔ 0 + 1 ≤ k + 1 := by omega
    rw [hnonces, hkl, hold]
  | succ revealed =>
    obtain ⟨levels, hended⟩ := cycle_end_nonces hend
    obtain ⟨_, hlevels', hcommitted⟩ := levels_with_commitments_in_cycle_success hpos revealed
    rw [hended.levels_eq] at hlevels'
    cases hlevels'
    rw [hended.deleted]
    by_cases hmem : (k, l) ∈ levels.map nonce_key
    · obtain ⟨_, hk, _⟩ := (mem_map_nonce_key hcommitted).mp hmem
      rw [if_pos hmem]
      refine iff_of_false (by simp) ?_
      rintro ⟨_, _, _, _, hle⟩
      omega
    · rw [if_neg hmem, hkl]
      rw [mem_map_nonce_key hcommitted] at hmem
      constructor
      · rintro ⟨hlower, hupper, hcycle, hexpected, hle⟩
        refine ⟨hlower, hupper, hcycle, hexpected, ?_⟩
        by_contra hlt
        exact hmem ⟨hlower.le, by omega, hcycle, hexpected⟩
      · rintro ⟨hlower, hupper, hcycle, hexpected, hle⟩
        exact ⟨hlower, hupper, hcycle, hexpected, by omega⟩

/-- No nonce is missing at the end of a cycle, unless one was expected from the
genesis block. -/
theorem cycle_end_total (hseeds : Seed_window c last_cycle)
    (hnonces : Nonce_window c last_cycle bound) (hpreserved : 0 < c.constants.preserved_cycles)
    (hpos : 0 < c.constants.blocks_per_cycle)
    (hgenesis : (from_raw c c.first_level).expected_commitment = false)
    (hbound : ∀ l, (from_raw c l).cycle < last_cycle → l < bound) :
    ∃ r, cycle_end c last_cycle = .ok r := by
  obtain ⟨c1, hc1⟩ : ∃ c1, Cleared c last_cycle c1 := by
    rcases lt_or_ge last_cycle c.constants.preserved_cycles with hyoung | hold
    · exact ⟨c, .inl ⟨hyoung, rfl⟩⟩
    · exact ⟨_, .inr ⟨hold, rfl⟩⟩
  have hstored : c.constants.preserved_cycles ≤ last_cycle →
      (c.cycles.random_seed.lookup (last_cycle - c.constants.preserved_cycles)).isSome :=
    fun _ => (hseeds _).mpr ⟨le_refl _, by omega⟩
  have hwindow := hseeds.clear hpreserved hc1
  cases last_cycle with
  | zero =>
    exact ⟨_, cycle_end_eq_ok_iff.mpr ⟨hpreserved, c1, hc1, hstored, .inl ⟨rfl, rfl, rfl⟩⟩⟩
  | succ revealed =>
    obtain ⟨hnonces1, hfirst1, hconstants1⟩ := hc1.same
    obtain ⟨levels, hlevels, hcommitted⟩ := levels_with_commitments_in_cycle_success hpos revealed
    have hfound level (hmem : level ∈ levels) : (c1.cycles.nonces.lookup (nonce_key
        level)).isSome := by
      obtain ⟨l, hle, rfl, hcycle, hexpected⟩ := (hcommitted.mem_iff level).mp hmem
      rw [hnonces1]
      have hne : l ≠ c.first_level := by
        rintro rfl
        rw [hgenesis] at hexpected
        cases hexpected
      refine (hnonces _ l).mpr ⟨lt_of_le_of_ne hle hne.symm, hbound l ?_, rfl, hexpected, ?_⟩
      · rw [hcycle]
        exact lt_succ_self revealed
      · rw [hcycle]
    obtain ⟨prev_seed, hprev⟩ := Option.isSome_iff_exists.mp
      ((hwindow (revealed + 1 + c.constants.preserved_cycles)).mpr (by omega))
    obtain ⟨⟨c2, seed, _⟩, hfold⟩ := combine_all_total (nodup_nonce_keys hcommitted) hfound
      (seed_repr.deterministic_seed prev_seed) []
    refine ⟨_, cycle_end_eq_ok_iff.mpr ⟨hpreserved, c1, hc1, hstored, .inr ⟨revealed, rfl,
      compute_for_cycle_eq_ok_iff.mpr ⟨levels, prev_seed, c2, seed, ?_, hprev, hfold, ?_, rfl⟩⟩⟩⟩
    · rw [← hlevels]
      exact levels_with_commitments_congr hfirst1 hconstants1 revealed
    · rw [(combine_all_success hfold).2.1, ← Option.not_isSome_iff_eq_none]
      intro hsome
      have := (hwindow _).mp hsome
      omega

end seed_storage

/-! Whole chains. -/

namespace main

open seed_storage level_storage

variable [Environment] {param : Parameters} {c c' : Context}

omit [Environment] in
theorem Grounded.preserved_cycles_eq (h : Grounded param c) :
    c.constants.preserved_cycles = param.constants.preserved_cycles :=
  congrArg (·.preserved_cycles) h.fixed

/-! Data that is kept for the cycles around the current one. -/

/-- `W c cycle bound` says what is kept in a cycle for the levels below a bound.
Blocks that meet `S` keep it up to date. -/
structure Windowed (S : Context → Prop) (param : Parameters)
    (W : Context → Nat → Raw_level → Prop) : Prop where
  grounded {c : Context} {n : Nat} {bound : Raw_level} (h : W c n bound) : Grounded param c
  same {c c' : Context} {n : Nat} {bound : Raw_level} (h : W c n bound)
    (hgrounded : Grounded param c') (hfirst : c'.first_level = c.first_level)
    (hcycles : c'.cycles = c.cycles) : W c' n bound
  reveal {c c' : Context} {n : Nat} {bound : Raw_level} {level : Level} {nonce : MBytes}
    (h : W c n bound) (hgrounded : Grounded param c') (hfirst : c'.first_level = c.first_level)
    (hreveal : nonce_storage.reveal c level nonce = .ok c') : W c' n bound
  closing {c c' : Context} {protocol_data : Block_header_contents} {delegate : Public_key_hash}
    (h : W c c.level.cycle c.level.level) (hfirst : c.first_level < c.level.level)
    (hhash : protocol_data.seed_nonce_hash.isSome = c.level.expected_commitment)
    (hclosing : apply.Closing c protocol_data delegate c') : W c' c.level.cycle (c.level.level + 1)
  cycle_end {c c1 c2 c3 : Context} {unrevealed : List Unrevealed_nonce}
    (h : W c c.level.cycle (c.level.level + 1)) (hpos : 0 < c.constants.blocks_per_cycle)
    (hseed : seed_storage.cycle_end c c.level.cycle = .ok (c1, unrevealed))
    (hroll : roll_storage.cycle_end c1 c.level.cycle = .ok c2) (hS : S c3)
    (hgrounded : Grounded param c3) (hfirst : c3.first_level = c2.first_level)
    (hcycles : c3.cycles = c2.cycles) : W c2 (c.level.cycle + 1) (c.level.level + 1)
  genesis {c : Context} {level : Raw_level} {timestamp fitness : Int64}
    (h : (init_storage.prepare_first_block param level timestamp fitness).outcome = .ok c) :
    W c (from_raw c (c.level.level + 1)).cycle (c.level.level + 1) ∧ W c c.level.cycle c.level.level

namespace Windowed

variable {S : Context → Prop} {W : Context → Nat → Raw_level → Prop} (hW : Windowed S param W)

include hW

/-- The window at the beginning of a block. -/
theorem begun (hbegun : Begun c (c.level.level + 1) c')
    (h : W c (from_raw c (c.level.level + 1)).cycle (c.level.level + 1)) :
    W c' c'.level.cycle c'.level.level ∧ c'.first_level < c'.level.level := by
  have hgrounded := hW.grounded h
  have hlevel : c'.level = from_raw c (c.level.level + 1) := hbegun.level_eq
  rw [hlevel, hbegun.first_level]
  exact ⟨hW.same h (hbegun.grounded hgrounded) hbegun.first_level hbegun.cycles,
    lt_succ_of_le hgrounded.first_level⟩

/-- Operations keep the window. -/
theorem operation {contents : Contents_list} {result : Contents_result_list}
    (hstep : apply.Operation_step c c' contents result) (h : W c c.level.cycle c.level.level)
    (hfirst : c.first_level < c.level.level) :
    W c' c'.level.cycle c'.level.level ∧ c'.first_level < c'.level.level := by
  have hgrounded := operation_grounded hstep (hW.grounded h)
  have hfirst_eq : c'.first_level = c.first_level := congrArg (·.first_level) hstep.background_eq
  rw [hstep.level, hfirst_eq]
  refine ⟨?_, hfirst⟩
  cases hstep with
  | endorsement _ heq => exact hW.same h hgrounded hfirst_eq (congrArg (·.cycles) heq)
  | @seed_nonce_revelation _ _ _ c0 c1 h0 hreveal heq =>
    have hfirst0 : c0.first_level = c.first_level := congrArg (·.first_level) h0
    have hfirst1 : c'.first_level = c1.first_level := congrArg (·.first_level) heq
    have hgrounded0 : Grounded param c0 := (hW.grounded h).of_same
      (congrArg (·.constants.fixed) h0) hfirst0 (congrArg (·.level) h0)
    have hgrounded1 : Grounded param c1 := hgrounded.of_same
      (congrArg (·.constants.fixed) heq.symm) hfirst1.symm (congrArg (·.level) heq.symm)
    have hrevealed := hW.reveal (hW.same h hgrounded0 hfirst0 (congrArg (·.cycles) h0)) hgrounded1
      (hfirst1.symm.trans (hfirst_eq.trans hfirst0.symm)) hreveal
    exact hW.same hrevealed hgrounded hfirst1 (congrArg (·.cycles) heq)
  | @proposals _ _ _ c0 c1 h0 hrecord heq =>
    rw [amendment.record_proposals_only hrecord] at heq
    have hcycles : c'.cycles = c0.cycles := congrArg (·.cycles) heq
    exact hW.same h hgrounded hfirst_eq (hcycles.trans (congrArg (·.cycles) h0))
  | @ballot _ _ _ _ c0 c1 h0 hrecord heq =>
    rw [amendment.record_ballot_only hrecord] at heq
    have hcycles : c'.cycles = c0.cycles := congrArg (·.cycles) heq
    exact hW.same h hgrounded hfirst_eq (hcycles.trans (congrArg (·.cycles) h0))
  | other _ heq => exact hW.same h hgrounded hfirst_eq (congrArg (·.cycles) heq)

/-- The end of a cycle moves the window. -/
theorem new_cycle {c3 : Context} {updates : delegate_storage.Balance_updates}
    {deactivated : List Public_key_hash} (h : W c c.level.cycle (c.level.level + 1)) (hS : S c3)
    (hgrounded3 : Grounded param c3) (hfirst3 : c3.first_level = c'.first_level)
    (hcycles3 : c3.cycles = c'.cycles)
    (hcycle : apply.may_start_new_cycle c = .ok (c', updates, deactivated)) :
    W c' (from_raw c (c.level.level + 1)).cycle (c.level.level + 1) := by
  have hgrounded := hW.grounded h
  rcases apply.may_start_new_cycle_success hcycle with ⟨hlast, rfl⟩ |
    ⟨hlast, c1, unrevealed, c2, _, hseed, hroll, hdelegate, hbootstrap⟩
  · rw [hgrounded.level] at hlast
    rw [cycle_succ_of_not_last hgrounded.first_level hlast, ← hgrounded.level]
    exact h
  · have hpos := blocks_per_cycle_pos hlast
    have hsame := apply.may_start_new_cycle_same_votes hcycle
    have hcycles : c'.cycles = c2.cycles := by
      rw [(bootstrap_storage.cycle_end_ramped hbootstrap).only]
      exact (delegate_storage.cycle_end_moved hdelegate).cycles
    have hsame1 := apply.Same_votes.of_cycles_only ((cycle_end_only hseed).of_part seeds_part)
    have hsame2 :=
      apply.Same_votes.of_cycles_only ((roll_storage.cycle_end_only hroll).of_part snapshots_part)
    rw [hgrounded.level] at hlast
    rw [cycle_succ_of_last hgrounded.first_level hlast, ← hgrounded.level]
    have hfirst := hsame.first_level.trans (hsame1.trans hsame2).first_level.symm
    exact hW.same (hW.cycle_end h hpos hseed hroll hS hgrounded3 (hfirst3.trans hfirst)
      (hcycles3.trans hcycles)) (hgrounded.of_same_votes hsame) hfirst hcycles

/-- The window at the end of a block is that of the next level. -/
theorem finalized (hfinalized : Finalized c c') (hS : S c') (h : W c c.level.cycle c.level.level)
    (hfirst : c.first_level < c.level.level) :
    W c' (from_raw c' (c'.level.level + 1)).cycle (c'.level.level + 1) := by
  have hgrounded := hfinalized.grounded (hW.grounded h)
  obtain ⟨_, _, _, _, hhash, hfinalize⟩ := hfinalized.finalize
  obtain ⟨c1, c2, _, _, hclosing, hcycle, hperiod⟩ := apply.finalize_application_closing hfinalize
  have h1 := hW.closing h hfirst hhash hclosing
  rw [← hclosing.same_votes.level] at h1
  have hvotes := amendment.may_start_new_voting_period_only hperiod
  have hsame : c'.cycles = c2.cycles ∧ c'.first_level = c2.first_level ∧ c'.level = c2.level := by
    rw [hvotes]
    exact ⟨rfl, rfl, rfl⟩
  obtain ⟨hcycles, hfirst', hlevel'⟩ := hsame
  have h2 := hW.new_cycle h1 hS hgrounded hfirst' hcycles hcycle
  have hsame2 := apply.may_start_new_cycle_same_votes hcycle
  rw [from_raw_of_fixed (hgrounded.fixed.trans (hW.grounded h1).fixed.symm)
    (hfirst'.trans hsame2.first_level), hlevel', hsame2.level]
  exact hW.same h2 hgrounded hfirst' hcycles

variable (henv : Lawful_environment)

include henv

/-- The window at the head of every chain. -/
theorem chain (h : Chain_where S param c) :
    W c (from_raw c (c.level.level + 1)).cycle (c.level.level + 1) := by
  refine h.induction henv
    (P := fun c => W c (from_raw c (c.level.level + 1)).cycle (c.level.level + 1))
    (Q := fun c => W c c.level.cycle c.level.level ∧ c.first_level < c.level.level) ?_ ?_ ?_ ?_
  · intro c level timestamp fitness hgenesis
    exact (hW.genesis hgenesis).1
  · intro c c1 _ hbegun hc
    exact hW.begun hbegun hc
  · rintro c1 c2 _ _ _ hstep ⟨hc, hfirst⟩
    exact hW.operation hstep hc hfirst
  · rintro c1 c2 hS hfinalized ⟨hc, hfirst⟩
    exact hW.finalized hfinalized hS hc hfirst

/-- The window while a block is validated. -/
theorem validating {data : Validation_state} {receipts : List (Option Contents_result_list)}
    (hc : Chain_where S param c) (hdata : Validating c data receipts)
    (hlevel : data.ctxt.level.level = c.level.level + 1) :
    W data.ctxt data.ctxt.level.cycle data.ctxt.level.level ∧
      data.ctxt.first_level < data.ctxt.level.level := by
  refine Validating.next_level henv (fun _ _ _ => hW.begun) ?_ hdata hc.condition
    (hW.chain henv hc) hlevel
  rintro c1 c2 _ _ _ hstep ⟨hc, hfirst⟩
  exact hW.operation hstep hc hfirst

theorem in_block (h : In_block_where S param c) : W c c.level.cycle c.level.level := by
  cases h with
  | genesis h => exact (hW.genesis h).2
  | validating hc hdata hlevel => exact (hW.validating henv hc hdata hlevel).1

end Windowed

omit [Environment] in
/-- The seeds and nonces stored in a cycle, for levels below a bound. -/
structure Seeded (param : Parameters) (c : Context) (cycle : Nat) (bound : Raw_level) : Prop where
  grounded : Grounded param c
  seeds : Seed_window c cycle
  nonces : Nonce_window c cycle bound

omit [Environment] in
/-- The windows are about the seeds and about which nonces are there. -/
theorem Seeded.of_same {cycle : Nat} (h : Seeded param c cycle bound)
    (hgrounded : Grounded param c') (hfirst : c'.first_level = c.first_level)
    (hseeds : c'.cycles.random_seed = c.cycles.random_seed)
    (hnonces : ∀ key, (c'.cycles.nonces.lookup key).isSome = (c.cycles.nonces.lookup key).isSome) :
    Seeded param c' cycle bound := by
  refine ⟨hgrounded, ?_, ?_⟩
  · intro k
    rw [hseeds, hgrounded.preserved_cycles_eq, ← h.grounded.preserved_cycles_eq]
    exact h.seeds k
  · intro k l
    rw [hnonces, hfirst, from_raw_of_fixed (hgrounded.fixed.trans h.grounded.fixed.symm) hfirst]
    exact h.nonces k l

/-- A nonce is revealed only if it was recorded. -/
theorem reveal_nonces {nonce : MBytes} (h : nonce_storage.reveal c level nonce = .ok c') :
    c'.cycles.random_seed = c.cycles.random_seed ∧
      ∀ key, (c'.cycles.nonces.lookup key).isSome = (c.cycles.nonces.lookup key).isSome := by
  obtain ⟨_, _, h⟩ := bind_inv h
  obtain ⟨_, _, h⟩ := bind_inv h
  rw [Indexed_data_storage.set_eq_ok_iff] at h
  obtain ⟨⟨status, hstatus⟩, rfl⟩ := h
  refine ⟨rfl, ?_⟩
  intro key
  change ((c.cycles.nonces.put (level.cycle, level.level) _).lookup key).isSome = _
  by_cases hkey : key = (level.cycle, level.level)
  · have hlookup : c.cycles.nonces.lookup (level.cycle, level.level) = some status := hstatus
    rw [hkey, lookup_put_self, hlookup]
    rfl
  · rw [lookup_put_ne _ hkey]

/-- The nonce of a block is recorded when one is expected. -/
theorem Seeded.closing {protocol_data : Block_header_contents} {delegate : Public_key_hash}
    (h : Seeded param c c.level.cycle c.level.level) (hfirst : c.first_level < c.level.level)
    (hhash : protocol_data.seed_nonce_hash.isSome = c.level.expected_commitment)
    (hclosing : apply.Closing c protocol_data delegate c') :
    Seeded param c' c.level.cycle (c.level.level + 1) := by
  have hsame := hclosing.same_votes
  have hgrounded : Grounded param c' :=
    h.grounded.of_same_votes hsame
  obtain ⟨c1, c2, hsetting, hrecord, hsnapshot⟩ := hclosing.recorded
  have honly := apply.may_snapshot_roll_only hsnapshot
  obtain ⟨hseeds, hnonces⟩ : c'.cycles.random_seed = c.cycles.random_seed ∧ ∀ key,
      (c'.cycles.nonces.lookup key).isSome = true ↔
        key = (c.level.cycle, c.level.level) ∧ c.level.expected_commitment = true ∨
          (c.cycles.nonces.lookup key).isSome = true := by
    rw [honly, ← hhash, ← hsetting.cycles]
    rcases hrecord with ⟨hnone, rfl⟩ | ⟨unrevealed, hsome, hrecord⟩
    · rw [hnone]
      exact ⟨rfl, fun key => (or_iff_right (by simp)).symm⟩
    · unfold nonce_storage.record_hash at hrecord
      rw [init_eq_ok_iff] at hrecord
      obtain ⟨_, rfl⟩ := hrecord
      refine ⟨rfl, ?_⟩
      intro key
      change ((c1.cycles.nonces.put (c1.level.cycle, c1.level.level) _).lookup key).isSome = true ↔ _
      rw [lookup_put, hsetting.level, hsome]
      split
      · next hkey => exact iff_of_true rfl (.inl ⟨hkey, rfl⟩)
      · next hkey => simp [hkey]
  refine ⟨hgrounded, ?_, ?_⟩
  · intro k
    rw [hseeds, hgrounded.preserved_cycles_eq, ← h.grounded.preserved_cycles_eq]
    exact h.seeds k
  · intro k l
    have hlevel := h.grounded.level
    rw [hnonces, h.nonces k l, hsame.first_level,
      from_raw_of_fixed hsame.constants hsame.first_level]
    constructor
    · rintro (⟨hkey, hexpected⟩ | ⟨hlower, hupper, hrest⟩)
      · cases hkey
        rw [← hlevel]
        exact ⟨hfirst, lt_succ_self _, rfl, hexpected, le_succ _⟩
      · exact ⟨hlower, lt_succ_of_lt hupper, hrest⟩
    · rintro ⟨hlower, hupper, hcycle, hexpected, hle⟩
      rcases Nat.lt_succ_iff_lt_or_eq.mp hupper with hlt | rfl
      · exact .inr ⟨hlower, hlt, hcycle, hexpected, hle⟩
      · rw [← hlevel] at hcycle hexpected
        exact .inl ⟨by rw [hcycle], hexpected⟩

/-- A cycle end moves both windows on. -/
theorem Seeded.cycle_end {c1 : Context} {unrevealed : List Unrevealed_nonce}
    (h : Seeded param c c.level.cycle (c.level.level + 1))
    (hpreserved : 0 < param.constants.preserved_cycles) (hpos : 0 < c.constants.blocks_per_cycle)
    (hseed : seed_storage.cycle_end c c.level.cycle = .ok (c1, unrevealed))
    (hroll : roll_storage.cycle_end c1 c.level.cycle = .ok c') :
    Seeded param c' (c.level.cycle + 1) (c.level.level + 1) := by
  have hsame1 := apply.Same_votes.of_cycles_only ((cycle_end_only hseed).of_part seeds_part)
  have honly := roll_storage.cycle_end_only hroll
  have hsame := apply.Same_votes.of_cycles_only (honly.of_part snapshots_part)
  rw [← h.grounded.preserved_cycles_eq] at hpreserved
  have h1 : Seeded param c1 (c.level.cycle + 1) (c.level.level + 1) :=
    ⟨h.grounded.of_same_votes hsame1,
      h.seeds.cycle_end hpreserved hseed, h.nonces.cycle_end hpos hseed⟩
  refine h1.of_same (h1.grounded.of_same_votes hsame)
    hsame.first_level ?_ ?_
  · rw [honly]
    rfl
  · intro key
    rw [honly]
    rfl

omit [Environment] in
/-- The seeds of the first cycles. -/
theorem init_seeds {l : List (Cycle × seed_repr.Seed)}
    (h : l.foldlM (fun ctxt (entry : Cycle × seed_repr.Seed) =>
      Storage.Seed.For_cycle.init ctxt entry.1 entry.2) c = .ok c') :
    c'.cycles.nonces = c.cycles.nonces ∧
      ∀ k, (c'.cycles.random_seed.lookup k).isSome ↔
        k ∈ l.map Prod.fst ∨ (c.cycles.random_seed.lookup k).isSome := by
  induction l generalizing c with
  | nil =>
    cases h
    exact ⟨rfl, by simp⟩
  | cons entry l ih =>
    rw [foldlM_cons] at h
    obtain ⟨c1, hinit, h⟩ := bind_inv h
    rw [init_eq_ok_iff] at hinit
    obtain ⟨_, rfl⟩ := hinit
    obtain ⟨hnonces, hseeds⟩ := ih h
    refine ⟨hnonces, ?_⟩
    intro k
    have hput : (Storage.Seed.For_cycle.put c entry.1 (some entry.2)).cycles.random_seed.lookup k =
        if k = entry.1 then some entry.2 else c.cycles.random_seed.lookup k := rfl
    rw [hseeds, hput, map_cons, mem_cons]
    by_cases hk : k = entry.1
    · simp [hk]
    · simp [hk]

/-- The first seeds, and no nonce yet. -/
theorem genesis_seeds (henv : Lawful_environment) {level : Raw_level} {timestamp fitness : Int64}
    (h : (init_storage.prepare_first_block param level timestamp fitness).outcome = .ok c) :
    c.cycles.nonces = Store.empty ∧
      ∀ k : Nat, (c.cycles.random_seed.lookup k).isSome ↔ k ≤ 1 + c.constants.preserved_cycles := by
  have hgrounded := (genesis_grounded henv h).1
  obtain ⟨c1, c2, c3, c4, c5, ⟨hempty, _, hconstants, _⟩, hseed, _, ⟨hcycles3, _⟩, hcycles, hinit,
    hlistings⟩ := prepare_first_block_success henv h
  have hsame : c.cycles.nonces = c2.cycles.nonces ∧
      c.cycles.random_seed = c2.cycles.random_seed := by
    rw [vote_storage.freeze_listings_only hlistings, vote_storage.init_only hinit,
      roll_storage.init_first_cycles_only hcycles, ← hcycles3]
    exact ⟨rfl, rfl⟩
  obtain ⟨hnonces, hseeds⟩ := init_seeds hseed
  rw [hempty] at hnonces
  refine ⟨hsame.1.trans hnonces, ?_⟩
  intro k
  rw [hsame.2, hseeds, hempty, hgrounded.preserved_cycles_eq, map_fst_zip]
  · have hpreserved : constants_storage.preserved_cycles c1 = param.constants.preserved_cycles := by
      rw [← hconstants]
      rfl
    rw [hpreserved, mem_range]
    simp only [Cycles.empty, lookup_empty, Option.isSome_none, Bool.false_eq_true, or_false]
    omega
  · unfold seed_repr.initial_seeds
    rw [length_map]

/-- The windows of the first block. -/
theorem genesis_seeded (henv : Lawful_environment)
    (hpreserved : 0 < param.constants.preserved_cycles) {level : Raw_level}
    {timestamp fitness : Int64} {cycle : Nat} (hcycle : cycle ≤ 1)
    (h : (init_storage.prepare_first_block param level timestamp fitness).outcome = .ok c)
    (hbound : bound ≤ c.first_level + 1) : Seeded param c cycle bound := by
  obtain ⟨hnonces, hseeds⟩ := genesis_seeds henv h
  have hgrounded := (genesis_grounded henv h).1
  rw [← hgrounded.preserved_cycles_eq] at hpreserved
  refine ⟨hgrounded, ?_, ?_⟩
  · intro k
    rw [hseeds]
    omega
  · intro k l
    rw [hnonces]
    refine iff_of_false (by simp) ?_
    rintro ⟨hlower, hupper, _⟩
    exact absurd (lt_of_lt_of_le hupper hbound) (not_lt.mpr (succ_le_of_lt hlower))

/-- Seeds and nonces as a window over chains. -/
theorem seeded_windowed (henv : Lawful_environment)
    (hpreserved : 0 < param.constants.preserved_cycles) :
    Windowed (fun _ => True) param (Seeded param) where
  grounded h := h.grounded
  same h hgrounded hfirst hcycles :=
    h.of_same hgrounded hfirst (by rw [hcycles]) fun _ => by rw [hcycles]
  reveal h hgrounded hfirst hreveal :=
    h.of_same hgrounded hfirst (reveal_nonces hreveal).1 (reveal_nonces hreveal).2
  closing := Seeded.closing
  cycle_end h hpos hseed hroll _ _ _ _ := h.cycle_end hpreserved hpos hseed hroll
  genesis {c} _ _ _ h := by
    obtain ⟨hgrounded, hlevel⟩ := genesis_grounded henv h
    constructor
    · refine genesis_seeded henv hpreserved ?_ h (by rw [hlevel])
      rw [cycle_from_raw, hlevel, Nat.add_sub_cancel_left]
      exact div_le_self 1 _
    · refine genesis_seeded henv hpreserved ?_ h (by rw [hlevel]; exact le_succ _)
      rw [hgrounded.level, cycle_from_raw, hlevel, Nat.sub_self, Nat.zero_div]
      exact zero_le 1

omit [Environment] in
/-- A seed is found where the check for its cycle passes. -/
theorem Seeded.for_cycle (h : Seeded param c c.level.cycle bound)
    (hpreserved : 0 < param.constants.preserved_cycles) (cycle : Nat) :
    (∃ seed, seed_storage.for_cycle c cycle = .ok seed) ↔
      c.level.cycle - param.constants.preserved_cycles ≤ cycle ∧
        cycle ≤ if c.level.cycle = cycle_repr.root
          then cycle_repr.add c.level.cycle (param.constants.preserved_cycles + 1)
          else cycle_repr.add c.level.cycle param.constants.preserved_cycles := by
  have hseed := h.seeds cycle
  rw [h.grounded.preserved_cycles_eq] at hseed
  have holdest : (if c.level.cycle < param.constants.preserved_cycles then none
      else some (c.level.cycle - param.constants.preserved_cycles)).getD cycle_repr.root =
      c.level.cycle - param.constants.preserved_cycles := by
    split
    · next hyoung => exact (Nat.sub_eq_zero_of_le hyoung.le).symm
    · rfl
  have hsub : cycle_repr.sub c.level.cycle param.constants.preserved_cycles =
      .ok (if c.level.cycle < param.constants.preserved_cycles then none
        else some (c.level.cycle - param.constants.preserved_cycles)) :=
    cycle_repr.sub_eq_ok_iff.mpr ⟨hpreserved, rfl⟩
  unfold seed_storage.for_cycle
  simp only [level_storage.current, raw_context.current_level, constants_storage.preserved_cycles,
    h.grounded.preserved_cycles_eq, hsub, bind_ok, holdest, bind_eq_ok_iff,
    fail_unless_eq_ok_iff, Bool.and_eq_true, decide_eq_true_eq]
  constructor
  · rintro ⟨_, _, hcheck, _⟩
    exact hcheck
  · intro hcheck
    have hstored : (c.cycles.random_seed.lookup cycle).isSome := by
      refine hseed.mpr ⟨hcheck.1, ?_⟩
      refine hcheck.2.trans ?_
      unfold cycle_repr.root cycle_repr.add
      split
      · next hzero =>
        rw [hzero]
        omega
      · exact Nat.add_le_add_right (le_max_left _ _) _
    obtain ⟨seed, hseed⟩ := Option.isSome_iff_exists.mp hstored
    exact ⟨seed, (), hcheck, (get_eq_ok_iff _).mpr hseed⟩

/-- Seeds are stored for the cycles of the window and found there; nonces are
stored for levels of the current cycle and the one before that expect one. If
none is expected from the genesis block, then every cycle ends with all nonces of
the cycle before found and deleted, and those not revealed returned. -/
theorem seed_and_nonce_window (henv : Lawful_environment) (param : Parameters)
    (hpreserved : 1 ≤ param.constants.preserved_cycles) :
    (∀ c, In_block param c →
      (∀ k : Nat, (c.cycles.random_seed.lookup k).isSome ↔
        c.level.cycle - param.constants.preserved_cycles ≤ k ∧
          k ≤ max c.level.cycle 1 + param.constants.preserved_cycles) ∧
      (∀ k : Nat, (∃ seed, seed_storage.for_cycle c k = .ok seed) ↔
        c.level.cycle - param.constants.preserved_cycles ≤ k ∧
          k ≤ if c.level.cycle = cycle_repr.root
            then cycle_repr.add c.level.cycle (param.constants.preserved_cycles + 1)
            else cycle_repr.add c.level.cycle param.constants.preserved_cycles) ∧
      ∀ k l : Nat, (c.cycles.nonces.lookup (k, l)).isSome →
        (k = c.level.cycle ∨ k + 1 = c.level.cycle) ∧ k = (from_raw c l).cycle ∧
          (from_raw c l).expected_commitment = true) ∧
    (2 ≤ param.constants.blocks_per_commitment →
      ∀ c data receipts protocol_data delegate c', Chain param c → Validating c data receipts →
      data.ctxt.level.level = c.level.level + 1 →
      protocol_data.seed_nonce_hash.isSome = data.ctxt.level.expected_commitment →
      apply.Closing data.ctxt protocol_data delegate c' →
      baking.last_of_a_cycle c' c'.level = true →
      ∃ c'' unrevealed, seed_storage.cycle_end c' c'.level.cycle = .ok (c'', unrevealed) ∧
        (c'.level.cycle = 0 → unrevealed = []) ∧
        ∀ revealed, c'.level.cycle = revealed + 1 →
          ∃ levels, Nonces_ended c' c'' revealed unrevealed levels) := by
  constructor
  · intro c hc
    have h := (seeded_windowed henv hpreserved).in_block henv hc.always
    have hseeds := h.seeds
    unfold Seed_window at hseeds
    rw [h.grounded.preserved_cycles_eq] at hseeds
    refine ⟨hseeds, h.for_cycle hpreserved, ?_⟩
    intro k l hsome
    obtain ⟨_, hupper, hcycle, hexpected, hle⟩ := (h.nonces k l).mp hsome
    have hmono : (from_raw c l).cycle ≤ (from_raw c c.level.level).cycle := cycle_mono hupper.le
    rw [← hcycle, ← h.grounded.level] at hmono
    refine ⟨?_, hcycle, hexpected⟩
    rcases lt_or_eq_of_le hmono with hlt | heq
    · exact .inr (le_antisymm hlt hle)
    · exact .inl heq
  · intro hcommitment c data receipts protocol_data delegate c' hc hdata hlevel hhash hclosing hlast
    obtain ⟨hseeded, hfirst⟩ := (seeded_windowed henv hpreserved).validating henv
      hc.always hdata hlevel
    have h := hseeded.closing hfirst hhash hclosing
    rw [← hclosing.same_votes.level] at h
    have hpreserved' : 0 < c'.constants.preserved_cycles := by
      rw [h.grounded.preserved_cycles_eq]
      exact hpreserved
    have hcommitment_eq : c'.constants.blocks_per_commitment =
        param.constants.blocks_per_commitment :=
      congrArg (·.blocks_per_commitment) h.grounded.fixed
    have hgenesis : (from_raw c' c'.first_level).expected_commitment = false := by
      unfold from_raw level_repr.from_raw
      dsimp only
      rw [Nat.sub_self, Nat.zero_mod, Nat.zero_mod, hcommitment_eq, beq_eq_false_iff_ne]
      exact (Nat.sub_pos_of_lt hcommitment).ne
    have hbound l (hlt : (from_raw c' l).cycle < c'.level.cycle) : l < c'.level.level + 1 := by
      by_contra hle
      have hmono : (from_raw c' c'.level.level).cycle ≤ (from_raw c' l).cycle :=
        cycle_mono (le_of_succ_le (not_lt.mp hle))
      rw [← h.grounded.level] at hmono
      exact absurd hlt (not_lt.mpr hmono)
    obtain ⟨⟨c'', unrevealed⟩, hend⟩ := cycle_end_total h.seeds h.nonces hpreserved'
      (blocks_per_cycle_pos hlast) hgenesis hbound
    refine ⟨c'', unrevealed, hend, ?_, ?_⟩
    · intro hzero
      obtain ⟨_, c1, _, _, ⟨_, _, hnone⟩ | ⟨revealed, hrevealed, _⟩⟩ := cycle_end_eq_ok_iff.mp hend
      · exact hnone
      · rw [hzero] at hrevealed
        cases hrevealed
    · intro revealed hrevealed
      rw [hrevealed] at hend
      exact cycle_end_nonces hend

/-- A block up to the end of its cycle. -/
def closed (param : Parameters) (block : Nat → Block_header × List Operation) (number : Nat)
    (delegate : Public_key_hash) : Carbonated (Context × Validation_state × Context) := do
  let c ← baked param (fun _ => true) block number
  let (header, _) := block (number + 1)
  let data ← begin_application ⟨0⟩ c (block number).1.timestamp (block number).1.fitness header
  fail_unless (decide (data.ctxt.level.level = c.level.level + 1)) .Invalid_arg
  let c1 ← raw_context.add_deposit data.ctxt delegate data.ctxt.constants.block_security_deposit
  let reward ← baking.baking_reward c1 header.contents.priority data.ctxt.included_endorsements
  let c2 ← raw_context.add_rewards c1 reward
  let c3 ← apply.freeze_deposits c2
  let c4 ← apply.freeze_baker_income c3 header.contents delegate
  let c5 ← apply.may_snapshot_roll c4
  pure (c, data, c5)

/-- A run that bakes blocks and closes the next one. -/
theorem closed_closing {param : Parameters} {block : Nat → Block_header × List Operation}
    {number : Nat} {delegate : Public_key_hash} {c c' : Context} {data : Validation_state}
    (h : (closed param block number delegate).outcome = .ok (c, data, c')) :
    Chain param c ∧ Validating c data [] ∧ data.ctxt.level.level = c.level.level + 1 ∧
      apply.Closing data.ctxt (block (number + 1)).1.contents delegate c' := by
  unfold closed at h
  simp only [outcome_bind_eq_ok_iff, outcome_monadLift, fail_unless_eq_ok_iff,
    decide_eq_true_eq] at h
  obtain ⟨_, hbaked, _, hbegin, _, hlevel, c1, hdeposit, reward, hreward, c2, hadd, c3, hdeposits, c4,
    hincome, _, hsnapshot, h⟩ := h
  cases h
  have hchain := (baked_chain (S := fun _ => True) (fun _ _ => trivial) hbaked).chain
  exact ⟨hchain, .begin_application hbegin, hlevel, c1, reward, c2, c3, c4, hdeposit, hreward, hadd,
    hdeposits, hincome, hsnapshot⟩

section

omit [Environment]

/-- A chain with two blocks in every cycle. -/
def two_blocks_per_cycle (blocks_per_commitment : Nat) : Parameters :=
  { init_storage.single_delegate with
    constants := { init_storage.single_delegate.constants with
      blocks_per_cycle := 2
      blocks_per_commitment } }

/-- The blocks of this chain, of which every second one commits to a nonce, or all do. -/
def committing_block (blocks_per_commitment number : Nat) : Block_header × List Operation :=
  ({ plain_block number with
    contents :=
      { priority := 0
        seed_nonce_hash := if number % blocks_per_commitment + 1 = blocks_per_commitment
          then some 32 else none
        proof_of_work_nonce := [] } }, [])

/-- The second cycle of the chain ends with the nonce of the second block, which
was not revealed. -/
theorem seed_and_nonce_window_second_cycle :
    let _ := unscripted_environment
    ∃ c data c' c'' unrevealed levels, Chain (two_blocks_per_cycle 2) c ∧ Validating c data [] ∧
      In_block (two_blocks_per_cycle 2) data.ctxt ∧ c'.level.cycle = 1 ∧
      (∀ k : Nat, (data.ctxt.cycles.random_seed.lookup k).isSome ↔ 0 ≤ k ∧ k ≤ 2) ∧
      seed_storage.cycle_end c' 1 = .ok (c'', unrevealed) ∧ unrevealed.length = 1 ∧
      seed_storage.Nonces_ended c' c'' 0 unrevealed levels := by
  intro _
  have hreturns : (do
      let (_, data, c') ← closed (two_blocks_per_cycle 2) (committing_block 2) 2 (.Ed25519 0)
      pure ((data.ctxt.level.expected_commitment && decide (data.ctxt.level.cycle = 1)) &&
        (baking.last_of_a_cycle c' c'.level && decide (c'.level.cycle = 1)) &&
        (seed_storage.cycle_end c' 1).returns fun r => decide (r.2.length = 1)) :
          Carbonated Bool).outcome.returns id = true := by
    decide +kernel
  simp only [returns_bind_iff, returns_pure, id_eq, decide_eq_true_eq, Bool.and_eq_true] at hreturns
  obtain ⟨⟨c, data, c'⟩, hclosed, ⟨⟨hexpected, hcycle⟩, hlast, hcycle'⟩, hreturns⟩ := hreturns
  obtain ⟨⟨c'', unrevealed⟩, hend, hlength⟩ := Result.returns_iff.mp hreturns
  obtain ⟨hchain, hdata, hlevel, hclosing⟩ := closed_closing hclosed
  have hin : In_block (two_blocks_per_cycle 2) data.ctxt := .validating hchain hdata hlevel
  obtain ⟨hblocks, hends⟩ := seed_and_nonce_window unscripted_environment_lawful
    (two_blocks_per_cycle 2) (by decide)
  obtain ⟨hseeds, _⟩ := hblocks data.ctxt hin
  rw [hcycle] at hseeds
  obtain ⟨c2, unrevealed2, hend2, _, hnonces⟩ := hends (by decide) c data [] _ _ c' hchain hdata
    hlevel (by rw [hexpected]; rfl) hclosing hlast
  rw [hcycle', hend] at hend2
  cases hend2
  obtain ⟨levels, hended⟩ := hnonces 0 hcycle'
  exact ⟨c, data, c', c'', unrevealed, levels, hchain, hdata, hin, hcycle', hseeds, hend,
    of_decide_eq_true hlength, hended⟩

/-- The genesis block expects a nonce and records none, so that the second cycle
cannot end. -/
theorem seed_and_nonce_window_every_level_commits :
    let _ := unscripted_environment
    ∃ c data c', Chain (two_blocks_per_cycle 1) c ∧ Validating c data [] ∧
      data.ctxt.level.level = c.level.level + 1 ∧
      (committing_block 1 3).1.contents.seed_nonce_hash.isSome =
        data.ctxt.level.expected_commitment ∧
      apply.Closing data.ctxt (committing_block 1 3).1.contents (.Ed25519 0) c' ∧
      baking.last_of_a_cycle c' c'.level = true ∧
      seed_storage.cycle_end c' c'.level.cycle =
        .error [.Storage_error (.Missing_key (.nonce 0 1) .Get)] := by
  intro _
  have hreturns : (do
      let (_, data, c') ← closed (two_blocks_per_cycle 1) (committing_block 1) 2 (.Ed25519 0)
      pure ((data.ctxt.level.expected_commitment && baking.last_of_a_cycle c' c'.level) &&
        (seed_storage.cycle_end c' c'.level.cycle).fails (missing (.nonce 0 1) .Get)) :
          Carbonated Bool).outcome.returns id = true := by
    decide +kernel
  simp only [returns_bind_iff, returns_pure, id_eq, Bool.and_eq_true, Result.fails_iff,
    missing_iff, exists_eq_right] at hreturns
  obtain ⟨⟨c, data, c'⟩, hclosed, ⟨hexpected, hlast⟩, hfails⟩ := hreturns
  obtain ⟨hchain, hdata, hlevel, hclosing⟩ := closed_closing hclosed
  refine ⟨c, data, c', hchain, hdata, hlevel, ?_, hclosing, hlast, hfails⟩
  rw [hexpected]
  rfl

end

end main

end plexus
