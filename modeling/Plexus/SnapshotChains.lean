import Plexus.SnapshotWindow

/-! The snapshots of rolls in the blocks of a chain. -/

namespace plexus.main

open roll_storage level_storage Traced Nat

variable {param : Parameters} {c c' : Context}

/-- The seeds are fair to the snapshots that are drawn from. -/
def Fair_draws [Environment] (c : Context) : Prop :=
  ∀ cycle seed, c.cycles.random_seed.lookup cycle = some seed →
    Fair (Int32.ofNat (snapshots_for c cycle)) (snapshot_sequence seed)

theorem snapshots_taken_of_fixed (hfixed : c'.constants.fixed = c.constants.fixed)
    (hfirst : c'.first_level = c.first_level) (cycle : Nat) (bound : Raw_level) :
    snapshots_taken c' cycle bound = snapshots_taken c cycle bound := by
  have hpreserved : c'.constants.preserved_cycles = c.constants.preserved_cycles :=
    congrArg (·.preserved_cycles) hfixed
  have hsnapshot : c'.constants.blocks_per_roll_snapshot = c.constants.blocks_per_roll_snapshot :=
    congrArg (·.blocks_per_roll_snapshot) hfixed
  unfold snapshots_taken snapshot_levels
  simp only [hpreserved, hsnapshot, hfirst, from_raw_of_fixed hfixed hfirst]

theorem snapshots_for_of_fixed (hfixed : c'.constants.fixed = c.constants.fixed)
    (hfirst : c'.first_level = c.first_level) (cycle : Nat) :
    snapshots_for c' cycle = snapshots_for c cycle := by
  have hpreserved : c'.constants.preserved_cycles = c.constants.preserved_cycles :=
    congrArg (·.preserved_cycles) hfixed
  have hsnapshot : c'.constants.blocks_per_roll_snapshot = c.constants.blocks_per_roll_snapshot :=
    congrArg (·.blocks_per_roll_snapshot) hfixed
  have hblocks : c'.constants.blocks_per_cycle = c.constants.blocks_per_cycle :=
    congrArg (·.blocks_per_cycle) hfixed
  unfold snapshots_for snapshot_levels first_level_in_cycle
  simp only [hpreserved, hsnapshot, hblocks, hfirst, from_raw_of_fixed hfixed hfirst]

/-- The snapshots stored in a cycle, after those of levels below a bound. -/
structure Snapshotted (param : Parameters) (c : Context) (n : Nat) (bound : Raw_level) : Prop where
  grounded : Grounded param c
  window : Snapshot_window c n bound

variable {bound : Raw_level}

theorem Snapshotted.of_untouched {n : Nat} (h : Snapshotted param c n bound)
    (hgrounded : Grounded param c') (hfirst : c'.first_level = c.first_level)
    (huntouched : ∀ k, Untouched c c' k) : Snapshotted param c' n bound := by
  have hfixed := hgrounded.fixed.trans h.grounded.fixed.symm
  have hpreserved : c'.constants.preserved_cycles = c.constants.preserved_cycles :=
    congrArg (·.preserved_cycles) hfixed
  refine ⟨hgrounded, ?_, ?_, ?_, ?_⟩ <;> rw [hpreserved]
  · intro k hk
    exact (h.window.before k hk).of_untouched (huntouched k)
  · intro k hlow hhigh
    obtain ⟨index, hfrozen⟩ := h.window.frozen k hlow hhigh
    exact ⟨index, hfrozen.of_untouched (huntouched k)⟩
  · intro k hk
    rw [snapshots_taken_of_fixed hfixed hfirst]
    exact (h.window.opened k hk).of_untouched (huntouched k)
  · intro k hk
    exact (h.window.after k hk).of_untouched (huntouched k)

theorem untouched_of_cycles (h : c'.cycles = c.cycles) (k : Cycle) : Untouched c c' k := by
  refine ⟨?_, ?_, ?_⟩
  · rw [h]
  · intro j
    rw [h]
  · intro j
    rw [h]

/-- Seeds are kept apart from snapshots. -/
theorem untouched_of_seeds (h : seeds.Only c c') (k : Cycle) : Untouched c c' k := by
  rw [h]
  exact ⟨rfl, fun _ => rfl, fun _ => rfl⟩

theorem Grounded.snapshots_eq (h : Grounded param c) :
    c.constants.blocks_per_cycle = param.constants.blocks_per_cycle ∧
      c.constants.blocks_per_roll_snapshot = param.constants.blocks_per_roll_snapshot :=
  ⟨congrArg (·.blocks_per_cycle) h.fixed, congrArg (·.blocks_per_roll_snapshot) h.fixed⟩

theorem Grounded.snapshots_fit (h : Grounded param c) (hfit : Snapshots_fit param.constants) :
    Snapshots_fit c.constants := by
  unfold Snapshots_fit
  rw [h.snapshots_eq.1, h.snapshots_eq.2]
  exact hfit

theorem Grounded.snapshot_every_cycle (h : Grounded param c)
    (hevery : Snapshot_every_cycle param.constants) : Snapshot_every_cycle c.constants := by
  unfold Snapshot_every_cycle
  rw [h.snapshots_eq.1, h.snapshots_eq.2]
  exact hevery

variable [Environment]

section

variable (hevery : Snapshot_every_cycle param.constants) (hfit : Snapshots_fit param.constants)

include hevery hfit

theorem Snapshotted.closing {protocol_data : Block_header_contents} {delegate : Public_key_hash}
    (h : Snapshotted param c c.level.cycle c.level.level) (hfirst : c.first_level < c.level.level)
    (hclosing : apply.Closing c protocol_data delegate c') :
    Snapshotted param c' c.level.cycle (c.level.level + 1) := by
  have hsame := hclosing.same_votes
  have hgrounded' := h.grounded.of_same_votes hsame
  obtain ⟨c1, c2, hsetting, hrecord, hsnapshot⟩ := hclosing.recorded
  have hgrounded1 : Grounded param c1 := h.grounded.of_same
    (congrArg Constants.fixed hsetting.constants) hsetting.first_level hsetting.level
  have h1 := h.of_untouched hgrounded1 hsetting.first_level (untouched_of_cycles hsetting.cycles)
  have h2 : Snapshotted param c2 c.level.cycle c.level.level ∧ c2.first_level = c.first_level ∧
      c2.level = c.level := by
    rcases hrecord with ⟨_, rfl⟩ | ⟨unrevealed, _, hrecord⟩
    · exact ⟨h1, hsetting.first_level, hsetting.level⟩
    · have honly := nonce_storage.record_hash_only hrecord
      have hsame2 := apply.Same_votes.of_cycles_only (honly.of_part seeds_part)
      exact ⟨h1.of_untouched (hgrounded1.of_same_votes hsame2)
        hsame2.first_level (untouched_of_seeds honly), hsame2.first_level.trans hsetting.first_level,
        hsame2.level.trans hsetting.level⟩
  obtain ⟨h2, hfirst2, hlevel2⟩ := h2
  refine ⟨hgrounded', ?_⟩
  refine h2.window.may_snapshot_roll ?_ (by rw [hlevel2]) (by rw [hfirst2]; exact hfirst)
    (h2.grounded.snapshots_fit hfit)
    (h2.grounded.snapshot_every_cycle hevery).blocks_per_cycle_pos hsnapshot
  have hlevel := h2.grounded.level
  rw [hlevel2] at hlevel ⊢
  exact hlevel

theorem Snapshotted.cycle_end {c1 : Context} {unrevealed : List Unrevealed_nonce}
    (h : Snapshotted param c c.level.cycle (c.level.level + 1)) (hdraws : Fair_draws c')
    (hseed : seed_storage.cycle_end c c.level.cycle = .ok (c1, unrevealed))
    (hroll : roll_storage.cycle_end c1 c.level.cycle = .ok c') :
    Snapshotted param c' (c.level.cycle + 1) (c.level.level + 1) := by
  have honly1 := seed_storage.cycle_end_only hseed
  have hsame1 := apply.Same_votes.of_cycles_only (honly1.of_part seeds_part)
  have hgrounded1 := h.grounded.of_same_votes hsame1
  have h1 := h.of_untouched hgrounded1 hsame1.first_level (untouched_of_seeds honly1)
  have honly2 := roll_storage.cycle_end_only hroll
  have hsame2 := apply.Same_votes.of_cycles_only (honly2.of_part snapshots_part)
  have hseeds : c'.cycles.random_seed = c1.cycles.random_seed := by
    rw [honly2]
    rfl
  have hover l (hl : (from_raw c1 l).cycle < c.level.cycle) : l < c.level.level + 1 := by
    by_contra hle
    rw [from_raw_of_fixed hsame1.constants hsame1.first_level] at hl
    have hmono : (from_raw c c.level.level).cycle ≤ (from_raw c l).cycle :=
      cycle_mono (le_of_succ_le (not_lt.mp hle))
    rw [← h.grounded.level] at hmono
    exact absurd hl (not_lt.mpr hmono)
  have hbound l (hl : l < c.level.level + 1) : (from_raw c1 l).cycle ≤ c.level.cycle := by
    rw [from_raw_of_fixed hsame1.constants hsame1.first_level, h.grounded.level]
    exact cycle_mono (le_of_lt_succ hl)
  have hpos := (hgrounded1.snapshot_every_cycle hevery).blocks_per_cycle_pos
  refine ⟨hgrounded1.of_same_votes hsame2,
    h1.window.cycle_end hbound (hgrounded1.snapshots_fit hfit) hpos ?_ hroll⟩
  intro seed hlookup
  rw [← hseeds] at hlookup
  rw [snapshots_taken_eq hpos hover, ← snapshots_for_of_fixed hsame2.constants hsame2.first_level]
  exact hdraws _ seed hlookup

end

theorem genesis_snapshotted (henv : Lawful_environment) {level : Raw_level}
    {timestamp fitness : Int64}
    (h : (init_storage.prepare_first_block param level timestamp fitness).outcome = .ok c)
    (hbound : bound ≤ c.first_level + 1) : Snapshotted param c 0 bound := by
  have hgrounded := (genesis_grounded henv h).1
  obtain ⟨c1, c2, c3, c4, c5, ⟨hempty, _, hconstants, _⟩, hseed, _, ⟨hcycles3, _, hfixed3, _⟩,
    hcycles, hinit, hlistings⟩ := init_storage.prepare_first_block_success henv h
  have hempty3 k : Absent c3 k := by
    have hkept : Kept c1 k none fun _ => False := by
      refine ⟨?_, ?_, ?_⟩
      · rw [hempty]
        rfl
      · intro j
        rw [hempty]
        exact iff_of_false (by simp [Cycles.empty]) id
      · intro j
        rw [hempty]
        exact iff_of_false (by simp [Cycles.empty]) id
    exact (hkept.of_untouched (untouched_of_seeds (seed_storage.init_only hseed) k)).of_untouched
      (untouched_of_cycles hcycles3 k)
  obtain ⟨hfrozen, hopen1, hopen2, habsent⟩ := init_first_cycles_success hempty3 hcycles
  have hsame : c.cycles = c4.cycles := by
    rw [vote_storage.freeze_listings_only hlistings, vote_storage.init_only hinit]
    rfl
  have huntouched := untouched_of_cycles hsame
  have hpreserved : c.constants.preserved_cycles = c3.constants.preserved_cycles := by
    have hfixed2 : c2.constants = c1.constants := by
      rw [seed_storage.init_only hseed]
      rfl
    have hpreserved3 : c3.constants.preserved_cycles = c2.constants.preserved_cycles :=
      congrArg (·.preserved_cycles) hfixed3
    rw [hpreserved3, hfixed2, hconstants]
    exact hgrounded.preserved_cycles_eq
  have hnone cycle : snapshot_levels c cycle bound = ∅ := by
    apply Finset.filter_eq_empty_iff.mpr
    rintro l hl ⟨hlower, _⟩
    exact absurd (lt_of_lt_of_le (Finset.mem_range.mp hl) hbound) (not_lt.mpr hlower)
  refine ⟨hgrounded, ?_, ?_, ?_, ?_⟩ <;> rw [hpreserved]
  · intro k hk
    omega
  · intro k _ hk
    obtain ⟨index, hindex⟩ := hfrozen k (by omega)
    exact ⟨index, hindex.of_untouched (huntouched k)⟩
  · intro k hk
    unfold snapshots_taken
    rw [hnone, Finset.card_empty, hpreserved]
    by_cases hfirst : k = c3.constants.preserved_cycles + 1
    · rw [if_pos hfirst, hfirst]
      exact hopen1.of_untouched (huntouched _)
    · have hsecond : k = c3.constants.preserved_cycles + 2 := by omega
      rw [if_neg hfirst, hsecond]
      exact hopen2.of_untouched (huntouched _)
  · intro k hk
    exact (habsent k (by omega)).of_untouched (huntouched k)

theorem snapshotted_windowed (henv : Lawful_environment)
    (hevery : Snapshot_every_cycle param.constants) (hfit : Snapshots_fit param.constants) :
    Windowed Fair_draws param (Snapshotted param) where
  grounded h := h.grounded
  same h hgrounded hfirst hcycles := h.of_untouched hgrounded hfirst (untouched_of_cycles hcycles)
  reveal h hgrounded hfirst hreveal :=
    h.of_untouched hgrounded hfirst (untouched_of_seeds (nonce_storage.reveal_only hreveal))
  closing h hfirst _ hclosing := h.closing hevery hfit hfirst hclosing
  cycle_end h _ hseed hroll hdraws hgrounded hfirst hcycles := by
    have hgrounded2 := (h.grounded.of_same_votes (apply.Same_votes.of_cycles_only
      ((seed_storage.cycle_end_only hseed).of_part seeds_part))).of_same_votes
        (apply.Same_votes.of_cycles_only ((roll_storage.cycle_end_only hroll).of_part snapshots_part))
    have hfixed := hgrounded.fixed.trans hgrounded2.fixed.symm
    refine h.cycle_end hevery hfit (fun cycle seed hlookup => ?_) hseed hroll
    rw [← hcycles] at hlookup
    rw [← snapshots_for_of_fixed hfixed hfirst]
    exact hdraws cycle seed hlookup
  genesis {c} _ _ _ h := by
    obtain ⟨hgrounded, hlevel⟩ := genesis_grounded henv h
    constructor
    · have hcycle : (from_raw c (c.level.level + 1)).cycle = 0 := by
        rw [cycle_from_raw, hlevel, Nat.add_sub_cancel_left]
        exact div_eq_of_lt (hgrounded.snapshot_every_cycle hevery).two_le
      rw [hcycle]
      exact genesis_snapshotted henv h (by rw [hlevel])
    · have hcycle : c.level.cycle = 0 := by
        rw [hgrounded.level, cycle_from_raw, hlevel, Nat.sub_self, Nat.zero_div]
      rw [hcycle]
      exact genesis_snapshotted henv h (by rw [hlevel]; exact le_succ _)

/-- Nothing is missing when the owner of a roll is drawn. -/
theorem owner_total {index : Nat} {level : Level} (hseeded : Seeded param c c.level.cycle bound)
    (hpreserved : 0 < param.constants.preserved_cycles)
    (hlow : c.level.cycle - param.constants.preserved_cycles ≤ level.cycle)
    (hhigh : level.cycle ≤ c.level.cycle + param.constants.preserved_cycles)
    (hfrozen : Frozen c level.cycle index) (kind : String) (offset : Nat) (e : Trace) :
    Random.owner c kind level offset ≠ .error e := by
  have hlatest : level.cycle ≤ if c.level.cycle = cycle_repr.root
      then cycle_repr.add c.level.cycle (param.constants.preserved_cycles + 1)
      else cycle_repr.add c.level.cycle param.constants.preserved_cycles := by
    split
    · exact le_succ_of_le hhigh
    · exact hhigh
  obtain ⟨_, hseed⟩ := (hseeded.for_cycle hpreserved level.cycle).mpr ⟨hlow, hlatest⟩
  have hindex : Storage.Roll.Snapshot_for_cycle_get c level.cycle = .ok index :=
    Storage.Roll.Snapshot_for_cycle_get_eq_ok_iff.mpr hfrozen.number_eq
  obtain ⟨last, hlast⟩ := Option.isSome_iff_exists.mp ((hfrozen.last index).mpr rfl)
  have hget_last : Storage.Roll.Last_for_snapshot.get c (level.cycle, index) = .ok last :=
    (Indexed_data_storage.get_eq_ok_iff _).mpr hlast
  have hexists : Storage.Roll.Owner_snapshot_exists c (level.cycle, index) = true :=
    (hfrozen.owners index).mpr rfl
  have hloop : ∀ fuel sequence,
      Random.owner_loop c (level.cycle, index) last fuel sequence ≠ .error e := by
    intro fuel
    induction fuel with
    | zero =>
      intro sequence h
      cases h
    | succ fuel ih =>
      intro sequence h
      rw [Random.owner_loop] at h
      rcases seed_repr.take_int32_cases sequence last with
        ⟨hdraw, _⟩ | ⟨_, hdraw | ⟨roll, sequence', hdraw, _⟩⟩ <;> rw [hdraw] at h
      · cases h
      · cases h
      · rw [Result.bind_ok] at h
        dsimp only at h
        split at h
        · exact ih sequence' h
        · cases h
  unfold Random.owner
  dsimp only
  rw [hseed, Result.bind_ok, hindex, Result.bind_ok, hget_last, Result.bind_ok, hexists]
  exact hloop _ _

/-- In chains whose draws are fair, in which every cycle takes a snapshot and none
takes too many: one snapshot is chosen and kept for each cycle of
the window, those of the next two cycles are kept as they are taken, owners are
found, and no key is missing or exists already at the end of a cycle. -/
theorem roll_snapshot_window (henv : Lawful_environment) (param : Parameters)
    (hpreserved : 1 ≤ param.constants.preserved_cycles)
    (hevery : Snapshot_every_cycle param.constants) (hfit : Snapshots_fit param.constants) :
    (∀ c, In_block_where Fair_draws param c →
      (∀ k : Nat, c.level.cycle - param.constants.preserved_cycles ≤ k →
        k ≤ c.level.cycle + param.constants.preserved_cycles → ∃ index, Frozen c k index) ∧
      (∀ k : Nat, k = c.level.cycle + param.constants.preserved_cycles + 1 ∨
        k = c.level.cycle + param.constants.preserved_cycles + 2 →
        Open c k (snapshots_taken c k c.level.level)) ∧
      ∀ (level : Level) kind offset e,
        c.level.cycle - param.constants.preserved_cycles ≤ level.cycle →
        level.cycle ≤ c.level.cycle + param.constants.preserved_cycles →
        Random.owner c kind level offset ≠ .error e) ∧
    ∀ c data receipts protocol_data delegate c1 c2 unrevealed,
      Chain_where Fair_draws param c → Validating c data receipts →
      data.ctxt.level.level = c.level.level + 1 →
      protocol_data.seed_nonce_hash.isSome = data.ctxt.level.expected_commitment →
      apply.Closing data.ctxt protocol_data delegate c1 →
      baking.last_of_a_cycle c1 c1.level = true →
      seed_storage.cycle_end c1 c1.level.cycle = .ok (c2, unrevealed) →
      roll_storage.cycle_end c2 c1.level.cycle = .div ∨
        ∃ c3, roll_storage.cycle_end c2 c1.level.cycle = .ok c3 := by
  constructor
  · intro c hc
    have h := (snapshotted_windowed henv hevery hfit).in_block henv hc
    have hseeded := (seeded_windowed henv hpreserved).in_block henv hc.in_block.always
    have hwindow := h.window
    have heq := h.grounded.preserved_cycles_eq
    refine ⟨?_, ?_, ?_⟩
    · rw [← heq]
      exact hwindow.frozen
    · rw [← heq]
      exact hwindow.opened
    · intro level kind offset e hlow hhigh
      obtain ⟨index, hfrozen⟩ := hwindow.frozen level.cycle (by rw [heq]; exact hlow)
        (by rw [heq]; exact hhigh)
      exact owner_total hseeded hpreserved hlow hhigh hfrozen kind offset e
  · intro c data receipts protocol_data delegate c1 c2 unrevealed hc hdata hlevel hhash hclosing
      hlast hend
    obtain ⟨h, hfirst⟩ := (snapshotted_windowed henv hevery hfit).validating henv hc hdata hlevel
    obtain ⟨hseeded, _⟩ := (seeded_windowed henv hpreserved).validating henv
      hc.chain.always hdata hlevel
    have h1 := h.closing hevery hfit hfirst hclosing
    have hseeded1 := hseeded.closing hfirst hhash hclosing
    rw [← hclosing.same_votes.level] at h1 hseeded1
    have honly := seed_storage.cycle_end_only hend
    have hsame := apply.Same_votes.of_cycles_only (honly.of_part seeds_part)
    have hgrounded := h1.grounded.of_same_votes hsame
    have h2 := h1.of_untouched hgrounded hsame.first_level (untouched_of_seeds honly)
    have hpos : 0 < c1.constants.preserved_cycles := by
      rw [h1.grounded.preserved_cycles_eq]
      exact hpreserved
    have hseeds2 := hseeded1.seeds.cycle_end hpos hend
    refine cycle_end_total h2.window ?_ (hgrounded.snapshot_every_cycle hevery)
      (hgrounded.snapshots_fit hfit) ?_ ?_
    · rw [hgrounded.preserved_cycles_eq]
      exact hpreserved
    · intro l hlt
      by_contra hle
      rw [from_raw_of_fixed hsame.constants hsame.first_level] at hlt
      have hmono : (from_raw c1 c1.level.level).cycle ≤ (from_raw c1 l).cycle :=
        cycle_mono (le_of_succ_le (not_lt.mp hle))
      rw [← h1.grounded.level] at hmono
      exact absurd hlt (not_lt.mpr hmono)
    · exact (hseeds2 _).mpr (by omega)

section

omit [Environment]

/-- A chain with four blocks in every cycle, which all take a snapshot. -/
def every_level_snapshots : Parameters :=
  { init_storage.single_delegate with
    constants := { init_storage.single_delegate.constants with
      blocks_per_cycle := 4
      blocks_per_roll_snapshot := 1 } }

theorem snapshot_every_four_levels : Snapshot_every_cycle every_level_snapshots.constants := by
  intro cycle
  refine ⟨4 * cycle + 1, by omega, ?_, ?_⟩
  · change (4 * cycle + 1) / 4 = cycle
    omega
  · change (4 * cycle + 1) % 4 % 1 + 1 = 1
    omega

/-- Every hash starts with the bytes of the least integer. -/
@[reducible] def least_draws : Environment :=
  { unscripted_environment with state_hash := fun _ => ⟨128 :: List.replicate 31 0, rfl⟩ }

end

omit [Environment] in
/-- Hashes of zeros only draw zeros. -/
theorem unscripted_fair_draws (c : Context) : @Fair_draws unscripted_environment c := by
  let _ := unscripted_environment
  intro cycle seed _ n _ hleast
  rw [word, Function.iterate_succ_apply'] at hleast
  have hzero : seed_repr.get_int32 (List.replicate 32 0) ≠ Int32.minValue := by decide
  exact absurd hleast hzero

omit [Environment] in
/-- In the third cycle, one of the three snapshots taken in the first cycle has been
drawn for the fourth one. -/
theorem roll_snapshot_window_third_cycle :
    let _ := unscripted_environment
    ∃ c, In_block_where Fair_draws every_level_snapshots c ∧ c.level.cycle = 2 ∧
      snapshots_for c 3 = 3 ∧ ∃ index, Frozen c 3 index := by
  intro _
  have hreturns : (do
      let c ← baked every_level_snapshots (fun _ => true) (plain_block · , []) 7
      let data ← begin_application ⟨0⟩ c 2100 (plain_block 7).fitness (plain_block 8)
      pure (decide (data.ctxt.level.level = c.level.level + 1) &&
        decide (data.ctxt.level.cycle = 2) && decide (snapshots_for data.ctxt 3 = 3)) :
          Carbonated Bool).outcome.returns id = true := by
    decide +kernel
  simp only [returns_bind_iff, returns_pure, outcome_monadLift, id_eq,
    decide_eq_true_eq, Bool.and_eq_true] at hreturns
  obtain ⟨c, hbaked, data, hbegin, ⟨hlevel, hcycle⟩, hthree⟩ := hreturns
  have hc : In_block_where Fair_draws every_level_snapshots data.ctxt :=
    .validating (baked_chain (fun c _ => unscripted_fair_draws c) hbaked)
      (.begin_application hbegin) hlevel
  have hfit : Snapshots_fit every_level_snapshots.constants := by
    unfold Snapshots_fit
    decide
  obtain ⟨hfrozen, _⟩ := (roll_snapshot_window unscripted_environment_lawful every_level_snapshots
    (by decide) snapshot_every_four_levels hfit).1 data.ctxt hc
  rw [hcycle] at hfrozen
  exact ⟨data.ctxt, hc, hcycle, hthree, hfrozen 3 (by decide) (by decide)⟩

omit [Environment] in
/-- The draw from three snapshots is negative. It cannot be stored, and all three
are dropped. -/
theorem roll_snapshot_window_least_draws :
    let _ := least_draws
    1 ≤ every_level_snapshots.constants.preserved_cycles ∧
      Snapshot_every_cycle every_level_snapshots.constants ∧
      ∃ c, In_block every_level_snapshots c ∧ c.level.cycle = 2 ∧ ∀ index, ¬ Frozen c 3 index := by
  intro _
  refine ⟨by decide, snapshot_every_four_levels, ?_⟩
  have hreturns : (do
      let c ← baked every_level_snapshots (fun _ => true) (plain_block · , []) 7
      let data ← begin_application ⟨0⟩ c 2100 (plain_block 7).fitness (plain_block 8)
      pure (decide (data.ctxt.level.level = c.level.level + 1) &&
        decide (data.ctxt.level.cycle = 2) &&
        decide (data.ctxt.cycles.roll_snapshot.lookup 3 = some none)) :
          Carbonated Bool).outcome.returns id = true := by
    decide +kernel
  simp only [returns_bind_iff, returns_pure, outcome_monadLift, id_eq,
    decide_eq_true_eq, Bool.and_eq_true] at hreturns
  obtain ⟨c, hbaked, data, hbegin, ⟨hlevel, hcycle⟩, hnumber⟩ := hreturns
  have hchain := (baked_chain (S := fun _ => True) (fun _ _ => trivial) hbaked).chain
  refine ⟨data.ctxt, .validating hchain (.begin_application hbegin) hlevel, hcycle, ?_⟩
  intro index hfrozen
  have hindex := hfrozen.number_eq
  rw [hnumber] at hindex
  cases hindex

end plexus.main

namespace plexus.roll_storage

open Result (bind_inv)
open Storage.Roll (uint16_to_bytes)

variable [Environment]

/-- A drawn number, roll or snapshot is in range exactly when the first word of the
sequence that is not dropped is not the least integer, or the bound divides it. A
number of snapshots is read from two bytes. -/
theorem draws_in_range :
    (∀ sequence sequence' bound v, seed_repr.take_int32 sequence bound = .ok (v, sequence') →
      (0 ≤ v.toInt ∧ v.toInt < bound.toInt ↔ Fair bound sequence)) ∧
    (∀ c id sequence sequence' bound roll, Storage.Roll.Last_for_snapshot.get c id = .ok bound →
      roll_repr.random sequence bound = .ok (roll, sequence') →
      (0 ≤ roll.toInt ∧ roll.toInt < bound.toInt ↔ Fair bound sequence)) ∧
    ∀ c c' cycle max_index, Storage.Roll.Snapshot_for_cycle_get c cycle = .ok max_index →
      max_index < 2 ^ 16 → freeze_rolls_for_cycle c cycle = .ok c' →
      ∃ seed selected sequence, c.cycles.random_seed.lookup cycle = some seed ∧
        seed_repr.take_int32 (snapshot_sequence seed) (Int32.ofNat max_index) =
          .ok (selected, sequence) ∧
        c'.cycles.roll_snapshot.lookup cycle = some (uint16_to_bytes selected.toInt) ∧
        (0 ≤ selected.toInt ∧ selected.toInt < max_index ↔
          Fair (Int32.ofNat max_index) (snapshot_sequence seed)) := by
  refine ⟨fun _ _ _ _ h => take_int32_range h, fun _ _ _ _ _ _ _ h => take_int32_range h, ?_⟩
  intro c c' cycle max_index hindex hfits h
  unfold freeze_rolls_for_cycle at h
  rw [hindex, Result.bind_ok] at h
  obtain ⟨seed, hseed, h⟩ := bind_inv h
  rw [Indexed_data_storage.get_eq_ok_iff] at hseed
  obtain ⟨⟨selected, sequence⟩, hdraw, h⟩ := bind_inv h
  obtain ⟨c1, hset, hdrop⟩ := bind_inv h
  rw [Indexed_data_storage.set_eq_ok_iff] at hset
  have hrange := take_int32_range hdraw
  rw [toInt_ofNat_count hfits] at hrange
  refine ⟨seed, selected, sequence, hseed, hdraw, ?_, hrange⟩
  -- Dropping the other snapshots does not write the number.
  have hnumber : c'.cycles.roll_snapshot = c1.cycles.roll_snapshot := by
    refine Result.foldlM_preserves (P := (·.cycles.roll_snapshot = c1.cycles.roll_snapshot)) ?_
      hdrop rfl
    intro ctxt index ctxt' hround heq
    split at hround
    · cases hround
      exact heq
    · rw [((Indexed_data_storage.delete_eq_ok_iff _).mp hround).2]
      exact heq
  rw [hnumber, hset.2]
  exact Store.lookup_put_self _ _ _

omit [Environment] in
/-- The least integer is no obstacle to a draw below four. -/
theorem draws_in_range_four :
    let _ := main.least_draws
    ∃ sequence', seed_repr.take_int32 (snapshot_sequence (Environment.state_hash [])) 4 =
      .ok (0, sequence') ∧ (0 ≤ (0 : Int32).toInt ∧ (0 : Int32).toInt < (4 : Int32).toInt) := by
  obtain ⟨sequence', hdraw⟩ : ∃ sequence', @seed_repr.take_int32 main.least_draws
      (@snapshot_sequence main.least_draws (main.least_draws.state_hash [])) 4 =
        .ok (0, sequence') :=
    ⟨_, rfl⟩
  have hrange := (@draws_in_range main.least_draws).1 _ sequence' 4 0 hdraw
  exact ⟨sequence', hdraw, hrange.mpr fun _ _ _ => by decide⟩

omit [Environment] in
/-- The least integer drawn below three is minus two. -/
theorem draw_below_three_negative :
    let _ := main.least_draws
    ∃ sequence', seed_repr.take_int32 (snapshot_sequence (Environment.state_hash [])) 3 =
      .ok (-2, sequence') :=
  ⟨_, rfl⟩

end plexus.roll_storage
