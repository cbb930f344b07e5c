import Plexus.Apply
import Plexus.ContractSpecs

/-! The context is made of groups of stores. Seeds and snapshots are written
by functions that write nothing else, and so are votes. -/

namespace plexus

open Option Store

open Result (bind_eq_ok_iff bind_inv bind_ok ends_ok ends_raise foldlM_preserves)
open Indexed_data_storage (delete_eq_ok_iff get_eq_ok_iff init_eq_ok_iff)

/-- A group of stores, as it is read and replaced. -/
structure Component (α : Type) where
  read : Context → α
  write : Context → α → Context
  write_read : ∀ c, write c (read c) = c
  write_write : ∀ c a b, write (write c a) b = write c b

namespace Component

variable {α : Type} (g : Component α)

/-- Nothing outside the group differs between the two contexts. -/
def Only (c c' : Context) : Prop := c' = g.write c (g.read c')

variable {g} {c c' c'' : Context}

theorem Only.refl (c : Context) : g.Only c c := (g.write_read c).symm

/-- Writes to one component compose. -/
theorem Only.trans (h : g.Only c c') (h' : g.Only c' c'') : g.Only c c'' := by
  calc c''
    _ = g.write c' (g.read c'') := h'
    _ = g.write (g.write c (g.read c')) (g.read c'') := by rw [← h]
    _ = g.write c (g.read c'') := g.write_write c _ _

/-- A group of stores that belongs to a larger one. -/
def Part {β : Type} (g : Component α) (g' : Component β) : Prop := ∀ c a, g'.Only c (g.write c a)

/-- A write to a part is a write to the whole. -/
theorem Only.of_part {β : Type} {g' : Component β} (h : g.Only c c') (hpart : g.Part g') :
    g'.Only c c' := by
  have honly := hpart c (g.read c')
  rwa [← h] at honly

end Component

section Accessors

variable {α : Type} {g : Component α} {c c' : Context}

def Single_data_storage.In {V : Type} (s : Single_data_storage V) (g : Component α) : Prop :=
  ∀ ctxt v, g.Only ctxt (s.update ctxt v)

def Indexed_data_storage.In {K V : Type} (s : Indexed_data_storage K V) (g : Component α) : Prop :=
  ∀ ctxt store, g.Only ctxt (s.update ctxt store)

/-- An accessor of a component writes to that component only. -/
theorem Single_data_storage.In.init {V : Type} {s : Single_data_storage V} (hs : s.In g) {v : V}
    (h : s.init c v = .ok c') : g.Only c c' := by
  rw [Single_data_storage.init_eq_ok_iff] at h
  rw [h.2]
  exact hs c _

variable {K V : Type} [DecidableEq K] {s : Indexed_data_storage K V} {k : K}

/-- Initialising a key of a component writes to it only. -/
theorem Indexed_data_storage.In.init (hs : s.In g) {v : V} (h : s.init c k v = .ok c') :
    g.Only c c' := by
  rw [init_eq_ok_iff] at h
  rw [h.2]
  exact hs c _

/-- Setting a key of a component writes to it only. -/
theorem Indexed_data_storage.In.set (hs : s.In g) {v : V} (h : s.set c k v = .ok c') :
    g.Only c c' := by
  rw [Indexed_data_storage.set_eq_ok_iff] at h
  rw [h.2]
  exact hs c _

/-- Deleting a key of a component writes to it only. -/
theorem Indexed_data_storage.In.delete (hs : s.In g) (h : s.delete c k = .ok c') :
    g.Only c c' := by
  rw [delete_eq_ok_iff] at h
  rw [h.2]
  exact hs c _

end Accessors

/-! Seeds and snapshots. -/

def cycles : Component Cycles where
  read c := c.cycles
  write := Context.with_cycles
  write_read _ := rfl
  write_write _ _ _ := rfl

def seeds : Component (Store Cycle State_hash × Store (Cycle × Raw_level) Nonce_status) where
  read c := (c.cycles.random_seed, c.cycles.nonces)
  write c s := c.with_cycles { c.cycles with random_seed := s.1, nonces := s.2 }
  write_read _ := rfl
  write_write _ _ _ := rfl

theorem seeds_part : seeds.Part cycles := fun _ _ => rfl

def snapshots : Component
    (Store Cycle (Option Nat) × Store (Cycle × Nat) Roll ×
      Store (Cycle × Nat) (Store Roll Public_key)) where
  read c := (c.cycles.roll_snapshot, c.cycles.last_roll, c.cycles.snapshots)
  write c s := c.with_cycles { c.cycles with
    roll_snapshot := s.1
    last_roll := s.2.1
    snapshots := s.2.2 }
  write_read _ := rfl
  write_write _ _ _ := rfl

theorem snapshots_part : snapshots.Part cycles := fun _ _ => rfl

namespace Storage

theorem Seed.For_cycle_in : Seed.For_cycle.In seeds := fun _ _ => rfl

theorem Seed.Nonce_in : Seed.Nonce.In seeds := fun _ _ => rfl

theorem Roll.Snapshot_for_cycle_in : Roll.Snapshot_for_cycle.In snapshots := fun _ _ => rfl

theorem Roll.Last_for_snapshot_in : Roll.Last_for_snapshot.In snapshots := fun _ _ => rfl

/-- Taking a snapshot of the owners writes to the snapshots only. -/
theorem Roll.Owner_snapshot_in {c c' : Context} {id : Cycle × Nat}
    (h : Roll.Owner_snapshot c id = .ok c') : snapshots.Only c c' := by
  unfold Roll.Owner_snapshot at h
  split at h
  · exact absurd h fail_ne_ok
  · cases h
    rfl

/-- Deleting a snapshot writes to the snapshots only. -/
theorem Roll.Owner_delete_snapshot_in (c : Context) (id : Cycle × Nat) :
    snapshots.Only c (Roll.Owner_delete_snapshot c id) := rfl

end Storage

variable {c c' : Context} {cycle : Cycle}

namespace seed_storage

/-- Where the nonce of a level is recorded. -/
def nonce_key (level : Level) : Cycle × Raw_level := (level.cycle, level.level)

/-- The nonce of a level, if it was recorded and not revealed. -/
def unrevealed_at (c : Context) (level : Level) : Option Unrevealed_nonce :=
  match c.cycles.nonces.lookup (nonce_key level) with
  | some (.Unrevealed u) => some u
  | _ => none

variable [Environment] {unrevealed : List Unrevealed_nonce}

/-- A level is taken into account if its nonce was recorded. -/
theorem combine_recorded {level : Level} (h : (c.cycles.nonces.lookup (nonce_key level)).isSome)
    (seed : seed_repr.Seed) (unrevealed : List Unrevealed_nonce) :
    ∃ seed', combine (c, seed, unrevealed) level = .ok
      (c.with_cycles { c.cycles with nonces := c.cycles.nonces.put (nonce_key level) none }, seed',
        (unrevealed_at c level).toList ++ unrevealed) := by
  obtain ⟨status, hstatus⟩ := isSome_iff_exists.mp h
  have hget : Storage.Seed.Nonce.get c (level.cycle, level.level) = .ok status :=
    (get_eq_ok_iff _).mpr hstatus
  have hdelete := (delete_eq_ok_iff Storage.Seed.Nonce).mpr ⟨⟨status, hstatus⟩, rfl⟩
  unfold combine unrevealed_at
  dsimp only
  rw [hget, bind_ok, hstatus]
  cases status
  all_goals
    rw [nonce_key] at hdelete
    rw [hdelete]
    exact ⟨_, rfl⟩

/-- A round of the seed reads and deletes the nonce of one level, and adds it to
the seed or to the list of those not revealed. -/
theorem combine_success {level : Level} {seed seed' : seed_repr.Seed} {unrevealed' : List Unrevealed_nonce}
    (h : combine (c, seed, unrevealed) level = .ok (c', seed', unrevealed')) :
    (c.cycles.nonces.lookup (nonce_key level)).isSome ∧
      c' = c.with_cycles { c.cycles with nonces := c.cycles.nonces.put (nonce_key level) none } ∧
      unrevealed' = (unrevealed_at c level).toList ++ unrevealed := by
  obtain ⟨status, hget, _⟩ := bind_inv h
  have hfound := isSome_iff_exists.mpr ⟨status, (get_eq_ok_iff _).mp hget⟩
  obtain ⟨_, hround⟩ := combine_recorded hfound seed unrevealed
  rw [hround] at h
  cases h
  exact ⟨hfound, rfl, rfl⟩

/-- The seed of a cycle is made of the seed before it and of the nonces of the
revealed cycle, and is stored where there was none. -/
theorem compute_for_cycle_eq_ok_iff {revealed : Cycle} :
    compute_for_cycle c revealed (cycle + 1) = .ok (c', unrevealed) ↔
      ∃ levels prev_seed c1 seed,
        level_storage.levels_with_commitments_in_cycle c revealed = .ok levels ∧
        c.cycles.random_seed.lookup cycle = some prev_seed ∧
        levels.foldlM combine (c, seed_repr.deterministic_seed prev_seed, []) =
          .ok (c1, seed, unrevealed) ∧
        c1.cycles.random_seed.lookup (cycle + 1) = none ∧
        c' = c1.with_cycles { c1.cycles with
          random_seed := c1.cycles.random_seed.put (cycle + 1) (some seed) } := by
  have hpred : cycle_repr.pred (cycle + 1) = some cycle := rfl
  unfold compute_for_cycle
  simp only [hpred, bind_eq_ok_iff, get_eq_ok_iff, init_eq_ok_iff, Prod.exists]
  constructor
  · rintro ⟨levels, hlevels, prev_seed, hprev, c1, seed, _, hfold, c2, ⟨hnext, rfl⟩, h⟩
    cases h
    exact ⟨levels, prev_seed, c1, seed, hlevels, hprev, hfold, hnext, rfl⟩
  · rintro ⟨levels, prev_seed, c1, seed, hlevels, hprev, hfold, hnext, rfl⟩
    exact ⟨levels, hlevels, prev_seed, hprev, c1, seed, _, hfold, _, ⟨hnext, rfl⟩, rfl⟩

/-- The oldest seed was dropped, if it is old enough. -/
def Cleared (c : Context) (last_cycle : Nat) (c1 : Context) : Prop :=
  last_cycle < c.constants.preserved_cycles ∧ c1 = c ∨
    c.constants.preserved_cycles ≤ last_cycle ∧
    c1 = c.with_cycles { c.cycles with
      random_seed := c.cycles.random_seed.put (last_cycle - c.constants.preserved_cycles) none }

variable {last_cycle : Nat}

/-- The calls of `cycle_end`: the oldest seed is dropped, and a new one made from
the nonces of the cycle before. -/
theorem cycle_end_eq_ok_iff : cycle_end c last_cycle = .ok (c', unrevealed) ↔
    0 < c.constants.preserved_cycles ∧ ∃ c1, Cleared c last_cycle c1 ∧
      (c.constants.preserved_cycles ≤ last_cycle →
        (c.cycles.random_seed.lookup (last_cycle - c.constants.preserved_cycles)).isSome) ∧
      (last_cycle = 0 ∧ c' = c1 ∧ unrevealed = [] ∨
        ∃ revealed, last_cycle = revealed + 1 ∧
          compute_for_cycle c1 revealed (last_cycle + c.constants.preserved_cycles + 1) =
            .ok (c', unrevealed)) := by
  unfold cycle_end
  simp only [bind_eq_ok_iff, cycle_repr.sub_eq_ok_iff, constants_storage.preserved_cycles]
  constructor
  · rintro ⟨_, ⟨hpreserved, rfl⟩, c1, hclear, hcompute⟩
    refine ⟨hpreserved, c1, ?_⟩
    rw [← and_assoc]
    constructor
    · by_cases hyoung : last_cycle < c.constants.preserved_cycles
      · rw [if_pos hyoung] at hclear
        cases hclear
        exact ⟨.inl ⟨hyoung, rfl⟩, fun hold => absurd hyoung (not_lt.mpr hold)⟩
      · rw [if_neg hyoung] at hclear
        obtain ⟨hstored, rfl⟩ := (delete_eq_ok_iff _).mp hclear
        exact ⟨.inr ⟨not_lt.mp hyoung, rfl⟩, fun _ => isSome_iff_exists.mpr hstored⟩
    · cases last_cycle with
      | zero =>
        cases hcompute
        exact .inl ⟨rfl, rfl, rfl⟩
      | succ revealed => exact .inr ⟨revealed, rfl, hcompute⟩
  · rintro ⟨hpreserved, c1, hc1, hstored, hcompute⟩
    refine ⟨_, ⟨hpreserved, rfl⟩, c1, ?_, ?_⟩
    · rcases hc1 with ⟨hyoung, rfl⟩ | ⟨hold, rfl⟩
      · rw [if_pos hyoung]
        rfl
      · rw [if_neg (not_lt.mpr hold)]
        exact (delete_eq_ok_iff _).mpr ⟨isSome_iff_exists.mp (hstored hold), rfl⟩
    · rcases hcompute with ⟨rfl, rfl, rfl⟩ | ⟨revealed, rfl, hcompute⟩
      · rfl
      · exact hcompute

/-- The seeds of a new cycle are the only thing that its end writes here. -/
theorem cycle_end_only (h : cycle_end c last_cycle = .ok (c', unrevealed)) : seeds.Only c c' := by
  obtain ⟨_, c1, hclear, _, hcompute⟩ := cycle_end_eq_ok_iff.mp h
  have honly1 : seeds.Only c c1 := by
    rcases hclear with ⟨_, rfl⟩ | ⟨_, rfl⟩ <;> rfl
  rcases hcompute with ⟨_, rfl, _⟩ | ⟨revealed, _, hcompute⟩
  · exact honly1
  · obtain ⟨_, _, c2, _, _, _, hfold, _, rfl⟩ := compute_for_cycle_eq_ok_iff.mp hcompute
    have honly2 : seeds.Only c c2 := by
      refine foldlM_preserves (P := fun acc => seeds.Only c acc.1) ?_ hfold honly1
      rintro ⟨c3, _, _⟩ _ ⟨c4, _, _⟩ hround hacc
      obtain ⟨_, rfl, _⟩ := combine_success hround
      exact hacc.trans rfl
    exact honly2.trans rfl

/-- The first seeds are written to the seeds. -/
theorem init_only (h : init c = .ok c') : seeds.Only c c' :=
  foldlM_preserves
    (fun _ _ _ hround hacc => Component.Only.trans hacc (Storage.Seed.For_cycle_in.init hround)) h
    (Component.Only.refl c)

end seed_storage

namespace nonce_storage

variable [Environment]

omit [Environment] in
/-- A commitment is recorded among the nonces. -/
theorem record_hash_only {unrevealed : Unrevealed_nonce} (h : record_hash c unrevealed = .ok c') :
    seeds.Only c c' :=
  Storage.Seed.Nonce_in.init h

/-- A revealed nonce takes the place of its hash. -/
theorem reveal_only {level : Level} {nonce : MBytes} (h : reveal c level nonce = .ok c') :
    seeds.Only c c' := by
  obtain ⟨_, _, h⟩ := bind_inv h
  obtain ⟨_, _, h⟩ := bind_inv h
  exact Storage.Seed.Nonce_in.set h

end nonce_storage

namespace roll_storage

/-- Clearing a cycle touches its snapshots only. -/
theorem clear_cycle_only (h : clear_cycle c cycle = .ok c') : snapshots.Only c c' := by
  obtain ⟨_, _, h⟩ := bind_inv h
  obtain ⟨c1, hsnapshot, h⟩ := bind_inv h
  obtain ⟨c2, hlast, h⟩ := bind_inv h
  cases h
  have honly2 := (Storage.Roll.Snapshot_for_cycle_in.delete hsnapshot).trans
    (Storage.Roll.Last_for_snapshot_in.delete hlast)
  exact honly2.trans (Storage.Roll.Owner_delete_snapshot_in c2 _)

/-- A snapshot of the rolls is no change of the rolls. -/
theorem snapshot_rolls_for_cycle_only (h : snapshot_rolls_for_cycle c cycle = .ok c') :
    snapshots.Only c c' := by
  obtain ⟨_, _, h⟩ := bind_inv h
  obtain ⟨c1, hset, h⟩ := bind_inv h
  obtain ⟨c2, howner, h⟩ := bind_inv h
  obtain ⟨_, _, h⟩ := bind_inv h
  have honly2 := (Storage.Roll.Snapshot_for_cycle_in.set hset).trans
    (Storage.Roll.Owner_snapshot_in howner)
  exact honly2.trans (Storage.Roll.Last_for_snapshot_in.init h)

variable [Environment]

/-- Choosing a snapshot deletes the other ones and nothing else. -/
theorem freeze_rolls_for_cycle_only (h : freeze_rolls_for_cycle c cycle = .ok c') :
    snapshots.Only c c' := by
  obtain ⟨_, _, h⟩ := bind_inv h
  obtain ⟨_, _, h⟩ := bind_inv h
  obtain ⟨⟨_, _⟩, _, h⟩ := bind_inv h
  obtain ⟨c1, hset, h⟩ := bind_inv h
  refine foldlM_preserves ?_ h
    (Storage.Roll.Snapshot_for_cycle_in.set hset)
  intro c2 index c3 hround hacc
  split at hround
  · cases hround
    exact hacc
  · have honly := hacc.trans (Storage.Roll.Owner_delete_snapshot_in c2 (cycle, index))
    exact honly.trans (Storage.Roll.Last_for_snapshot_in.delete hround)

omit [Environment] in
/-- The snapshot of the oldest cycle was dropped, if it is old enough. -/
def Cleared (c : Context) (n : Nat) (c1 : Context) : Prop :=
  n < c.constants.preserved_cycles ∧ c1 = c ∨
    c.constants.preserved_cycles ≤ n ∧ clear_cycle c (n - c.constants.preserved_cycles) = .ok c1

/-- At the end of a cycle the snapshots of an old one are cleared, one of those
of a later one is chosen, and the counter of the last is set to zero. -/
theorem cycle_end_success {n : Nat} (h : cycle_end c n = .ok c') :
    ∃ c1 c2, Cleared c n c1 ∧
      freeze_rolls_for_cycle c1 (n + c.constants.preserved_cycles + 1) = .ok c2 ∧
      Storage.Roll.Snapshot_for_cycle.init c2 (n + c.constants.preserved_cycles + 3)
        (Storage.Roll.uint16_to_bytes 0) = .ok c' := by
  obtain ⟨_, hsub, h⟩ := bind_inv h
  obtain ⟨c1, hclear, h⟩ := bind_inv h
  obtain ⟨c2, hfreeze, hinit⟩ := bind_inv h
  rw [cycle_repr.sub_eq_ok_iff] at hsub
  obtain ⟨_, rfl⟩ := hsub
  refine ⟨c1, c2, ?_, hfreeze, hinit⟩
  by_cases hyoung : n < c.constants.preserved_cycles
  · rw [constants_storage.preserved_cycles, if_pos hyoung] at hclear
    cases hclear
    exact .inl ⟨hyoung, rfl⟩
  · rw [constants_storage.preserved_cycles, if_neg hyoung] at hclear
    exact .inr ⟨not_lt.mp hyoung, hclear⟩

/-- The end of a cycle writes to the snapshots only. -/
theorem cycle_end_only {n : Nat} (h : cycle_end c n = .ok c') : snapshots.Only c c' := by
  obtain ⟨c1, c2, hclear, hfreeze, hinit⟩ := cycle_end_success h
  have honly1 : snapshots.Only c c1 := by
    rcases hclear with ⟨_, rfl⟩ | ⟨_, hclear⟩
    · exact .refl c1
    · exact clear_cycle_only hclear
  exact (honly1.trans (freeze_rolls_for_cycle_only hfreeze)).trans
    (Storage.Roll.Snapshot_for_cycle_in.init hinit)

/-- So do the first cycles. -/
theorem init_first_cycles_only (h : init_first_cycles c = .ok c') : snapshots.Only c c' := by
  obtain ⟨c1, hfold, h⟩ := bind_inv h
  obtain ⟨c2, hinit, h⟩ := bind_inv h
  obtain ⟨c3, hsnapshot, h⟩ := bind_inv h
  have honly1 : snapshots.Only c c1 := by
    refine foldlM_preserves ?_ hfold (.refl c)
    intro c4 cycle c5 hround hacc
    obtain ⟨c6, hinit, hround⟩ := bind_inv hround
    obtain ⟨c7, hsnapshot, hround⟩ := bind_inv hround
    have honly := (hacc.trans (Storage.Roll.Snapshot_for_cycle_in.init hinit)).trans
      (snapshot_rolls_for_cycle_only hsnapshot)
    exact honly.trans (freeze_rolls_for_cycle_only hround)
  have honly3 := (honly1.trans (Storage.Roll.Snapshot_for_cycle_in.init hinit)).trans
    (snapshot_rolls_for_cycle_only hsnapshot)
  exact honly3.trans (Storage.Roll.Snapshot_for_cycle_in.init h)

omit [Environment] in
/-- The loop over the rolls has less than `2 ^ 32` rounds. -/
theorem fold_counts {α : Type} {P : Nat → α → Prop} {f : Roll → Public_key → α → Tzresult α}
    (hf : ∀ n roll pk a a', f roll pk a = .ok a' → P n a → P (n + 1) a') {init result : α}
    (h : fold c f init = .ok result) (hinit : P 0 init) : ∃ n < 2 ^ 32, P n result := by
  obtain ⟨last, _, h⟩ := bind_inv h
  have hloop : ∀ fuel roll n a, fold_loop c f last fuel roll a = .ok result → P n a →
      ∃ m, m < n + fuel ∧ P m result := by
    intro fuel
    induction fuel with
    | zero =>
      intro roll n a h
      cases h
    | succ fuel ih =>
      intro roll n a h ha
      rw [fold_loop] at h
      split at h
      · cases h
        exact ⟨n, by omega, ha⟩
      · split at h
        · obtain ⟨m, hm, hP⟩ := ih _ n _ h ha
          exact ⟨m, by omega, hP⟩
        · obtain ⟨a1, hround, h⟩ := bind_inv h
          obtain ⟨m, hm, hP⟩ := ih _ (n + 1) _ h (hf _ _ _ _ _ hround ha)
          exact ⟨m, by omega, hP⟩
  obtain ⟨n, hn, hP⟩ := hloop _ _ 0 _ h hinit
  exact ⟨n, by omega, hP⟩

end roll_storage

/-- A block that takes a snapshot writes to the snapshots only. -/
theorem apply.may_snapshot_roll_only (h : apply.may_snapshot_roll c = .ok c') :
    snapshots.Only c c' := by
  unfold apply.may_snapshot_roll at h
  dsimp only at h
  split at h
  · exact roll_storage.snapshot_rolls_for_cycle_only h
  · cases h
    exact .refl c

/-! Commitments to genesis accounts. -/

def commitments : Component (Store Nat Tez) where
  read c := c.commitments
  write c s := { c with commitments := s }
  write_read _ := rfl
  write_write _ _ _ := rfl

theorem Storage.Commitments_in : Storage.Commitments.In commitments := fun _ _ => rfl

/-- The first commitments are written to the commitments. -/
theorem commitment_storage.init_only {l : List Commitment}
    (h : commitment_storage.init c l = .ok c') : commitments.Only c c' :=
  foldlM_preserves
    (fun _ _ _ hround hacc => Component.Only.trans hacc (Storage.Commitments_in.init hround)) h
    (.refl c)

/-! Votes. -/

def votes : Component Votes where
  read c := c.votes
  write := Context.with_votes
  write_read _ := rfl
  write_write _ _ _ := rfl

namespace Storage.Vote

theorem Current_period_kind_in : Current_period_kind.In votes := fun _ _ => rfl

theorem Participation_ema_in : Participation_ema.In votes := fun _ _ => rfl

end Storage.Vote

namespace vote_storage

/-- The listings and their size count rolls, in 32 bits. -/
def Weighed (listings : Store Public_key_hash Int32) (size : Int32) : Prop :=
  ∃ counts : Store Public_key_hash Nat,
    (∀ delegate, listings.lookup delegate = (counts.lookup delegate).map Int32.ofNat) ∧
      counts.sum (fun _ n => n) < 2 ^ 32 ∧ size = Int32.ofNat (counts.sum fun _ n => n)

variable {listings : Store Public_key_hash Int32}

/-- One more roll of a delegate. -/
theorem Weighed.succ {counts : Store Public_key_hash Nat}
    (h : ∀ delegate, listings.lookup delegate = (counts.lookup delegate).map Int32.ofNat)
    (delegate d : Public_key_hash) :
    (listings.put delegate (some ((listings.lookup delegate).getD 0 + 1))).lookup d =
      ((counts.put delegate (some ((counts.lookup delegate).getD 0 + 1))).lookup d).map
        Int32.ofNat := by
  by_cases hd : d = delegate
  · rw [hd, lookup_put_self, lookup_put_self, h delegate, map_some]
    cases counts.lookup delegate with
    | none => rfl
    | some n =>
      rw [map_some, getD_some, getD_some, Int32.ofNat_add]
      rfl
  · rw [lookup_put_ne _ hd, lookup_put_ne _ hd]
    exact h d

/-- `freeze_listings` counts the rolls of every delegate. -/
theorem freeze_listings_success [Environment] (h : freeze_listings c = .ok c') :
    ∃ listings size, c.votes.listings_size = none ∧
      (c.votes.listings = Store.empty → Weighed listings size) ∧
      c' = c.with_votes { c.votes with listings, listings_size := some size } := by
  obtain ⟨⟨c1, total⟩, hfold, h⟩ := bind_inv h
  have hcounted := roll_storage.fold_counts (P := fun n acc =>
    acc.1 = c.with_votes { c.votes with listings := acc.1.votes.listings } ∧
      (c.votes.listings = Store.empty → acc.2 = Int32.ofNat n ∧
        ∃ counts : Store Public_key_hash Nat,
          (∀ d, acc.1.votes.listings.lookup d = (counts.lookup d).map Int32.ofNat) ∧
          counts.sum (fun _ n => n) = n)) ?_ hfold ?_
  · obtain ⟨n, hn, hc1, hcount⟩ := hcounted
    rw [Single_data_storage.init_eq_ok_iff] at h
    obtain ⟨hnone, rfl⟩ := h
    dsimp only at hc1 hcount
    refine ⟨c1.votes.listings, total, ?_, fun hempty => ?_, ?_⟩
    · rw [hc1] at hnone
      exact hnone
    · obtain ⟨htotal, counts, hlookup, hsum⟩ := hcount hempty
      exact ⟨counts, hlookup, by rw [hsum]; exact hn, by rw [hsum]; exact htotal⟩
    · exact congrArg (fun x : Context => x.with_votes
        { x.votes with listings_size := some total }) hc1
  · rintro n _ pk ⟨c2, _⟩ ⟨c3, _⟩ hround ⟨hc2, hcount⟩
    cases hround
    dsimp only at hc2 hcount ⊢
    refine ⟨?_, fun hempty => ?_⟩
    · have hc3 := congrArg (fun x : Context => x.with_votes { x.votes with
        listings := c2.votes.listings.put (Environment.public_key_hash pk)
          (some ((c2.votes.listings.lookup (Environment.public_key_hash pk)).getD 0 + 1)) }) hc2
      exact hc3
    obtain ⟨htotal, counts, hlookup, hsum⟩ := hcount hempty
    refine ⟨?_, counts.put (Environment.public_key_hash pk)
      (some ((counts.lookup (Environment.public_key_hash pk)).getD 0 + 1)), ?_, ?_⟩
    · rw [htotal, Int32.ofNat_add]
      rfl
    · exact Weighed.succ hlookup _
    · have hput := sum_put_add counts (Environment.public_key_hash pk)
        ((counts.lookup (Environment.public_key_hash pk)).getD 0 + 1) fun _ n => n
      rw [hsum] at hput
      cases hold : counts.lookup (Environment.public_key_hash pk) with
      | none =>
        rw [hold] at hput
        simp only [elim_none, getD_none] at hput ⊢
        omega
      | some m =>
        rw [hold] at hput
        simp only [elim_some, getD_some] at hput ⊢
        omega
  · exact ⟨rfl, fun hempty => ⟨rfl, Store.empty, by rw [hempty]; exact fun _ => rfl, rfl⟩⟩

/-- Freezing the listings writes to the votes only. -/
theorem freeze_listings_only [Environment] (h : freeze_listings c = .ok c') :
    votes.Only c c' := by
  obtain ⟨_, _, _, _, rfl⟩ := freeze_listings_success h
  rfl

/-- The proposals are cleared with their counts. -/
theorem clear_proposals_eq (c : Context) : clear_proposals c =
    c.with_votes { c.votes with proposals := ∅, proposals_count := Store.empty } := rfl

theorem clear_ballots_eq (c : Context) :
    clear_ballots c = c.with_votes { c.votes with ballots := Store.empty } := rfl

/-- The listings are cleared with their size. -/
theorem clear_listings_eq (c : Context) : clear_listings c =
    c.with_votes { c.votes with listings := Store.empty, listings_size := none } := rfl

/-- The first period is written to the votes. -/
theorem init_only (h : init c = .ok c') : votes.Only c c' := by
  obtain ⟨c1, hema, h⟩ := bind_inv h
  exact (Storage.Vote.Participation_ema_in.init hema).trans
    (Storage.Vote.Current_period_kind_in.init h)

end vote_storage

namespace amendment

open vote_storage

/-- The vote counted by `check_approval_and_update_participation_ema` changes the
participation only. -/
theorem check_approval_success {approved : Bool}
    (h : check_approval_and_update_participation_ema c = .ok (c', approved)) :
    ∃ ema, c' = c.with_votes { c.votes with participation_ema := ema } := by
  obtain ⟨_, _, h⟩ := bind_inv h
  obtain ⟨_, _, h⟩ := bind_inv h
  obtain ⟨participation_ema, _, h⟩ := bind_inv h
  obtain ⟨_, _, h⟩ := bind_inv h
  obtain ⟨_, _, h⟩ := bind_inv h
  obtain ⟨c1, hset, h⟩ := bind_inv h
  cases h
  rw [Single_data_storage.set_eq_ok_iff] at hset
  exact ⟨_, hset.2⟩

/-- How a voting period is followed by the next. -/
inductive Period_step (c : Context) : Votes → Prop where
  | no_winner {listings : Store Public_key_hash Int32} {size : Int32}
      (hkind : c.votes.current_period_kind = some .Proposal) (hweighed : Weighed listings size) :
      Period_step c { c.votes with
        proposals := ∅
        proposals_count := Store.empty
        listings
        listings_size := some size }
  | winner {proposal : Nat} {listings : Store Public_key_hash Int32} {size : Int32}
      (hkind : c.votes.current_period_kind = some .Proposal) (hweighed : Weighed listings size) :
      Period_step c { c.votes with
        current_period_kind := some .Testing_vote
        current_proposal := some proposal
        proposals := ∅
        proposals_count := Store.empty
        listings
        listings_size := some size }
  | approved {c1 : Context} {approved : Bool}
      (hkind : c.votes.current_period_kind = some .Testing_vote)
      (hcheck : check_approval_and_update_participation_ema c = .ok (c1, approved)) :
      Period_step c { c.votes with
        current_period_kind := some .Testing
        participation_ema := c1.votes.participation_ema
        ballots := Store.empty
        listings := Store.empty
        listings_size := none }
  | tested {listings : Store Public_key_hash Int32} {size : Int32}
      (hkind : c.votes.current_period_kind = some .Testing) (hweighed : Weighed listings size) :
      Period_step c { c.votes with
        current_period_kind := some .Promotion_vote
        listings
        listings_size := some size }
  | concluded {c1 : Context} {approved : Bool} {listings : Store Public_key_hash Int32} {size : Int32}
      (hkind : c.votes.current_period_kind = some .Testing_vote ∨
        c.votes.current_period_kind = some .Promotion_vote)
      (hcheck : check_approval_and_update_participation_ema c = .ok (c1, approved))
      (hweighed : Weighed listings size) :
      Period_step c { c.votes with
        current_period_kind := some .Proposal
        current_proposal := none
        participation_ema := c1.votes.participation_ema
        ballots := Store.empty
        listings
        listings_size := some size }

/-- The rest of a period with a vote that was not approved, or that promoted a
protocol. -/
theorem concluded_step [Environment] {c1 c2 c3 : Context} {approved : Bool}
    (hkind : c.votes.current_period_kind = some .Testing_vote ∨
      c.votes.current_period_kind = some .Promotion_vote)
    (hcheck : check_approval_and_update_participation_ema c = .ok (c1, approved))
    (hdelete : Storage.Vote.Current_proposal.delete (clear_listings (clear_ballots c1)) = .ok c2)
    (hfreeze : freeze_listings c2 = .ok c3)
    (h : Storage.Vote.Current_period_kind.set c3 .Proposal = .ok c') :
    ∃ v, c' = c.with_votes v ∧ Period_step c v := by
  obtain ⟨ema, rfl⟩ := check_approval_success hcheck
  rw [clear_listings_eq, clear_ballots_eq, Single_data_storage.delete_eq_ok_iff] at hdelete
  obtain ⟨_, rfl⟩ := hdelete
  obtain ⟨_, _, _, hweighed, rfl⟩ := freeze_listings_success hfreeze
  obtain ⟨_, rfl⟩ := (Single_data_storage.set_eq_ok_iff _).mp h
  exact ⟨_, by simp, .concluded hkind hcheck (hweighed rfl)⟩

/-- The end of a period is a step of the amendment, if a testing period has no
listings. -/
theorem start_new_voting_period_success [Environment] (h : start_new_voting_period c = .ok c') :
    ∃ v, c' = c.with_votes v ∧ ((c.votes.current_period_kind = some .Testing →
      c.votes.listings = Store.empty) → Period_step c v) := by
  obtain ⟨kind, hkind, h⟩ := bind_inv h
  rw [Single_data_storage.get_eq_ok_iff] at hkind
  cases kind with
  | Proposal =>
    obtain ⟨proposal, _, h⟩ := bind_inv h
    rw [clear_listings_eq, clear_proposals_eq] at h
    cases proposal with
    | none =>
      obtain ⟨listings, size, _, hweighed, rfl⟩ := freeze_listings_success h
      exact ⟨_, by simp, fun _ => .no_winner hkind (hweighed rfl)⟩
    | some proposal =>
      obtain ⟨c1, hinit, h⟩ := bind_inv h
      obtain ⟨c2, hfreeze, hset⟩ := bind_inv h
      obtain ⟨_, rfl⟩ := (Single_data_storage.init_eq_ok_iff _).mp hinit
      obtain ⟨listings, size, _, hweighed, rfl⟩ := freeze_listings_success hfreeze
      obtain ⟨_, rfl⟩ := (Single_data_storage.set_eq_ok_iff _).mp hset
      exact ⟨_, by simp, fun _ => @Period_step.winner c proposal _ _ hkind (hweighed rfl)⟩
  | Testing_vote =>
    obtain ⟨⟨c1, approved⟩, hcheck, h⟩ := bind_inv h
    dsimp only at h
    split at h
    · obtain ⟨_, _, h⟩ := bind_inv h
      obtain ⟨ema, rfl⟩ := check_approval_success hcheck
      rw [clear_listings_eq, clear_ballots_eq, Single_data_storage.set_eq_ok_iff] at h
      obtain ⟨_, rfl⟩ := h
      exact ⟨_, by simp, fun _ => .approved hkind hcheck⟩
    · obtain ⟨c2, hdelete, h⟩ := bind_inv h
      obtain ⟨c3, hfreeze, h⟩ := bind_inv h
      obtain ⟨v, hv, hstep⟩ := concluded_step (.inl hkind) hcheck hdelete hfreeze h
      exact ⟨v, hv, fun _ => hstep⟩
  | Testing =>
    obtain ⟨c1, hfreeze, h⟩ := bind_inv h
    obtain ⟨listings, size, _, hweighed, rfl⟩ := freeze_listings_success hfreeze
    obtain ⟨_, rfl⟩ := (Single_data_storage.set_eq_ok_iff _).mp h
    exact ⟨_, by simp, fun hunlisted => .tested hkind (hweighed (hunlisted hkind))⟩
  | Promotion_vote =>
    obtain ⟨⟨c1, approved⟩, hcheck, h⟩ := bind_inv h
    obtain ⟨_, _, h⟩ := bind_inv h
    obtain ⟨c2, hdelete, h⟩ := bind_inv h
    obtain ⟨c3, hfreeze, h⟩ := bind_inv h
    obtain ⟨v, hv, hstep⟩ := concluded_step (.inr hkind) hcheck hdelete hfreeze h
    exact ⟨v, hv, fun _ => hstep⟩

/-- A block that may end a period writes to the votes only. -/
theorem may_start_new_voting_period_only [Environment]
    (h : may_start_new_voting_period c = .ok c') : votes.Only c c' := by
  unfold may_start_new_voting_period at h
  split at h
  · obtain ⟨v, rfl, _⟩ := start_new_voting_period_success h
    rfl
  · cases h
    exact .refl c

/-- The assertion on lengths fails for negative bounds only. -/
theorem longer_than_spec {α : Type} {R : Exn → Prop} (l : List α) {n : ℤ}
    (h : n < 0 → R .Assert_longer_than) :
    (longer_than l n).Ends R fun longer => longer = false → (l.length : ℤ) ≤ n := by
  induction l generalizing n with
  | nil =>
    rw [longer_than]
    split
    · next hneg => exact ends_raise (h hneg)
    · refine ends_ok fun _ => ?_
      simp only [List.length_nil]
      omega
  | cons a l ih =>
    rw [longer_than]
    split
    · next hneg => exact ends_raise (h hneg)
    · split
      · exact ends_ok (by simp)
      · have hrest := ih (n := n - 1) fun _ => by omega
        refine ⟨hrest.raises, fun hlonger hfalse => ?_⟩
        have hle := hrest.of_ok hlonger hfalse
        rw [List.length_cons]
        omega

/-- The number of proposals of a delegate, as it is counted. -/
theorem recorded_count_eq (c : Context) (d : Public_key_hash) :
    recorded_proposal_count_for_delegate c d = (c.votes.proposals_count.lookup d).getD 0 := by
  have hget : Storage.Vote.Proposals_count.get_option c d = c.votes.proposals_count.lookup d := rfl
  rw [recorded_proposal_count_for_delegate, hget]
  cases c.votes.proposals_count.lookup d <;> rfl

variable {d : Public_key_hash}

/-- A delegate has made more proposals than it may. -/
def Overrun (c : Context) : Prop :=
  ∃ delegate, (constants_repr.max_proposals_per_delegate : ℤ) <
    recorded_proposal_count_for_delegate c delegate

/-- When proposals are recorded, and how. -/
theorem record_proposals_spec {R : Exn → Prop} {proposals : List Nat}
    (h : Overrun c → R .Assert_longer_than) :
    (record_proposals c d proposals).Ends R fun c' =>
      c.votes.current_period_kind = some .Proposal ∧ (c.votes.listings.lookup d).isSome ∧
      (proposals.length : ℤ) ≤ constants_repr.max_proposals_per_delegate -
        (c.votes.proposals_count.lookup d).getD 0 ∧
      c' = proposals.foldl (fun ctxt proposal => record_proposal ctxt proposal d) c := by
  refine .bind (Q := fun _ => True) ?_ fun _ _ => ?_
  · cases proposals
    · exact meets_fail.ends
    · exact ends_ok trivial
  refine .bind Single_data_storage.get_spec.ends fun kind hkind => ?_
  cases kind with
  | Proposal =>
    dsimp only
    split
    · next hlisted =>
      refine .bind (longer_than_spec proposals fun hneg => h ⟨d, by omega⟩)
        fun too_many hlength => ?_
      refine .bind fail_when_spec.ends fun _ hfew => ?_
      rw [recorded_count_eq] at hlength
      exact ends_ok ⟨hkind, hlisted, hlength hfew, rfl⟩
    · exact meets_fail.ends
  | Testing_vote => exact meets_fail.ends
  | Testing => exact meets_fail.ends
  | Promotion_vote => exact meets_fail.ends

/-- Proposals are recorded among the votes. -/
theorem record_proposals_only {proposals : List Nat} (h : record_proposals c d proposals = .ok c') :
    votes.Only c c' := by
  obtain ⟨-, -, -, rfl⟩ := (record_proposals_spec (R := fun _ => True) fun _ => trivial).of_ok h
  clear h
  induction proposals generalizing c with
  | nil => exact .refl c
  | cons p proposals ih =>
    have honly : votes.Only c (record_proposal c p d) := rfl
    exact honly.trans ih

/-- When a ballot is recorded, and how. -/
theorem record_ballot_spec {proposal : Nat} {ballot : Ballot} :
    (record_ballot c d proposal ballot).Meets fun c' =>
      (c.votes.current_period_kind = some .Testing_vote ∨
        c.votes.current_period_kind = some .Promotion_vote) ∧
      (c.votes.listings.lookup d).isSome ∧
      c' = c.with_votes { c.votes with ballots := c.votes.ballots.put d (some ballot) } := by
  have hballot : (record_ballot_for_current_proposal c d proposal ballot).Meets fun c' =>
      (c.votes.listings.lookup d).isSome ∧
      c' = c.with_votes { c.votes with ballots := c.votes.ballots.put d (some ballot) } := by
    refine .bind Single_data_storage.get_spec fun current_proposal _ => ?_
    refine .bind fail_unless_spec fun _ _ => ?_
    refine .bind fail_when_spec fun _ _ => ?_
    split
    · next hlisted => exact Indexed_data_storage.init_spec.imp fun _ h => ⟨hlisted, h.2⟩
    · exact meets_fail
  refine .bind Single_data_storage.get_spec fun kind hkind => ?_
  cases kind with
  | Testing_vote => exact hballot.imp fun _ h => ⟨.inl hkind, h⟩
  | Promotion_vote => exact hballot.imp fun _ h => ⟨.inr hkind, h⟩
  | Testing => exact meets_fail
  | Proposal => exact meets_fail

/-- A ballot is recorded among the votes. -/
theorem record_ballot_only {proposal : Nat} {ballot : Ballot}
    (h : record_ballot c d proposal ballot = .ok c') : votes.Only c c' := by
  obtain ⟨_, _, rfl⟩ := record_ballot_spec.of_ok h
  rfl

end amendment

end plexus
