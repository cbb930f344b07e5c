import Plexus.Accessors.FunctorLaws

/-! `Make_indexed_data_snapshotable_storage`: a snapshot is a copy of the
directory of the current bindings. -/

namespace plexus.storage_functors

open FileTree List

open Rooted (location refocus project_refocus)
open storage_tree (Int63 roll_index snapshoted_owner_index value_of)

/-! Copying a directory -/

namespace Root_context

section Copy

variable {r r' : Root_context} {source target p : Path} {b : Data_encoding.Bytes}
  (h : r.copy source target = .ok r')
include h

/-- A copy replaces the target by what stands at the source. -/
theorem copy_eq : ∃ d, r.context.raw_get source = some d ∧
    r' = { r with context := r.context.raw_set target (some d) } := by
  unfold copy at h
  split at h
  · cases h
  · next d hd =>
    cases h
    exact ⟨d, hd, rfl⟩

/-- Nothing changes apart from the target. -/
theorem copy_changes : Changes (· = target) r r' := by
  obtain ⟨d, -, rfl⟩ := copy_eq h
  exact Changes.raw_set r target (some d)

theorem copy_wf (hwf : r.context.Wf) : r'.context.Wf := by
  obtain ⟨d, hd, rfl⟩ := copy_eq h
  apply hwf.raw_set
  rintro d' hd'
  cases hd'
  exact hwf.raw_get hd

variable (hwf : r.context.Wf) (hsource : source ≠ [])
include hwf hsource

/-- The values below the target are those below the source. -/
theorem copy_value_at (q : Path) :
    r'.context.value_at (target ++ q) = r.context.value_at (source ++ q) := by
  obtain ⟨d, hd, rfl⟩ := copy_eq h
  have hne : d ≠ .empty := by
    rintro rfl
    exact (hwf source [] hd).2 hsource rfl
  rw [value_at, raw_get_raw_set_append hne, value_at_append, hd]
  rfl

/-- A value after the copy was there before, or is the copy of one that was. -/
theorem copy_brings (hb : r'.context.value_at p = some b) : r.context.value_at p = some b ∨
      ∃ q, p = target ++ q ∧ r.context.value_at (source ++ q) = some b := by
  by_cases hpre : target <+: p
  · obtain ⟨q, rfl⟩ := hpre
    rw [copy_value_at h hwf hsource] at hb
    exact .inr ⟨q, rfl, hb⟩
  · obtain ⟨d, -, rfl⟩ := copy_eq h
    by_cases habove : p <+: target
    · have hp : p ≠ target := by
        rintro rfl
        exact hpre habove
      rw [value_at_raw_set_above habove hp, if_neg (by simp)] at hb
      cases hb
    · have hapart := raw_get_raw_set_apart ⟨hpre, habove⟩ r.context (some d)
      exact .inl ((value_at_congr hapart).symm.trans hb)

end Copy

end Root_context

namespace Make_indexed_data_snapshotable_storage

variable {C : T} [Rooted C] {J I : INDEX} {V : VALUE}

instance : Rooted (C_data C) := inferInstanceAs (Rooted (Make_subcontext C data_name))

instance : Rooted (C_snapshot C) := inferInstanceAs (Rooted (Make_subcontext C snapshot_name))

/-- Only keys stand among the current bindings and among the snapshots. -/
def Only_snapshots (C : T) [Rooted C] (Snapshot_index I : INDEX) (s : C.t) : Prop :=
  Only_keys (C_data C) I s ∧ Only_keys (C_snapshot C) (Pair Snapshot_index I) s

/-- The current bindings and the snapshots are those of the two maps. -/
def Holds_snapshots (C : T) [Rooted C] (Snapshot_index I : INDEX) (V : VALUE) (s : C.t)
    (m : I.t → Option V.t) (ms : Snapshot_index.t × I.t → Option V.t) : Prop :=
  Holds V C.project (data_place (C_data C) I) s m ∧
    Holds V C.project (data_place (C_snapshot C) (Pair Snapshot_index I)) s ms

def current_location (s : C.t) : Path := location s ++ data_name

def snapshot_location (s : C.t) (id : J.t) : Path :=
  location s ++ snapshot_path J id

theorem current_location_refocus (s : C.t) (r : Root_context) :
    current_location (refocus s r) = current_location s := by
  rw [current_location, Rooted.location_refocus, current_location]

theorem snapshot_location_refocus (s : C.t) (r : Root_context) (id : J.t) :
    snapshot_location (refocus s r) id = snapshot_location s id := by
  rw [snapshot_location, Rooted.location_refocus, snapshot_location]

theorem current_place (s : C.t) (i : I.t) :
    data_place (C_data C) I s i = current_location s ++ I.to_path i [] := rfl

/-- What stands below different names is apart. -/
theorem names_apart (s : C.t) (p q : Path) :
    Apart (location s ++ (data_name ++ p)) (location s ++ (snapshot_name ++ q)) := by
  have hnames : Apart data_name snapshot_name := apart_of_length_eq rfl (by decide)
  exact apart_append_iff.mpr (hnames.append p q)

theorem current_apart_snapshot (s : C.t) (id : J.t) :
    Apart (current_location s) (snapshot_location s id) := by
  have h := names_apart s [] (J.to_path id [])
  rwa [append_nil] at h

theorem snapshot_eq (s : C.t) (id : J.t) :
    snapshot C J s id =
      (C.project s).copy (current_location s) (snapshot_location s id) := by
  rw [snapshot, Rooted.copy, project_map_refocus]
  rfl

theorem delete_snapshot_eq (s : C.t) (id : J.t) :
    delete_snapshot C J s id = (C.project s).erase (snapshot_location s id) := by
  rw [delete_snapshot, Rooted.remove_rec, project_refocus]
  rfl

variable {s : C.t}

theorem current_location_ne_nil (s : C.t) : current_location s ≠ [] :=
  append_ne_nil_of_right_ne_nil _ (cons_ne_nil _ _)

/-- Without a current binding there is nothing to copy. -/
theorem current_missing (h : Only_snapshots C J I s)
    (hnone : ∀ i, (C.project s).context.value_at (data_place (C_data C) I s i) = none) :
    (C.project s).context.raw_get (current_location s) = none := by
  rw [Option.eq_none_iff_forall_ne_some]
  intro d hd
  have hne : d ≠ .empty := by
    rintro rfl
    exact (h.1.1 (current_location s) [] hd).2 (current_location_ne_nil s) rfl
  obtain ⟨p, b, hb⟩ := exists_value d (h.1.1.raw_get hd) hne
  have hvalue : (C.project s).context.value_at (current_location s ++ p) = some b := by
    rw [value_at_append, hd]
    exact hb
  obtain ⟨i, rfl⟩ := h.1.2 p b hvalue
  have hnone := hnone i
  rw [current_place, hvalue] at hnone
  cases hnone

section Written

variable (k : I.t) {v : V.t} {m : I.t → Option V.t} {ms : J.t × I.t → Option V.t}

theorem init_set_eq (s : C.t) (v : V.t) :
    (Make_indexed_data_storage (C_data C) I V).init_set s k v =
      (C.project s).store (data_place (C_data C) I s k) (Make_encoder.to_bytes V v) :=
  (Make_indexed_data_storage_cellular (C_data C) I V).init_set s k v

/-- Writing a current binding brings no foreign key. -/
theorem init_set_only (h : Only_snapshots C J I s) :
    Only_snapshots C J I (refocus s ((Make_indexed_data_storage (C_data C) I V).init_set s k v)) := by
  rw [init_set_eq]
  refine ⟨Only_at.refocus_store (C := C_data C) h.1 ⟨k, rfl⟩ _,
    Only_at.of_refocus (C := C_snapshot C) (Root_context.store_wf h.1.1 _ _) fun p b hb => ?_⟩
  rcases Root_context.value_at_of_store hb with heq | hb
  · have hapart := names_apart s (I.to_path k []) p
    rw [← append_assoc, ← append_assoc] at hapart
    exact absurd (heq ▸ prefix_refl _) hapart.1
  · exact h.2.2 p b hb

/-- Writing a current binding leaves the snapshots. -/
theorem init_set_holds [Lawful_index I] [DecidableEq I.t] {b : Data_encoding.Bytes}
    (h : Holds_snapshots C J I V s m ms) (hv : V.to_bytes v = some b) :
    Holds_snapshots C J I V (refocus s ((Make_indexed_data_storage (C_data C) I V).init_set s k v))
      (Function.update m k (some v)) ms := by
  rw [init_set_eq, Make_encoder.to_bytes, hv]
  refine ⟨h.1.store (data_place_cells (C_data C) I) k hv, fun i => ?_⟩
  have hplace r : data_place (C_snapshot C) (Pair J I) (refocus (C := C) s r) i =
      data_place (C_snapshot C) (Pair J I) s i :=
    congrArg (· ++ _) (Rooted.location_refocus (C := C_snapshot C) s r)
  rw [project_refocus, ← h.2 i, hplace, (Changes.store _ _ b).value_at]
  rintro _ rfl
  have hapart := names_apart s (I.to_path k []) ((Pair J I).to_path i [])
  rwa [← append_assoc, ← append_assoc] at hapart

end Written

variable [Lawful_index J]

theorem snapshot_place (s : C.t) (id : J.t) (i : I.t) :
    data_place (C_snapshot C) (Pair J I) s (id, i) =
      snapshot_location s id ++ I.to_path i [] := by
  show (location s ++ snapshot_name) ++ J.to_path id (I.to_path i []) = _
  rw [Lawful_index.to_path_append, snapshot_location, snapshot_path]
  simp only [append_assoc]

/-- Different snapshots are apart. -/
theorem snapshots_apart (s : C.t) {id id' : J.t} (h : id ≠ id') :
    Apart (snapshot_location s id) (snapshot_location s id') := by
  rw [snapshot_location, snapshot_location, snapshot_path, snapshot_path,
    apart_append_iff, apart_append_iff]
  exact Lawful_index.apart h

variable {m : I.t → Option V.t} {ms : J.t × I.t → Option V.t}

/-- A change in one snapshot leaves the current bindings and the other snapshots. -/
theorem Holds_snapshots.of_changes [DecidableEq J.t] {id : J.t}
    {r : Root_context} {n : I.t → Option V.t} (h : Holds_snapshots C J I V s m ms)
    (hr : Changes (· = snapshot_location s id) (C.project s) r)
    (hid : ∀ i, (r.context.value_at (snapshot_location s id ++ I.to_path i [])).map V.of_bytes =
      (n i).map some) :
    Holds_snapshots C J I V (refocus s r) m
      (fun k => if k.1 = id then n k.2 else ms k) := by
  have hkept {p : Path} (hp : Apart (snapshot_location s id) p) i :
      r.context.value_at (p ++ I.to_path i []) =
        (C.project s).context.value_at (p ++ I.to_path i []) := by
    apply hr.value_at
    rintro _ rfl
    have hapart := hp.append [] (I.to_path i [])
    rwa [append_nil] at hapart
  refine ⟨?_, ?_⟩
  · intro i
    rw [project_refocus, ← h.1 i, current_place, current_place, current_location_refocus,
      hkept (current_apart_snapshot s id).symm]
  · rintro ⟨id', i⟩
    rw [project_refocus, snapshot_place, snapshot_location_refocus]
    dsimp only
    split
    · next heq => rw [heq, hid]
    · next hne => rw [← h.2 (id', i), snapshot_place, hkept (snapshots_apart s (Ne.symm hne))]

section Copied

variable {s : C.t} {id : J.t} {r : Root_context} (hsnapshot : snapshot C J s id = .ok r)
  (h : Only_snapshots C J I s)

include hsnapshot h

/-- A snapshot brings no foreign key. -/
theorem snapshot_only : Only_snapshots C J I (refocus s r) := by
  rw [snapshot_eq] at hsnapshot
  have hwf := Root_context.copy_wf hsnapshot h.1.1
  have hbrings {p b} := Root_context.copy_brings (p := p) (b := b) hsnapshot h.1.1
    (current_location_ne_nil s)
  refine ⟨Only_at.of_refocus (C := C_data C) hwf fun p b hb => ?_,
    Only_at.of_refocus (C := C_snapshot C) hwf fun p b hb => ?_⟩
  · rcases hbrings hb with hb | ⟨q, hq, -⟩
    · exact h.1.2 p b hb
    · have hapart := (current_apart_snapshot s id).symm.append q p
      rw [← hq] at hapart
      exact absurd (prefix_refl _) hapart.1
  · rcases hbrings hb with hb | ⟨q, hq, hb⟩
    · exact h.2.2 p b hb
    · obtain ⟨i, rfl⟩ := h.1.2 q b hb
      refine ⟨(id, i), ?_⟩
      rw [← snapshot_place] at hq
      exact append_cancel_left hq

/-- After a snapshot its bindings are the current ones. -/
theorem snapshot_holds [DecidableEq J.t] (hholds : Holds_snapshots C J I V s m ms) :
    Holds_snapshots C J I V (refocus s r) m (fun k => if k.1 = id then m k.2 else ms k) := by
  rw [snapshot_eq] at hsnapshot
  refine hholds.of_changes (Root_context.copy_changes hsnapshot) fun i => ?_
  rw [Root_context.copy_value_at hsnapshot h.1.1 (current_location_ne_nil s), ← hholds.1 i]
  rfl

end Copied

/-- A snapshot copies the current bindings, all of them and nothing else, over
the earlier snapshot of the same name; it fails if there is none. Deleting a
snapshot leaves the current bindings and the other snapshots. -/
theorem snapshots_copy_bindings [DecidableEq J.t] (honly : Only_snapshots C J I s)
    (hholds : Holds_snapshots C J I V s m ms) (id : J.t) :
    ((∀ i, m i = none) → snapshot C J s id =
      storage_error (.Missing_key (.path (current_location s)) .Copy)) ∧
    ((∃ i, m i ≠ none) → ∃ r, snapshot C J s id = .ok r ∧ Only_snapshots C J I (refocus s r) ∧
      Holds_snapshots C J I V (refocus s r) m fun k => if k.1 = id then m k.2 else ms k) ∧
    Only_snapshots C J I (refocus s (delete_snapshot C J s id)) ∧
    Holds_snapshots C J I V (refocus s (delete_snapshot C J s id)) m
      fun k => if k.1 = id then none else ms k := by
  refine ⟨fun hnone => ?_, ?_, ?_⟩
  · have hraw := current_missing honly fun i => (hholds.1.value_at_eq_none_iff i).mpr (hnone i)
    rw [snapshot_eq, Root_context.copy, hraw]
  · rintro ⟨i, hi⟩
    obtain ⟨v, hv⟩ := Option.ne_none_iff_exists'.mp hi
    obtain ⟨b, hb, -⟩ := hholds.1.value_at_some hv
    rw [current_place, value_at_append, Option.bind_eq_some_iff] at hb
    obtain ⟨d, hd, -⟩ := hb
    have hsnapshot : ∃ r, snapshot C J s id = .ok r := by
      rw [snapshot_eq, Root_context.copy, hd]
      exact ⟨_, rfl⟩
    obtain ⟨r, hr⟩ := hsnapshot
    exact ⟨r, hr, snapshot_only hr honly, snapshot_holds hr honly hholds⟩
  · rw [delete_snapshot_eq]
    refine ⟨⟨Only_at.refocus_erase honly.1 _, Only_at.refocus_erase honly.2 _⟩,
      hholds.of_changes (n := fun _ => none) (Changes.erase _ _) fun i => ?_⟩
    rw [Root_context.value_at_erase_below]
    rfl

/-- Where `Roll.Owner` stands -/
abbrev owner_context : T := Make_subcontext (Make_subcontext raw_context ["rolls"]) ["owner"]

theorem fixed_32_exact : (Data_encoding.fixed 32).Exact := Data_encoding.fixed_exact 32

/-- Keys of one kind, as their bytes -/
def key_bytes : VALUE := value_of (Data_encoding.fixed 32) fixed_32_exact

theorem snapshots_copy_bindings_owner :
    let S := storage_functors.Make_indexed_data_snapshotable_storage owner_context
      snapshoted_owner_index roll_index key_bytes
    let s : Root_context := ⟨.empty, .Unaccounted, 0, 0⟩
    let roll : roll_index.t := (7 : Int32)
    let old : snapshoted_owner_index.t := ((0 : Int32), (⟨0, by decide⟩ : Int63))
    let new : snapshoted_owner_index.t := ((1 : Int32), (⟨3, by decide⟩ : Int63))
    let v : key_bytes.t := (⟨replicate 32 1, rfl⟩ : Data_encoding.Fixed 32)
    let w : key_bytes.t := (⟨replicate 32 2, rfl⟩ : Data_encoding.Fixed 32)
    ∃ r r' r'', S.snapshot (S.init_set s roll v) old = .ok r ∧
      S.snapshot (S.init_set r roll w) new = .ok r' ∧
      S.Snapshot.get r' (old, roll) = .ok v ∧ S.Snapshot.get r' (new, roll) = .ok w ∧
      S.snapshot r' old = .ok r'' ∧ S.Snapshot.get r'' (old, roll) = .ok w := by
  intro S s roll old new v w
  have honly : Only_snapshots owner_context snapshoted_owner_index roll_index s := by
    refine ⟨⟨wf_empty, fun p b hb => ?_⟩, wf_empty, fun p b hb => ?_⟩
    · cases (value_at_empty _).symm.trans hb
    · cases (value_at_empty _).symm.trans hb
  have hholds : Holds_snapshots owner_context snapshoted_owner_index roll_index key_bytes s
      (fun _ => none) fun _ => none :=
    ⟨fun _ => congrArg _ (value_at_empty _), fun _ => congrArg _ (value_at_empty _)⟩
  have hfirst := init_set_holds roll (v := v) hholds rfl
  obtain ⟨r, hr, honly₁, hholds₁⟩ := (snapshots_copy_bindings
    (init_set_only roll (v := v) honly) hfirst old).2.1 ⟨roll, by simp⟩
  have hsecond := init_set_holds roll (v := w) hholds₁ rfl
  obtain ⟨r', hr', honly₂, hholds₂⟩ := (snapshots_copy_bindings
    (init_set_only roll (v := w) honly₁) hsecond new).2.1 ⟨roll, by simp⟩
  obtain ⟨r'', hr'', honly₃, hholds₃⟩ :=
    (snapshots_copy_bindings honly₂ hholds₂ old).2.1 ⟨roll, by simp⟩
  have hne : old ≠ new := fun h => absurd (congrArg Prod.fst h) (by decide : (0 : Int32) ≠ 1)
  have hmap := Make_indexed_data_storage_finite_map (C_snapshot owner_context)
    (Pair snapshoted_owner_index roll_index) key_bytes (by decide)
  refine ⟨r, r', r'', hr, hr', hmap.get_some hholds₂.2 ?_, hmap.get_some hholds₂.2 ?_, hr'',
    hmap.get_some hholds₃.2 ?_⟩
  · dsimp only
    rw [if_neg hne, if_pos rfl, Function.update_self]
  · dsimp only
    rw [if_pos rfl, Function.update_self]
  · dsimp only
    rw [if_pos rfl, Function.update_self]

end Make_indexed_data_snapshotable_storage

end plexus.storage_functors
