import Mathlib.Data.Set.List
import Plexus.Accessors.FiniteMaps
import Plexus.Accessors.Indexes

/-! The storages that the functors build are finite maps and finite sets. -/

namespace plexus.storage_functors

open FileTree Make_indexed_subcontext Lawful_index List Result Root_context

open Rooted (location refocus project_refocus location_refocus)

variable {r : Root_context} {b : Data_encoding.Bytes}

namespace Root_context

/-- Nothing is left at or below an erased path. -/
theorem value_at_erase_below (r : Root_context) (p q : Path) :
    (r.erase p).context.value_at (p ++ q) = none := by
  rw [erase, value_at_remove, if_pos (prefix_append p q)]

/-- Erasing brings no value. -/
theorem value_at_of_erase {p q : Path} (h : (r.erase p).context.value_at q = some b) :
    r.context.value_at q = some b := by
  rw [erase, value_at_remove] at h
  split at h
  · cases h
  · exact h

/-- A value after a store is the one stored or was there before. -/
theorem value_at_of_store {p q : Path} {b' : Data_encoding.Bytes}
    (h : (r.store p b).context.value_at q = some b') : q = p ∨ r.context.value_at q = some b' := by
  rw [store, value_at_set] at h
  split at h
  · next heq => exact .inl heq
  · split at h
    · cases h
    · exact .inr h

end Root_context

/-! What may stand at the location of a storage. -/

section Locations

variable (C : T) [Rooted C] (I : INDEX)

/-- Only values at the paths of the index. -/
def Only_keys (s : C.t) : Prop :=
  (C.project s).context.Wf ∧ ∀ p b,
    (C.project s).context.value_at (location s ++ p) = some b → ∃ i, p = I.to_path i []

/-- Only values below the paths of the index. -/
def Only_below_keys (s : C.t) : Prop :=
  (C.project s).context.Wf ∧ ∀ p b,
    (C.project s).context.value_at (location s ++ p) = some b → ∃ i q, p = I.to_path i q

/-- Only values at paths of a kind. -/
def Only_at (P : Path → Prop) (s : C.t) : Prop :=
  (C.project s).context.Wf ∧ ∀ p b,
    (C.project s).context.value_at (location s ++ p) = some b → P p

variable {C I}

namespace Only_at

variable {P : Path → Prop} {s : C.t}

/-- The paths at the location after a change of the root. -/
theorem of_refocus (hwf : r.context.Wf)
    (h : ∀ p b, r.context.value_at (location s ++ p) = some b → P p) : Only_at C P (refocus s r) := by
  rw [Only_at, project_refocus, location_refocus]
  exact ⟨hwf, h⟩

/-- Storing at an allowed path is allowed. -/
theorem refocus_store (h : Only_at C P s) {q : Path} (hq : P q) (b : Data_encoding.Bytes) :
    Only_at C P (refocus s ((C.project s).store (location s ++ q) b)) := by
  refine of_refocus (store_wf h.1 _ b) fun p b' hb => ?_
  rcases value_at_of_store hb with heq | hb
  · rwa [append_cancel_left heq]
  · exact h.2 p b' hb

/-- Erasing is always allowed. -/
theorem refocus_erase (h : Only_at C P s) (q : Path) :
    Only_at C P (refocus s ((C.project s).erase q)) :=
  of_refocus (erase_wf h.1 q) fun p b hb => h.2 p b (value_at_of_erase hb)

end Only_at

end Locations

/-! The keys that the walks visit. -/

section Visited

variable {C : T} [Rooted C] {I : INDEX} [Lawful_index I]

omit [Rooted C] in
/-- Going through the paths of keys is going through the keys. -/
theorem keys_of_paths {paths : List Path} (hnodup : paths.Nodup)
    (hpaths : ∀ p ∈ paths, ∃ i, p = I.to_path i []) :
    ∃ l : List I.t, l.Nodup ∧ (∀ i, i ∈ l ↔ I.to_path i [] ∈ paths) ∧
      ∀ {α : Type} (f : I.t → α → Tzresult α) (acc : α),
        paths.foldlM (fun acc p => key_of_path I ([] ++ p) f acc) acc =
          l.foldlM (fun acc i => f i acc) acc := by
  obtain ⟨l, rfl⟩ := (Set.range_list_map _).ge fun p hp => (hpaths p hp).imp fun _ => Eq.symm
  refine ⟨l, hnodup.of_map _, fun i => (mem_map_of_injective fun _ _ => to_path_injective).symm, ?_⟩
  intro α f acc
  rw [foldlM_map]
  apply foldlM_congr
  intro i _ acc
  rw [nil_append, key_of_path, of_path_to_path]
  rfl

/-- The walk to the values visits each of the keys that have one, once. -/
theorem Only_keys.visited {s : C.t} (h : Only_keys C I s) (hpos : 0 < I.path_length) :
    ∃ l : List I.t, l.Nodup ∧
      (∀ i, i ∈ l ↔ ∃ b, (C.project s).context.value_at (data_place C I s i) = some b) ∧
      ∀ {α : Type} (f : I.t → α → Tzresult α) (acc : α),
        dig_keys C I s f I.path_length [] acc = l.foldlM (fun acc i => f i acc) acc := by
  obtain ⟨n, hn⟩ := Nat.exists_eq_succ_of_ne_zero hpos.ne'
  have hwf := tree_wf h.1 (location s)
  have hpaths p (hp : p ∈ key_paths (n + 1) ((C.project s).tree (location s))) :
      ∃ i, p = I.to_path i [] := by
    obtain ⟨-, _, hs, b, rfl⟩ := (mem_key_paths hwf n p).mp hp
    exact h.2 p b ((value_at_tree _ _ p).trans (value_at_eq_some_iff.mpr hs))
  obtain ⟨l, hnodup, hmem, hfold⟩ := keys_of_paths (nodup_key_paths hwf n) hpaths
  refine ⟨l, hnodup, ?_, ?_⟩
  · intro i
    rw [hmem, mem_key_paths hwf, to_path_length, data_place, value_at_tree]
    simp [hn, value_at_eq_some_iff]
  · intro α f acc
    rw [hn, dig_keys_eq h.1, append_nil, hfold]

/-- The walk to the directories visits each of the keys that have one, once. -/
theorem Only_below_keys.visited {s : C.t} (h : Only_below_keys C I s) (hpos : 0 < I.path_length) :
    ∃ l : List I.t, l.Nodup ∧
      (∀ i, i ∈ l ↔ ∃ es, (C.project s).context.raw_get (data_place C I s i) = some (.Dir es)) ∧
      ∀ {α : Type} (f : I.t → α → Tzresult α) (acc : α),
        fold_keys C I s acc f = l.foldlM (fun acc i => f i acc) acc := by
  obtain ⟨n, hn⟩ := Nat.exists_eq_succ_of_ne_zero hpos.ne'
  have hwf := tree_wf h.1 (location s)
  have hne {p : Path} (hlength : p.length = n + 1) : p ≠ [] := by
    rintro rfl
    cases hlength
  have hpaths p (hp : p ∈ dir_paths (n + 1) ((C.project s).tree (location s))) :
      ∃ i, p = I.to_path i [] := by
    obtain ⟨hlength, _, hes, es, rfl⟩ := (mem_dir_paths hwf n p).mp hp
    have hfull : (Dir es : FileTree String Data_encoding.Bytes) ≠ .empty := by
      intro hempty
      cases hempty
      exact (hwf p [] hes).2 (hne hlength) rfl
    obtain ⟨q, b, hb⟩ := exists_value _ (hwf.raw_get hes) hfull
    have hvalue : (C.project s).context.value_at (location s ++ (p ++ q)) = some b := by
      rw [value_at_tree, value_at_append, hes]
      exact hb
    obtain ⟨i, q', heq⟩ := h.2 _ b hvalue
    rw [to_path_append] at heq
    refine ⟨i, (append_inj heq ?_).1⟩
    rw [hlength, to_path_length, hn]
  obtain ⟨l, hnodup, hmem, hfold⟩ := keys_of_paths (nodup_dir_paths hwf (n + 1)) hpaths
  refine ⟨l, hnodup, ?_, ?_⟩
  · intro i
    have hi : (I.to_path i []).length = n + 1 := by rw [to_path_length, hn]
    rw [hmem, mem_dir_paths hwf, data_place, raw_get_tree (hne hi)]
    simp [hi]
  · intro α f acc
    rw [fold_keys, hn, dig_eq h.1, append_nil, hfold]

end Visited

/-! `Make_indexed_data_storage` -/

section Data

variable (C : T) [Rooted C] (I : INDEX) [Lawful_index I] (V : VALUE)

theorem data_place_cells : Cells C.project (refocus (C := C)) (data_place C I) where
  root_focus := project_refocus
  place_focus s r i := by rw [data_place, data_place, location_refocus]
  apart s {i j} hij := apart_append_iff.mpr (apart hij)

theorem Make_indexed_data_storage_visits (hpos : 0 < I.path_length) {s : C.t}
    (h : Only_keys C I s) : ∃ l, Visits (Make_indexed_data_storage C I V) s l := by
  obtain ⟨l, hnodup, hmem, hdig⟩ := h.visited hpos
  refine ⟨l, hnodup, ?_, fun acc f => hdig f acc, ?_, fun acc f => hdig _ acc, rfl⟩
  · intro i
    rw [hmem, (Make_indexed_data_storage_cellular C I V).mem, Root_context.mem_iff]
  · exact (hdig _ []).trans (by rw [foldlM_cons_eq_reverse, append_nil])

omit [Lawful_index I] in
theorem Make_indexed_data_storage_clear {s : C.t} (h : Only_keys C I s) :
    ∃ r, (Make_indexed_data_storage C I V).clear s = .ok r ∧ Only_keys C I (refocus s r) ∧
      Holds V C.project (data_place C I) (refocus s r) fun _ => none := by
  refine ⟨(C.project s).erase (location s), ?_, Only_at.refocus_erase h _, ?_⟩
  · show Result.ok (C.project (C.remove_rec s [])) = _
    rw [Rooted.remove_rec, project_refocus, append_nil]
  · intro i
    rw [project_refocus, data_place, location_refocus, value_at_erase_below]
    rfl

theorem Make_indexed_data_storage_finite_map [DecidableEq I.t] (hpos : 0 < I.path_length) :
    Finite_map (Make_indexed_data_storage C I V) (refocus (C := C)) (data_place C I)
      (Only_keys C I) (Holds V C.project (data_place C I))
      (fun v => ∃ b, V.to_bytes v = some b) :=
  (Make_indexed_data_storage_cellular C I V).finite_map (data_place_cells C I)
    (fun _ i b h => Only_at.refocus_store h ⟨i, rfl⟩ b) (fun _ _ h => Only_at.refocus_erase h _)
    (fun _ h => Make_indexed_data_storage_clear C I V h)
    (fun _ h => Make_indexed_data_storage_visits C I V hpos h)

end Data

/-! `Make_map` -/

section Map

variable (C : T) [Rooted C] (I : INDEX) [Lawful_index I] (V : VALUE) (name : Path) {s : C.t}

theorem map_place_eq (s : C.t) (i : I.t) : map_place C I name s i = data_place C I s i ++ name := by
  rw [map_place, data_place, to_path_append, append_assoc]

theorem map_place_cells : Cells C.project (refocus (C := C)) (map_place C I name) where
  root_focus := project_refocus
  place_focus s r i := by rw [map_place, map_place, location_refocus]
  apart s {i j} hij := by
    rw [map_place_eq, map_place_eq]
    exact ((data_place_cells C I).apart s hij).append name name

/-- A key that is bound has a directory. -/
theorem dir_of_value (hname : name ≠ []) {i : I.t}
    (h : (C.project s).context.value_at (map_place C I name s i) = some b) :
    ∃ es, (C.project s).context.raw_get (data_place C I s i) = some (.Dir es) := by
  rw [map_place_eq, value_at_append, Option.bind_eq_some_iff] at h
  obtain ⟨t, ht, hb⟩ := h
  cases t with
  | Dir es => exact ⟨es, ht⟩
  | Key x =>
    rw [value_at, raw_get_key hname] at hb
    cases hb

open Make_indexed_subcontext in
theorem Make_map_visits (hpos : 0 < I.path_length) (hname : name ≠ [])
    (h : Only_below_keys C I s) : ∃ l, Visits (Make_map C I name V) s l := by
  obtain ⟨l, hnodup, hdir, hfold⟩ := h.visited hpos
  have hcell := Make_map_cellular C I V name
  have hkeys {α : Type} (acc : α) f : (Make_map C I name V).fold_keys s acc f =
      (l.filter fun i => (Make_map C I name V).mem s i).foldlM (fun acc i => f i acc) acc := by
    rw [foldlM_filter]
    exact hfold _ acc
  refine ⟨l.filter fun i => (Make_map C I name V).mem s i, hnodup.filter _, ?_, hkeys, ?_, ?_, rfl⟩
  · intro i
    rw [mem_filter, and_iff_right_iff_imp, hdir, hcell.mem, Root_context.mem_iff]
    rintro ⟨b, hb⟩
    exact dir_of_value C I name hname hb
  · exact (hkeys [] _).trans (by rw [foldlM_cons_eq_reverse, append_nil])
  · intro α acc f
    rw [foldlM_filter]
    refine (hfold _ acc).trans (foldlM_congr ?_ acc)
    intro i _ acc
    by_cases hmem : (Make_map C I name V).mem s i = true
    · rw [if_pos hmem]
      rfl
    · rw [if_neg hmem]
      rw [hcell.mem, Root_context.mem_iff, not_exists] at hmem
      have hnone : (C.project s).context.value_at (map_place C I name s i) = none :=
        Option.eq_none_iff_forall_ne_some.mpr hmem
      have hget : Make_map.get C I name V s i =
          storage_error (.Missing_key (.path (map_place C I name s i)) .Get) := by
        have hget := hcell.get s i
        rw [Root_context.get, hnone] at hget
        exact hget
      rw [hget]
      rfl

/-- Erasing the keys of a list one after the other. -/
def erase_all (s : C.t) (l : List I.t) (r : Root_context) : Root_context :=
  l.foldl (fun r i => r.erase (map_place C I name s i)) r

omit [Lawful_index I] in
theorem erase_all_value_at {l : List I.t} {p : Path}
    (h : (erase_all C I name s l r).context.value_at p = some b) :
    r.context.value_at p = some b ∧ ∀ i ∈ l, p ≠ map_place C I name s i := by
  induction l generalizing r with
  | nil => exact ⟨h, by simp⟩
  | cons i l ih =>
    obtain ⟨hvalue, hne⟩ := ih h
    refine ⟨value_at_of_erase hvalue, ?_⟩
    intro j hj
    rcases mem_cons.mp hj with rfl | hj
    · rintro rfl
      have hnone := value_at_erase_below r (map_place C I name s j) []
      rw [append_nil, hvalue] at hnone
      cases hnone
    · exact hne j hj

omit [Lawful_index I] in
theorem erase_all_wf (h : r.context.Wf) (l : List I.t) :
    (erase_all C I name s l r).context.Wf := by
  induction l generalizing r with
  | nil => exact h
  | cons i l ih => exact ih (erase_wf h _)

open Make_indexed_subcontext in
omit [Lawful_index I] in
theorem foldlM_remove (s : C.t) (l : List I.t) (r : Root_context) :
    C.project <$> l.foldlM (fun (c : C.t) i =>
        (.ok ((Raw_context C I).remove (c, i) name).1 : Tzresult C.t))
      (refocus s r) = .ok (erase_all C I name s l r) := by
  induction l generalizing r with
  | nil => exact congrArg Result.ok (project_refocus s r)
  | cons i l ih =>
    rw [foldlM_cons, bind_ok]
    show C.project <$> l.foldlM _ (C.remove (refocus s r) (I.to_path i name)) = _
    rw [Rooted.remove, project_refocus, location_refocus, Rooted.refocus_refocus]
    exact ih _

open Make_indexed_subcontext in
/-- The keys are removed that the walk visits, and these are all there are. -/
theorem Make_set_clear (hpos : 0 < I.path_length) (hname : name ≠ []) (h : Only_below_keys C I s) :
    ∃ r, Make_set.clear C I name s = .ok r ∧ Only_below_keys C I (refocus s r) ∧
      ∀ i, r.context.value_at (map_place C I name s i) = none := by
  obtain ⟨l, -, hdir, hfold⟩ := h.visited hpos
  refine ⟨erase_all C I name s l (C.project s), ?_, ?_, ?_⟩
  · rw [Make_set.clear, hfold]
    have hremove := foldlM_remove C I name s l (C.project s)
    rwa [Rooted.refocus_project] at hremove
  · refine Only_at.of_refocus (erase_all_wf C I name h.1 l) fun p b hb => ?_
    exact h.2 p b (erase_all_value_at C I name hb).1
  · intro i
    rw [Option.eq_none_iff_forall_ne_some]
    intro b hb
    obtain ⟨hvalue, hne⟩ := erase_all_value_at C I name hb
    exact hne i ((hdir i).mpr (dir_of_value C I name hname hvalue)) rfl

open Make_indexed_subcontext in
theorem Make_map_finite_map [DecidableEq I.t] (hpos : 0 < I.path_length) (hname : name ≠ []) :
    Finite_map (Make_map C I name V) (refocus (C := C)) (map_place C I name)
      (Only_below_keys C I) (Holds V C.project (map_place C I name))
      (fun v => ∃ b, V.to_bytes v = some b) := by
  refine (Make_map_cellular C I V name).finite_map (map_place_cells C I name)
    (fun _ i b h => Only_at.refocus_store h ⟨i, name, rfl⟩ b) (fun _ _ h => Only_at.refocus_erase h _) ?_
    (fun _ h => Make_map_visits C I V name hpos hname h)
  intro s h
  obtain ⟨r, hr, honly, hnone⟩ := Make_set_clear C I name hpos hname h
  refine ⟨r, hr, honly, ?_⟩
  intro i
  rw [project_refocus, map_place, location_refocus]
  exact congrArg (Option.map V.of_bytes) (hnone i)

end Map

/-! Sets -/

/-- A storage that is a finite set. -/
structure Finite_set {t elt : Type} [DecidableEq elt] (S : Data_set_storage t elt)
    (focus : t → Root_context → t) (Only : t → Prop) : Prop where
  mem_add : ∀ s i j, S.mem (focus s (S.add s i)) j = (decide (j = i) || S.mem s j)
  mem_del : ∀ s i j, S.mem (focus s (S.del s i)) j = (decide (j ≠ i) && S.mem s j)
  set : ∀ s i b, S.set s i b = if b then S.add s i else S.del s i
  only_add : ∀ {s} i, Only s → Only (focus s (S.add s i))
  only_del : ∀ {s} i, Only s → Only (focus s (S.del s i))
  clear : ∀ {s}, Only s → ∃ r, S.clear s = .ok r ∧ Only (focus s r) ∧
    ∀ j, S.mem (focus s r) j = false
  visits : ∀ {s}, Only s → ∃ l : List elt, l.Nodup ∧ (∀ i, i ∈ l ↔ S.mem s i = true) ∧
    S.elements s = .ok l.reverse ∧
    ∀ {α : Type} (acc : α) f, S.fold s acc f = l.foldlM (fun acc i => f i acc) acc

/-- The value that is written for the elements of a set -/
abbrev member : VALUE where
  t := Unit
  to_bytes _ := some inited
  of_bytes _ := some ()
  of_to _ _ _ := rfl

/-- The keys of a map to that value -/
def key_set {t elt : Type} (M : Indexed_data_storage t elt member.t) : Data_set_storage t elt where
  mem := M.mem
  add s i := M.init_set s i ()
  del := M.remove
  set s i b := if b then M.init_set s i () else M.remove s i
  elements := M.keys
  fold := M.fold_keys
  clear := M.clear

theorem Finite_map.finite_set {t elt : Type} [DecidableEq elt] {root : t → Root_context}
    {focus : t → Root_context → t} {place : t → elt → Path} {Only : t → Prop}
    {M : Indexed_data_storage t elt member.t}
    (h : Finite_map M focus place Only (Holds member root place)
      (fun v => ∃ b, member.to_bytes v = some b)) : Finite_set (key_set M) focus Only := by
  have hholds s : Holds member root place s fun i =>
      ((root s).context.value_at (place s i)).map fun _ => () := by
    intro i
    rw [Option.map_map]
    rfl
  exact {
    mem_add s i j := by
      show M.mem (focus s (M.init_set s i ())) j = (_ || M.mem s j)
      rw [h.mem j (h.init_set i (hholds s) ⟨inited, rfl⟩), h.mem j (hholds s)]
      by_cases hj : j = i
      · simp [hj]
      · simp [hj]
    mem_del s i j := by
      show M.mem (focus s (M.remove s i)) j = (_ && M.mem s j)
      rw [h.mem j (h.remove i (hholds s)), h.mem j (hholds s)]
      by_cases hj : j = i
      · simp [hj]
      · simp [hj]
    set _ _ _ := rfl
    only_add i hs := h.only hs (.inr (.inr (.inl ⟨(), rfl⟩)))
    only_del i hs := h.only hs (.inr (.inr (.inr (.inr (.inr rfl)))))
    clear hs := by
      obtain ⟨r, hr, honly, hnone⟩ := h.clear hs
      exact ⟨r, hr, honly, fun j => h.mem j hnone⟩
    visits hs := by
      obtain ⟨l, hl⟩ := h.visits hs
      exact ⟨l, hl.nodup, hl.mem_iff, hl.keys, hl.fold_keys⟩ }

/-- The sets of `Make_data_set_storage` are those of keys of a map. -/
theorem Make_data_set_storage_finite_set (C : T) [Rooted C] (I : INDEX) [Lawful_index I]
    [DecidableEq I.t] (hpos : 0 < I.path_length) :
    Finite_set (Make_data_set_storage C I) (refocus (C := C)) (Only_keys C I) :=
  (Make_indexed_data_storage_finite_map C I member hpos).finite_set

/-- So are those of `Make_set`. -/
theorem Make_set_finite_set (C : T) [Rooted C] (I : INDEX) [Lawful_index I] (name : Path)
    [DecidableEq I.t] (hpos : 0 < I.path_length) (hname : name ≠ []) :
    Finite_set (Make_set C I name) (refocus (C := C)) (Only_below_keys C I) :=
  (Make_map_finite_map C I member name hpos hname).finite_set

end plexus.storage_functors

namespace plexus.storage_tree

open storage_functors Make_indexed_subcontext

open Data_encoding (Encoding)
open Rooted (refocus)

/-- The storages that the functors build over a lawful index are finite maps and
finite sets, for values that their encoding can write, as long as nothing but
their own keys stands at their location. Every index of `Storage` is lawful. -/
theorem functors_build_finite_maps [Primitives] :
    (∀ (C : T) [Rooted C] (I : INDEX) [Lawful_index I] [DecidableEq I.t] (V : VALUE),
      0 < I.path_length →
      Finite_map (Make_indexed_data_storage C I V) (refocus (C := C)) (data_place C I)
        (Only_keys C I) (Holds V C.project (data_place C I)) (fun v => ∃ b, V.to_bytes v = some b) ∧
      Finite_set (Make_data_set_storage C I) (refocus (C := C)) (Only_keys C I) ∧
      ∀ name, name ≠ [] →
        Finite_map (Make_map C I name V) (refocus (C := C)) (map_place C I name)
          (Only_below_keys C I) (Holds V C.project (map_place C I name))
          (fun v => ∃ b, V.to_bytes v = some b) ∧
        Finite_set (Make_set C I name) (refocus (C := C)) (Only_below_keys C I)) ∧
    ∀ I, Storage_index I → Lawful_index I ∧ 0 < I.path_length := by
  refine ⟨fun C _ I _ _ V hpos => ⟨?_, ?_, fun name hname => ⟨?_, ?_⟩⟩, fun I h => h.lawful⟩
  · exact Make_indexed_data_storage_finite_map C I V hpos
  · exact Make_data_set_storage_finite_set C I hpos
  · exact Make_map_finite_map C I V name hpos hname
  · exact Make_set_finite_set C I name hpos hname

/-- A value written by an exact encoding. -/
def value_of {α : Type} (e : Encoding α) (he : e.Exact) : VALUE where
  t := α
  to_bytes := e.write
  of_bytes b :=
    match e.read b with
    | some (a, []) => some a
    | _ => none
  of_to a b h := by
    have hread : e.read b = some (a, []) := (he a b []).mpr ⟨b, h, (List.append_nil b).symm⟩
    rw [hread]

def mine : VALUE :=
  value_of (operation_encoding.qty_encoding .mine) (operation_encoding.qty_encoding_exact _)

/-- What the frozen balances of `Contract` are indexed in: a context below each
contract. -/
abbrev Frozen_balance_context [Primitives] : T :=
  Make_subcontext (Raw_context
    (Make_subcontext (Make_subcontext raw_context ["contracts"]) ["index"]) contract_index)
    ["frozen_balance"]

def Frozen_deposits [Primitives] :
    Indexed_data_storage (Root_context × contract_index.t) cycle_index.t mine.t :=
  Make_map Frozen_balance_context cycle_index ["deposits"] mine

/-- Libraries to compute with: the digest is the bytes themselves, cut or
filled up. -/
abbrev plain_primitives : Primitives where
  blake2b b := ⟨(b ++ List.replicate 32 0).take 32, by simp⟩
  z_to_bytes z := (operation_encoding.z_encoding.write z).getD []
  z_to_string := IntOfString.format_int
  z_of_string := IntOfString.parse_int
  z_of_to := IntOfString.parse_int_format_int

theorem functors_build_finite_maps_deposits :
    let _ : Primitives := plain_primitives
    let s : Root_context := ⟨.empty, .Unaccounted, 0, 0⟩
    let contract : contract_index.t := (.Originated ⟨List.replicate 20 1, rfl⟩ : Contract)
    let k : cycle_index.t := (3 : Int32)
    let k' : cycle_index.t := (40 : Int32)
    let v : mine.t := (⟨5, by decide⟩ : Qty .mine)
    let v' : mine.t := (⟨7, by decide⟩ : Qty .mine)
    ∃ r r' l, Frozen_deposits.init (s, contract) k v = .ok r ∧
      Frozen_deposits.init (r, contract) k' v' = .ok r' ∧
      Frozen_deposits.get (r', contract) k = .ok v ∧
      Frozen_deposits.get (r', contract) k' = .ok v' ∧
      Frozen_deposits.keys (r', contract) = .ok l ∧ l.Nodup ∧ ∀ i, i ∈ l ↔ i = k ∨ i = k' := by
  intro _ s contract k k' v v'
  have hmap := ((functors_build_finite_maps.1 Frozen_balance_context cycle_index mine
    (by decide)).2.2 ["deposits"] (by decide)).1
  obtain ⟨r, hr, hholds⟩ := hmap.init_none (s := (s, contract)) (m := fun _ => none) (k := k)
    (v := v) (fun _ => congrArg _ (FileTree.value_at_empty _)) ⟨_, rfl⟩ rfl
  have hne : k' ≠ k := (by decide : (40 : Int32) ≠ 3)
  obtain ⟨r', hr', hholds'⟩ := hmap.init_none (k := k') (v := v') hholds ⟨_, rfl⟩
    (Function.update_of_ne hne _ fun _ => none)
  have honly : Only_below_keys Frozen_balance_context cycle_index (s, contract) :=
    ⟨FileTree.wf_empty, fun p b hb => by cases (FileTree.value_at_empty _).symm.trans hb⟩
  have honly' := hmap.only (hmap.only honly (.inl ⟨_, hr⟩)) (.inl ⟨_, hr'⟩)
  obtain ⟨l, hl⟩ := hmap.visits honly'
  refine ⟨r, r', l.reverse, hr, hr', hmap.get_some hholds' ?_,
    hmap.get_some hholds' (Function.update_self k' _ _), hl.keys,
    List.nodup_reverse.mpr hl.nodup, fun i => ?_⟩
  · rw [Function.update_of_ne hne.symm, Function.update_self]
  · rw [List.mem_reverse, hl.mem_iff, hmap.mem i hholds']
    by_cases hi' : i = k'
    · simp [hi']
    · rw [Function.update_of_ne hi']
      by_cases hi : i = k <;> simp [hi, hi']

end plexus.storage_tree
