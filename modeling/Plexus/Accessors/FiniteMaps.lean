import Mathlib.Logic.Function.Basic
import Plexus.Accessors.Rooted

/-! What the functors build behaves as a finite map or a finite set, as long as
nothing but its own keys stands at its location. -/

namespace plexus.storage_functors

open FileTree Make_indexed_subcontext Result Function Rooted Prod

open Make_encoder (of_bytes to_bytes)

/-! Changes of the root context. -/

/-- Nothing changes apart from the given paths. -/
def Changes (P : Path → Prop) (r r' : Root_context) : Prop :=
  ∀ q, (∀ p, P p → Apart p q) → r'.context.raw_get q = r.context.raw_get q

namespace Changes

variable {P : Path → Prop} {r r' : Root_context}

theorem raw_set (r : Root_context) (p : Path) (v : Option (FileTree String Data_encoding.Bytes)) :
    Changes (· = p) r { r with context := r.context.raw_set p v } :=
  fun _ hq => raw_get_raw_set_apart (hq p rfl) r.context v

theorem store (r : Root_context) (p : Path) (b : Data_encoding.Bytes) :
    Changes (· = p) r (r.store p b) := raw_set r p _

theorem erase (r : Root_context) (p : Path) : Changes (· = p) r (r.erase p) := raw_set r p none

/-- Values apart from the changed paths stay. -/
theorem value_at (h : Changes P r r') {q : Path} (hq : ∀ p, P p → Apart p q) :
    r'.context.value_at q = r.context.value_at q :=
  value_at_congr (h q hq)

end Changes

variable {r : Root_context} {p : Path}

namespace Root_context

theorem store_wf (h : r.context.Wf) (p : Path) (b : Data_encoding.Bytes) :
    (r.store p b).context.Wf := by
  apply h.raw_set
  rintro s hs
  cases hs
  exact wf_key b

theorem erase_wf (h : r.context.Wf) (p : Path) : (r.erase p).context.Wf := by
  apply h.raw_set
  rintro s hs
  cases hs

theorem mem_iff : r.mem p = true ↔ ∃ b, r.context.value_at p = some b := Option.isSome_iff_exists

end Root_context

/-! Storages whose functions read and write one cell. -/

/-- The functions that concern one key, of the signature. -/
structure Cellular {t key : Type} (V : VALUE) (root : t → Root_context) (place : t → key → Path)
    (S : Indexed_data_storage t key V.t) : Prop where
  mem : ∀ s k, S.mem s k = (root s).mem (place s k)
  get : ∀ s k, S.get s k = (root s).get (place s k) >>= of_bytes V (place s k)
  get_option : ∀ s k, S.get_option s k =
    match (root s).get_option (place s k) with
    | none => .ok none
    | some b => some <$> of_bytes V (place s k) b
  init : ∀ s k v, S.init s k v = (root s).init (place s k) (to_bytes V v)
  set : ∀ s k v, S.set s k v = (root s).set (place s k) (to_bytes V v)
  init_set : ∀ s k v, S.init_set s k v = (root s).store (place s k) (to_bytes V v)
  set_opt : ∀ s k v, S.set_opt s k v =
    (root s).set_opt (place s k) (v.map (to_bytes V))
  delete : ∀ s k, S.delete s k = (root s).delete (place s k)
  remove : ∀ s k, S.remove s k = (root s).erase (place s k)

/-- A result of one of the functions that change one key. -/
def Indexed_data_storage.Updates {t key value : Type} (S : Indexed_data_storage t key value)
    (s : t) (k : key) (r : Root_context) : Prop :=
  (∃ v, S.init s k v = .ok r) ∨ (∃ v, S.set s k v = .ok r) ∨ (∃ v, r = S.init_set s k v) ∨
    (∃ v, r = S.set_opt s k v) ∨ S.delete s k = .ok r ∨ r = S.remove s k

/-- The root of what is refocused. -/
theorem project_map_refocus {C : T} [Rooted C] (c : C.t) (x : Tzresult Root_context) :
    C.project <$> (Rooted.refocus (C := C) c <$> x) = x := by
  rw [← comp_map]
  cases x with
  | ok r => exact congrArg Result.ok (project_refocus c r)
  | _ => rfl

section Functors

variable (C : T) [Rooted C] (I : INDEX) [Lawful_index I] (V : VALUE)

def data_place (s : C.t) (i : I.t) : Path := Rooted.location (C := C) s ++ I.to_path i []

def map_place (name : Path) (s : C.t) (i : I.t) : Path :=
  Rooted.location (C := C) s ++ I.to_path i name

omit [Lawful_index I] in
/-- The cells of `Make_map` lie under the name. -/
theorem Make_map_cellular (name : Path) :
    Cellular V C.project (map_place C I name) (Make_map C I name V) where
  mem s i := Rooted.mem s _
  get s i := by
    show (C.get s _ >>= fun b => of_bytes V (C.absolute_key s _) b) = _
    rw [Rooted.get, Rooted.absolute_key]
    rfl
  get_option s i := by
    show (match C.get_option s (I.to_path i name) with
      | none => Result.ok none
      | some b => some <$> of_bytes V (C.absolute_key s (I.to_path i name)) b) = _
    rw [Rooted.get_option, Rooted.absolute_key]
    rfl
  init s i v := by
    show (fun c : C.t × I.t => C.project c.1) <$> ((·, i) <$> C.init s _ _) = _
    rw [← comp_map, Rooted.init]
    exact project_map_refocus s _
  set s i v := by
    show (fun c : C.t × I.t => C.project c.1) <$> ((·, i) <$> C.set s _ _) = _
    rw [← comp_map, Rooted.set]
    exact project_map_refocus s _
  init_set s i v := by
    show C.project (C.init_set s _ _) = _
    rw [Rooted.init_set, project_refocus]
    rfl
  set_opt s i v := by
    show C.project (C.set_opt s _ _) = _
    rw [Rooted.set_opt, project_refocus]
    rfl
  delete s i := by
    show (fun c : C.t × I.t => C.project c.1) <$> ((·, i) <$> C.delete s _) = _
    rw [← comp_map, Rooted.delete]
    exact project_map_refocus s _
  remove s i := by
    show C.project (C.remove s _) = _
    rw [Rooted.remove, project_refocus]
    rfl

omit [Lawful_index I] in
/-- Those of `Make_indexed_data_storage` lie at the paths of the keys. -/
theorem Make_indexed_data_storage_cellular :
    Cellular V C.project (data_place C I) (Make_indexed_data_storage C I V) where
  mem := (Make_map_cellular C I V []).mem
  get := (Make_map_cellular C I V []).get
  get_option := (Make_map_cellular C I V []).get_option
  init s i v := by
    show C.project <$> C.init s _ _ = _
    rw [Rooted.init, project_map_refocus]
    rfl
  set s i v := by
    show C.project <$> C.set s _ _ = _
    rw [Rooted.set, project_map_refocus]
    rfl
  init_set := (Make_map_cellular C I V []).init_set
  set_opt := (Make_map_cellular C I V []).set_opt
  delete s i := by
    show C.project <$> C.delete s _ = _
    rw [Rooted.delete, project_map_refocus]
    rfl
  remove := (Make_map_cellular C I V []).remove

end Functors

/-! The walks. -/

section Walks

variable {C : T} [Rooted C] {I : INDEX} {α : Type}

/-- A fold of a subcontext goes through a directory of the root. -/
theorem fold_eq (s : C.t) (path : Path) (acc : α) (f : Entry → α → Tzresult α) :
    C.fold s path acc f = ((C.project s).list (Rooted.location s ++ path)).foldlM
        (fun acc e => f (Root_context.entry (path ++ [e.1]) e.2) acc) acc := by
  rw [Rooted.fold, Root_context.fold]
  congr 1
  funext acc e
  obtain ⟨n, sub⟩ := e
  cases sub <;> simp [Root_context.entry, map_key, List.append_assoc]

namespace Root_context

/-- What stands at a path; an empty directory where nothing does -/
def tree (r : Root_context) (p : Path) : FileTree String Data_encoding.Bytes :=
  (r.context.raw_get p).getD .empty

/-- The entries of a directory. -/
theorem list_eq (r : Root_context) (p : Path) : r.list p = (r.tree p).entries := by
  rw [list, tree]
  cases r.context.raw_get p <;> rfl

/-- Values below a path are values of its tree. -/
theorem value_at_tree (r : Root_context) (p q : Path) :
    r.context.value_at (p ++ q) = (r.tree p).value_at q := by
  rw [value_at_append, tree]
  cases r.context.raw_get p with
  | none => exact (value_at_empty q).symm
  | some t => rfl

theorem raw_get_tree {q : Path} (hq : q ≠ []) (r : Root_context) (p : Path) :
    r.context.raw_get (p ++ q) = (r.tree p).raw_get q := by
  rw [raw_get_append, tree]
  cases r.context.raw_get p with
  | none => exact (raw_get_empty hq).symm
  | some t => rfl

theorem tree_wf (hwf : r.context.Wf) (p : Path) : (r.tree p).Wf := by
  rw [tree]
  cases hp : r.context.raw_get p with
  | none => exact wf_empty
  | some t => exact hwf.raw_get hp

/-- An entry of a directory is found under its name. -/
theorem tree_entry (hwf : r.context.Wf) {n : String} {sub : FileTree String Data_encoding.Bytes}
    (hsub : (n, sub) ∈ (r.tree p).entries) : r.tree (p ++ [n]) = sub := by
  rw [tree, raw_get_tree (List.cons_ne_nil n []), raw_get_cons,
    (tree_wf hwf p).sorted.find_opt_eq_some_iff.mpr hsub, Option.bind_some, raw_get_nil]
  rfl

end Root_context

open Root_context

/-- The walk down to values goes through the paths of its length. -/
theorem dig_keys_eq {s : C.t} (hwf : (C.project s).context.Wf) (f : I.t → α → Tzresult α) (i : Nat)
    (path : Path) (acc : α) :
    dig_keys C I s f (i + 1) path acc =
      (key_paths (i + 1) ((C.project s).tree (Rooted.location s ++ path))).foldlM
        (fun acc p => key_of_path I (path ++ p) f acc) acc := by
  induction i generalizing path acc with
  | zero =>
    show C.fold s path acc _ = ((entries _).filterMap _).foldlM _ acc
    rw [fold_eq, list_eq, List.foldlM_filterMap]
    congr 1
    funext acc e
    obtain ⟨n, sub⟩ := e
    cases sub <;> rfl
  | succ i ih =>
    rw [dig_keys, fold_eq, list_eq, key_paths, foldlM_flatMap]
    apply foldlM_congr
    rintro ⟨n, sub⟩ hsub acc
    cases sub with
    | Key v => rfl
    | Dir es =>
      show dig_keys C I s f (i + 1) (path ++ [n]) acc = _
      rw [ih, ← List.append_assoc, tree_entry hwf hsub, List.foldlM_map]
      congr 1
      funext acc p
      rw [List.append_assoc]
      rfl

/-- The walk down to directories goes through the paths of its length. -/
theorem dig_eq {s : C.t} (hwf : (C.project s).context.Wf) (f : I.t → α → Tzresult α) (i : Nat)
    (path : Path) (acc : α) :
    dig C I s f i path acc = (dir_paths i ((C.project s).tree (Rooted.location s ++ path))).foldlM
      (fun acc p => key_of_path I (path ++ p) f acc) acc := by
  induction i generalizing path acc with
  | zero =>
    show key_of_path I path f acc = key_of_path I (path ++ []) f acc >>= pure
    rw [bind_pure, List.append_nil]
  | succ i ih =>
    rw [dig, fold_eq, list_eq, dir_paths, foldlM_flatMap]
    apply foldlM_congr
    rintro ⟨n, sub⟩ hsub acc
    cases sub with
    | Key v => rfl
    | Dir es =>
      show dig C I s f i (path ++ [n]) acc = _
      rw [ih, ← List.append_assoc, tree_entry hwf hsub, List.foldlM_map]
      congr 1
      funext acc p
      rw [List.append_assoc]
      rfl

end Walks

/-! One key at a time. -/

/-- How a storage sees the root context: a change of the root is a change of
what the storage sees, and the cells of different keys are apart. -/
structure Cells {t key : Type} (root : t → Root_context) (focus : t → Root_context → t)
    (place : t → key → Path) : Prop where
  root_focus : ∀ s r, root (focus s r) = r
  place_focus : ∀ s r k, place (focus s r) k = place s k
  apart : ∀ s {k k'}, k ≠ k' → Apart (place s k) (place s k')

/-- The cells hold the values of the map, as bytes that can be read. -/
def Holds {t key : Type} (V : VALUE) (root : t → Root_context) (place : t → key → Path) (s : t)
    (m : key → Option V.t) : Prop :=
  ∀ k, ((root s).context.value_at (place s k)).map V.of_bytes = (m k).map some

section Cell

variable {t key : Type} [DecidableEq key] {V : VALUE} {root : t → Root_context}
  {focus : t → Root_context → t} {place : t → key → Path} {s : t} {m : key → Option V.t}

section

omit [DecidableEq key]

/-- The cell of a key is empty where the map is. -/
theorem Holds.value_at_eq_none_iff (h : Holds V root place s m) (k : key) :
    (root s).context.value_at (place s k) = none ↔ m k = none := by
  rw [← Option.map_eq_none_iff, h k, Option.map_eq_none_iff]

theorem Holds.value_at_some (h : Holds V root place s m) {k : key} {v : V.t} (hv : m k = some v) :
    ∃ b, (root s).context.value_at (place s k) = some b ∧ V.of_bytes b = some v := by
  have hk := h k
  rw [hv, Option.map_some, Option.map_eq_some_iff] at hk
  exact hk

theorem Holds.mem_eq (h : Holds V root place s m) (k : key) :
    (root s).mem (place s k) = (m k).isSome := by
  have hk := congrArg Option.isSome (h k)
  simpa [Root_context.mem] using hk

end

/-- Storing at the cell of a key updates the map. -/
theorem Holds.store (hcells : Cells root focus place) (h : Holds V root place s m) (k : key)
    {v : V.t} {b : Data_encoding.Bytes} (hv : V.to_bytes v = some b) :
    Holds V root place (focus s ((root s).store (place s k) b)) (Function.update m k (some v)) := by
  intro k'
  rw [hcells.root_focus, hcells.place_focus]
  by_cases hk : k' = k
  · subst hk
    rw [update_self, Root_context.store, value_at_set, if_pos rfl, Option.map_some,
      Option.map_some, V.of_to v b hv]
  · rw [update_of_ne hk, ← h k',
      (Changes.store (root s) (place s k) b).value_at (fun p hp => hp ▸ hcells.apart s (Ne.symm hk))]

/-- Erasing the cell of a key removes it from the map. -/
theorem Holds.erase (hcells : Cells root focus place) (h : Holds V root place s m) (k : key) :
    Holds V root place (focus s ((root s).erase (place s k))) (Function.update m k none) := by
  intro k'
  rw [hcells.root_focus, hcells.place_focus]
  by_cases hk : k' = k
  · subst hk
    rw [update_self, Root_context.erase, value_at_remove, if_pos (List.prefix_refl _)]
    rfl
  · rw [update_of_ne hk, ← h k',
      (Changes.erase (root s) (place s k)).value_at (fun p hp => hp ▸ hcells.apart s (Ne.symm hk))]

end Cell

variable {key t : Type}

/-- An update of one key puts some bytes in its cell or empties it. -/
theorem Cellular.updates {V : VALUE} {root : t → Root_context} {place : t → key → Path}
    {S : Indexed_data_storage t key V.t} (h : Cellular V root place S) {s : t} {k : key}
    (hr : S.Updates s k r) :
    (∃ b, r = (root s).store (place s k) b) ∨ r = (root s).erase (place s k) := by
  rcases hr with ⟨v, hr⟩ | ⟨v, hr⟩ | ⟨v, hr⟩ | ⟨v, hr⟩ | hr | hr
  · rw [h.init, Root_context.init] at hr
    split at hr
    · cases hr
    · cases hr
      exact .inl ⟨_, rfl⟩
  · rw [h.set, Root_context.set] at hr
    split at hr
    · cases hr
      exact .inl ⟨_, rfl⟩
    · cases hr
  · exact .inl ⟨_, hr.trans (h.init_set s k v)⟩
  · rw [h.set_opt] at hr
    cases v with
    | none => exact .inr hr
    | some v => exact .inl ⟨_, hr⟩
  · rw [h.delete, Root_context.delete] at hr
    split at hr
    · cases hr
      exact .inr rfl
    · cases hr
  · exact .inr (hr.trans (h.remove s k))

/-- The list of the keys that a walk visits, and what the functions that walk
return. -/
structure Visits {t key value : Type} (S : Indexed_data_storage t key value) (s : t) (l : List key) :
    Prop where
  nodup : l.Nodup
  mem_iff : ∀ k, k ∈ l ↔ S.mem s k = true
  fold_keys : ∀ {α : Type} (acc : α) f, S.fold_keys s acc f = l.foldlM (fun acc k => f k acc) acc
  keys : S.keys s = .ok l.reverse
  fold : ∀ {α : Type} (acc : α) f,
    S.fold s acc f = l.foldlM (fun acc k => with_value (S.get s k) (f k) acc) acc
  bindings : S.bindings s = S.fold s [] fun k v acc => .ok ((k, v) :: acc)

/-- A storage that is a finite map. `Only s` says that no foreign key stands at
the location of `s`, and `Holds s m` that the keys are bound as in `m`. The
values that can be written are `Encodable`. -/
structure Finite_map {t key value : Type} [DecidableEq key] (S : Indexed_data_storage t key value)
    (focus : t → Root_context → t) (place : t → key → Path) (Only : t → Prop)
    (Holds : t → (key → Option value) → Prop) (Encodable : value → Prop) : Prop where
  mem : ∀ {s m} k, Holds s m → S.mem s k = (m k).isSome
  get_option : ∀ {s m} k, Holds s m → S.get_option s k = .ok (m k)
  get_some : ∀ {s m k v}, Holds s m → m k = some v → S.get s k = .ok v
  get_none : ∀ {s m k}, Holds s m → m k = none →
    S.get s k = storage_error (.Missing_key (.path (place s k)) .Get)
  init_some : ∀ {s m k} v, Holds s m → m k ≠ none →
    S.init s k v = storage_error (.Existing_key (.path (place s k)))
  init_none : ∀ {s m k v}, Holds s m → Encodable v → m k = none →
    ∃ r, S.init s k v = .ok r ∧ Holds (focus s r) (Function.update m k (some v))
  set_some : ∀ {s m k v}, Holds s m → Encodable v → m k ≠ none →
    ∃ r, S.set s k v = .ok r ∧ Holds (focus s r) (Function.update m k (some v))
  set_none : ∀ {s m k} v, Holds s m → m k = none →
    S.set s k v = storage_error (.Missing_key (.path (place s k)) .Set)
  init_set : ∀ {s m} k {v}, Holds s m → Encodable v →
    Holds (focus s (S.init_set s k v)) (Function.update m k (some v))
  set_opt : ∀ {s m} k {v}, Holds s m → (∀ x, v = some x → Encodable x) →
    Holds (focus s (S.set_opt s k v)) (Function.update m k v)
  delete_some : ∀ {s m k}, Holds s m → m k ≠ none →
    ∃ r, S.delete s k = .ok r ∧ Holds (focus s r) (Function.update m k none)
  delete_none : ∀ {s m k}, Holds s m → m k = none →
    S.delete s k = storage_error (.Missing_key (.path (place s k)) .Del)
  remove : ∀ {s m} k, Holds s m → Holds (focus s (S.remove s k)) (Function.update m k none)
  only : ∀ {s k r}, Only s → S.Updates s k r → Only (focus s r)
  clear : ∀ {s}, Only s → ∃ r, S.clear s = .ok r ∧ Only (focus s r) ∧
    Holds (focus s r) fun _ => none
  visits : ∀ {s}, Only s → ∃ l, Visits S s l

/-- The laws that concern one key, from the cells. -/
theorem Cellular.finite_map [DecidableEq key] {V : VALUE} {root : t → Root_context}
    {focus : t → Root_context → t} {place : t → key → Path} {S : Indexed_data_storage t key V.t}
    {Only : t → Prop} (h : Cellular V root place S) (hcells : Cells root focus place)
    (hstore : ∀ s k b, Only s → Only (focus s ((root s).store (place s k) b)))
    (herase : ∀ s k, Only s → Only (focus s ((root s).erase (place s k))))
    (hclear : ∀ s, Only s → ∃ r, S.clear s = .ok r ∧ Only (focus s r) ∧
      Holds V root place (focus s r) fun _ => none) (hvisits : ∀ s, Only s → ∃ l, Visits S s l) :
    Finite_map S focus place Only (Holds V root place) (fun v => ∃ b, V.to_bytes v = some b) where
  mem k hm := by rw [h.mem, hm.mem_eq]
  get_option {s m} k hm := by
    rw [h.get_option]
    cases hk : m k with
    | none =>
      have hnone := (hm.value_at_eq_none_iff k).mpr hk
      rw [Root_context.get_option, hnone]
    | some v =>
      obtain ⟨b, hb, hv⟩ := hm.value_at_some hk
      rw [Root_context.get_option, hb]
      simp only [of_bytes, hv]
      rfl
  get_some {s m k v} hm hk := by
    obtain ⟨b, hb, hv⟩ := hm.value_at_some hk
    rw [h.get, Root_context.get, hb]
    simp only [bind_ok, of_bytes, hv]
  get_none {s m k} hm hk := by
    have hnone := (hm.value_at_eq_none_iff k).mpr hk
    rw [h.get, Root_context.get, hnone]
    rfl
  init_some {s m k} v hm hk := by
    rw [h.init, Root_context.init, hm.mem_eq, if_pos (Option.isSome_iff_ne_none.mpr hk)]
  init_none := by
    rintro s m k v hm ⟨b, hb⟩ hk
    refine ⟨_, ?_, hm.store hcells k hb⟩
    rw [h.init, Root_context.init, hm.mem_eq, hk, to_bytes, hb]
    rfl
  set_some := by
    rintro s m k v hm ⟨b, hb⟩ hk
    refine ⟨_, ?_, hm.store hcells k hb⟩
    rw [h.set, Root_context.set, hm.mem_eq, if_pos (Option.isSome_iff_ne_none.mpr hk), to_bytes, hb]
  set_none {s m k} v hm hk := by
    rw [h.set, Root_context.set, hm.mem_eq, hk]
    rfl
  init_set := by
    rintro s m k v hm ⟨b, hb⟩
    rw [h.init_set, to_bytes, hb]
    exact hm.store hcells k hb
  set_opt {s m} k {v} hm hv := by
    rw [h.set_opt]
    cases v with
    | none => exact hm.erase hcells k
    | some x =>
      obtain ⟨b, hb⟩ := hv x rfl
      rw [Option.map_some, to_bytes, hb]
      exact hm.store hcells k hb
  delete_some {s m k} hm hk := by
    refine ⟨_, ?_, hm.erase hcells k⟩
    rw [h.delete, Root_context.delete, hm.mem_eq, if_pos (Option.isSome_iff_ne_none.mpr hk)]
  delete_none {s m k} hm hk := by
    rw [h.delete, Root_context.delete, hm.mem_eq, hk]
    rfl
  remove {s m} k hm := by
    rw [h.remove]
    exact hm.erase hcells k
  only {s k r} honly hr := by
    rcases h.updates hr with ⟨b, rfl⟩ | rfl
    · exact hstore s k b honly
    · exact herase s k honly
  clear := fun {s} honly => hclear s honly
  visits := fun {s} honly => hvisits s honly

end plexus.storage_functors
