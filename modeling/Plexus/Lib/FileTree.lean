import Mathlib.Data.List.Infix
import Plexus.Lib.OrderedMap

/-- A tree of directories and values. The entries of a directory stand in
increasing order of their names. -/
inductive FileTree (N V : Type) where
  | Key (value : V)
  | Dir (entries : List (N × FileTree N V))

namespace FileTree

open List Option

variable {N V : Type}

def empty : FileTree N V := .Dir []

def is_empty : FileTree N V → Bool
  | .Dir [] => true
  | _ => false

variable {t : FileTree N V}

theorem is_empty_iff : t.is_empty = true ↔ t = empty := by
  unfold is_empty
  split
  · exact iff_of_true rfl rfl
  · next hne => exact iff_of_false (by simp) hne

/-- What stands in a directory; nothing does in a value. -/
def entries : FileTree N V → List (N × FileTree N V)
  | .Key _ => []
  | .Dir es => es

variable [LinearOrder N]

/-! The entries of one directory. -/

def find_opt (n : N) (es : List (N × FileTree N V)) : Option (FileTree N V) :=
  (es.find? fun e => e.1 = n).map Prod.snd

def add (n : N) (t : FileTree N V) (es : List (N × FileTree N V)) : List (N × FileTree N V) :=
  es.filter (fun e => e.1 < n) ++ (n, t) :: es.filter (fun e => n < e.1)

def remove (n : N) (es : List (N × FileTree N V)) : List (N × FileTree N V) :=
  es.filter fun e => e.1 ≠ n

@[simp] theorem find_opt_nil (n : N) : find_opt n ([] : List (N × FileTree N V)) = none := rfl

theorem find_opt_cons (n m : N) (t : FileTree N V) (es : List (N × FileTree N V)) :
    find_opt n ((m, t) :: es) = if m = n then some t else find_opt n es := by
  unfold find_opt
  by_cases h : m = n <;> simp [h]

theorem find_opt_append (n : N) (es es' : List (N × FileTree N V)) :
    find_opt n (es ++ es') = (find_opt n es).or (find_opt n es') := by
  unfold find_opt
  rw [find?_append, map_or]

variable {n m : N}

theorem find_opt_filter (p : N → Bool) (es : List (N × FileTree N V)) :
    find_opt n (es.filter fun e => p e.1) = if p n then find_opt n es else none := by
  induction es with
  | nil => simp
  | cons e es ih =>
    obtain ⟨m, t⟩ := e
    rw [filter_cons, find_opt_cons]
    by_cases hm : m = n
    · subst hm
      by_cases hp : p m <;> simp [hp, find_opt_cons, ih]
    · by_cases hp : p m <;> simp [hp, hm, find_opt_cons, ih]

@[simp] theorem find_opt_add_self (n : N) (t : FileTree N V) (es : List (N × FileTree N V)) :
    find_opt n (add n t es) = some t := by
  rw [add, find_opt_append, find_opt_filter fun m => m < n]
  simp [find_opt_cons]

theorem find_opt_add_ne (h : m ≠ n) (t : FileTree N V) (es : List (N × FileTree N V)) :
    find_opt m (add n t es) = find_opt m es := by
  rw [add, find_opt_append, find_opt_cons, if_neg (Ne.symm h), find_opt_filter fun k => k < n,
    find_opt_filter fun k => n < k]
  rcases lt_or_gt_of_ne h with hlt | hlt
  · simp [hlt, hlt.not_gt]
  · simp [hlt, hlt.not_gt]

@[simp] theorem find_opt_remove_self (n : N) (es : List (N × FileTree N V)) :
    find_opt n (remove n es) = none := by
  rw [remove, find_opt_filter fun m => m ≠ n]
  simp

theorem find_opt_remove_ne (h : m ≠ n) (es : List (N × FileTree N V)) :
    find_opt m (remove n es) = find_opt m es := by
  rw [remove, find_opt_filter fun k => k ≠ n]
  simp [h]

def Sorted (es : List (N × FileTree N V)) : Prop := es.Pairwise fun a b => a.1 < b.1

variable {es : List (N × FileTree N V)}

theorem Sorted.add (h : Sorted es) (n : N) (t : FileTree N V) : Sorted (add n t es) :=
  (OrderedMap.add ⟨es, h⟩ n t).sorted

theorem Sorted.remove (h : Sorted es) (n : N) : Sorted (remove n es) := h.filter _

/-- Sorted entries are found exactly where they are. -/
theorem Sorted.find_opt_eq_some_iff (h : Sorted es) : find_opt n es = some t ↔ (n, t) ∈ es := by
  induction es with
  | nil => simp
  | cons e es ih =>
    obtain ⟨m, s⟩ := e
    obtain ⟨hlt, hes⟩ := pairwise_cons.mp h
    rw [find_opt_cons, mem_cons]
    by_cases hm : m = n
    · subst hm
      have hnot : (m, t) ∉ es := fun hmem => lt_irrefl m (hlt _ hmem)
      simp [hnot, eq_comm]
    · simp [hm, Ne.symm hm, ih hes]

/-! Reading and changing a tree at a path. -/

def raw_get : FileTree N V → List N → Option (FileTree N V)
  | m, [] => some m
  | .Dir m, n :: k =>
    match find_opt n m with
    | some res => raw_get res k
    | none => none
  | .Key _, _ :: _ => none

/-- Put a tree at a path, or take away what stands there. A directory that
becomes empty disappears from the one above it. A value that stands on the way
is replaced by a directory when something is put below it. -/
def raw_set : FileTree N V → List N → Option (FileTree N V) → FileTree N V
  | _, [], some v => v
  | _, [], none => empty
  | .Key x, _ :: _, none => .Key x
  | m, n :: k, v =>
    let rm := raw_set ((find_opt n m.entries).getD empty) k v
    if rm.is_empty then .Dir (remove n m.entries) else .Dir (add n rm m.entries)

/-- The value at a path. -/
def value_at (t : FileTree N V) (p : List N) : Option V :=
  match t.raw_get p with
  | some (.Key v) => some v
  | _ => none

@[simp] theorem raw_get_nil (t : FileTree N V) : t.raw_get [] = some t := by
  cases t <;> rfl

theorem raw_get_cons (t : FileTree N V) (n : N) (p : List N) :
    t.raw_get (n :: p) = (find_opt n t.entries).bind fun s => s.raw_get p := by
  cases t with
  | Key v => rfl
  | Dir es =>
    rw [raw_get, entries]
    cases find_opt n es <;> rfl

/-- A path is followed in two parts. -/
theorem raw_get_append (t : FileTree N V) (p q : List N) :
    t.raw_get (p ++ q) = (t.raw_get p).bind fun s => s.raw_get q := by
  induction p generalizing t with
  | nil => simp
  | cons n p ih =>
    rw [cons_append, raw_get_cons, raw_get_cons, bind_assoc]
    simp only [ih]

variable {p : List N}

theorem value_at_eq_some_iff {v : V} : t.value_at p = some v ↔ t.raw_get p = some (.Key v) := by
  unfold value_at
  split
  · next x heq => rw [heq]; simp
  · next hne =>
    refine iff_of_false (by simp) ?_
    intro h
    exact hne v h

theorem value_at_append (t : FileTree N V) (p q : List N) :
    t.value_at (p ++ q) = (t.raw_get p).bind fun s => s.value_at q := by
  unfold value_at
  rw [raw_get_append]
  cases t.raw_get p <;> rfl

theorem value_at_congr {t' : FileTree N V} (h : t'.raw_get p = t.raw_get p) :
    t'.value_at p = t.value_at p := by
  unfold value_at
  rw [h]

theorem raw_get_empty (h : p ≠ []) : (empty : FileTree N V).raw_get p = none := by
  cases p with
  | nil => exact absurd rfl h
  | cons n p => rfl

@[simp] theorem value_at_empty (p : List N) : (empty : FileTree N V).value_at p = none := by
  cases p <;> rfl

theorem value_at_cons (t : FileTree N V) (n : N) (p : List N) :
    t.value_at (n :: p) = ((find_opt n t.entries).getD empty).value_at p := by
  unfold value_at
  rw [raw_get_cons]
  cases find_opt n t.entries with
  | none => cases p <;> rfl
  | some s => rfl

theorem raw_get_key {v : V} (h : p ≠ []) : (.Key v : FileTree N V).raw_get p = none := by
  cases p with
  | nil => exact absurd rfl h
  | cons n p => rfl

/-- One step of putting something: the entry is changed, or removed if nothing
is left in it. -/
theorem raw_set_cons_some (t : FileTree N V) (n : N) (p : List N) (v : FileTree N V) :
    t.raw_set (n :: p) (some v) =
      let rm := ((find_opt n t.entries).getD empty).raw_set p (some v)
      if rm.is_empty then .Dir (remove n t.entries) else .Dir (add n rm t.entries) := by
  cases t <;> rfl

/-- A change at a path is a change of one entry, except below a value that
nothing is put under. -/
theorem raw_set_cons (t : FileTree N V) (n : N) (p : List N) (v : Option (FileTree N V)) :
    (∃ x, t = .Key x ∧ v = none ∧ t.raw_set (n :: p) v = t) ∨
      t.raw_set (n :: p) v =
        let rm := ((find_opt n t.entries).getD empty).raw_set p v
        if rm.is_empty then .Dir (remove n t.entries) else .Dir (add n rm t.entries) := by
  cases v with
  | some d => exact .inr (raw_set_cons_some t n p d)
  | none =>
    cases t with
    | Key x => exact .inl ⟨x, rfl, rfl, rfl⟩
    | Dir es => exact .inr rfl

variable {q : List N}

/-- Where the first names agree, the change is read in the entry. -/
theorem raw_get_raw_set_cons_self {v : Option (FileTree N V)} (hq : q ≠ []) :
    (t.raw_set (n :: p) v).raw_get (n :: q) =
      (((find_opt n t.entries).getD empty).raw_set p v).raw_get q ∨
    (t.raw_set (n :: p) v).raw_get (n :: q) = t.raw_get (n :: q) ∧ v = none ∧
      ∃ x, t = .Key x := by
  rcases raw_set_cons t n p v with ⟨x, rfl, rfl, heq⟩ | heq
  · exact .inr ⟨by rw [heq], rfl, x, rfl⟩
  · left
    rw [heq]
    dsimp only
    split
    · next hempty =>
      rw [is_empty_iff.mp hempty, raw_get_empty hq, raw_get_cons, entries, find_opt_remove_self]
      rfl
    · rw [raw_get_cons, entries, find_opt_add_self]
      rfl

/-- A change below one name leaves the other names. -/
theorem raw_get_raw_set_cons_ne (h : m ≠ n) (p q : List N) (v : Option (FileTree N V)) :
    (t.raw_set (n :: p) v).raw_get (m :: q) = t.raw_get (m :: q) := by
  rcases raw_set_cons t n p v with ⟨x, rfl, rfl, heq⟩ | heq
  · rw [heq]
  · rw [heq]
    dsimp only
    split
    · rw [raw_get_cons, raw_get_cons, entries, find_opt_remove_ne h]
    · rw [raw_get_cons, raw_get_cons, entries, find_opt_add_ne h]

/-- Two paths neither of which continues the other. -/
def Apart (p q : List N) : Prop := ¬ p <+: q ∧ ¬ q <+: p

section

omit [LinearOrder N]

theorem Apart.symm (h : Apart p q) : Apart q p := ⟨h.2, h.1⟩

theorem Apart.ne_nil (h : Apart p q) : p ≠ [] := by
  rintro rfl
  exact h.1 nil_prefix

theorem apart_cons_iff : Apart (n :: p) (n :: q) ↔ Apart p q := by
  simp [Apart, cons_prefix_cons]

theorem apart_append_iff {r : List N} : Apart (r ++ p) (r ++ q) ↔ Apart p q := by
  simp [Apart, prefix_append_right_inj]

theorem Apart.not_prefix_append (h : Apart p q) (r r' : List N) : ¬ p ++ r <+: q ++ r' := by
  intro hpre
  rcases prefix_or_prefix_of_prefix ((prefix_append p r).trans hpre) (prefix_append q r') with h' | h'
  · exact h.1 h'
  · exact h.2 h'

/-- Paths below paths that are apart are apart. -/
theorem Apart.append (h : Apart p q) (r r' : List N) : Apart (p ++ r) (q ++ r') :=
  ⟨h.not_prefix_append r r', h.symm.not_prefix_append r' r⟩

/-- Two paths of the same length are the same or apart. -/
theorem apart_of_length_eq (hlength : p.length = q.length) (hne : p ≠ q) : Apart p q := by
  constructor
  · intro h
    exact hne (h.eq_of_length hlength)
  · intro h
    exact hne (h.eq_of_length hlength.symm).symm

end

/-- A change leaves alone what is apart from it. -/
theorem raw_get_raw_set_apart (h : Apart p q) (t : FileTree N V) (v : Option (FileTree N V)) :
    (t.raw_set p v).raw_get q = t.raw_get q := by
  induction p generalizing t q with
  | nil => exact absurd rfl h.ne_nil
  | cons n p ih =>
    cases q with
    | nil => exact absurd rfl h.symm.ne_nil
    | cons m q =>
      by_cases hm : m = n
      · subst hm
        have hpq := apart_cons_iff.mp h
        rcases raw_get_raw_set_cons_self hpq.symm.ne_nil with heq | ⟨heq, -⟩
        · rw [heq, ih hpq, raw_get_cons]
          cases find_opt m t.entries with
          | none => exact raw_get_empty hpq.symm.ne_nil
          | some s => rfl
        · exact heq
      · exact raw_get_raw_set_cons_ne hm p q v

/-- What is put at a path is found there. -/
theorem raw_get_raw_set_append {v : FileTree N V} (hv : v ≠ empty) (t : FileTree N V)
    (p q : List N) : (t.raw_set p (some v)).raw_get (p ++ q) = v.raw_get q := by
  suffices h : (t.raw_set p (some v)).raw_get p = some v by rw [raw_get_append, h]; rfl
  induction p generalizing t with
  | nil => exact raw_get_nil v
  | cons n p ih =>
    have hne : (((find_opt n t.entries).getD empty).raw_set p (some v)).is_empty = false := by
      rw [← Bool.not_eq_true, is_empty_iff]
      intro hempty
      have h := ih ((find_opt n t.entries).getD empty)
      rw [hempty] at h
      cases p with
      | nil =>
        rw [raw_get_nil] at h
        cases h
        exact hv rfl
      | cons m p =>
        rw [raw_get_empty (cons_ne_nil m p)] at h
        cases h
    rw [raw_set_cons_some]
    dsimp only
    rw [hne, if_neg Bool.false_ne_true, raw_get_cons, entries, find_opt_add_self]
    exact ih _

/-- Nothing is left at a path, and below it, that something was taken from. -/
theorem raw_get_raw_set_none (hp : p ≠ []) (t : FileTree N V) (q : List N) :
    (t.raw_set p none).raw_get (p ++ q) = none := by
  suffices h : (t.raw_set p none).raw_get p = none by rw [raw_get_append, h]; rfl
  induction p generalizing t with
  | nil => exact absurd rfl hp
  | cons n p ih =>
    cases p with
    | nil =>
      cases t with
      | Key x => rfl
      | Dir es =>
        show (FileTree.Dir (remove n es)).raw_get [n] = none
        rw [raw_get_cons, entries, find_opt_remove_self]
        rfl
    | cons m p =>
      rcases raw_get_raw_set_cons_self (t := t) (cons_ne_nil m p) with heq | ⟨heq, -, x, rfl⟩
      · rw [heq]
        exact ih (cons_ne_nil m p) _
      · rw [heq]
        rfl

/-- Above the place of a change there is no new value. -/
theorem value_at_raw_set_above (h : p <+: q) (hne : p ≠ q) (t : FileTree N V)
    (v : Option (FileTree N V)) :
    (t.raw_set q v).value_at p = if v = none then t.value_at p else none := by
  induction q generalizing t p with
  | nil => exact absurd (prefix_nil.mp h) hne
  | cons n q ih =>
    cases p with
    | nil =>
      cases v with
      | some d =>
        rw [raw_set_cons_some]
        dsimp only
        split <;> rfl
      | none =>
        cases t with
        | Key x => rfl
        | Dir es =>
          show (ite _ _ _ : FileTree N V).value_at [] = none
          split <;> rfl
    | cons m p =>
      obtain ⟨rfl, hpq⟩ := cons_prefix_cons.mp h
      have hne' : p ≠ q := fun heq => hne (by rw [heq])
      rw [value_at_cons t, ← ih hpq hne']
      rcases raw_set_cons t m q v with ⟨x, rfl, rfl, heq⟩ | heq
      · rw [heq, value_at_cons, ih hpq hne', if_pos rfl]
      · rw [heq, value_at_cons]
        dsimp only
        split
        · next hempty =>
          rw [is_empty_iff.mp hempty, entries, find_opt_remove_self, getD_none]
        · rw [entries, find_opt_add_self, getD_some]

/-- What a tree holds after a value is put at a path: the value there, nothing
above it or below it, and the rest as before. -/
theorem value_at_set (t : FileTree N V) (p q : List N) (v : V) :
    (t.raw_set p (some (.Key v))).value_at q =
      if q = p then some v else if p <+: q ∨ q <+: p then none else t.value_at q := by
  have hkey : (FileTree.Key v : FileTree N V) ≠ empty := by simp [empty]
  by_cases hq : q = p
  · subst hq
    rw [if_pos rfl, value_at_eq_some_iff]
    simpa using raw_get_raw_set_append hkey t q []
  rw [if_neg hq]
  by_cases hpq : p <+: q
  · rw [if_pos (.inl hpq)]
    obtain ⟨r, rfl⟩ := hpq
    have hr : r ≠ [] := by
      rintro rfl
      exact hq (append_nil p)
    unfold value_at
    rw [raw_get_raw_set_append hkey, raw_get_key hr]
  · by_cases hqp : q <+: p
    · rw [if_pos (.inr hqp), value_at_raw_set_above hqp hq, if_neg (by simp)]
    · rw [if_neg (by simp [hpq, hqp])]
      exact value_at_congr (raw_get_raw_set_apart ⟨hpq, hqp⟩ t _)

/-- What a tree holds after a path is taken away: nothing there and below, and
the rest as before. -/
theorem value_at_remove (t : FileTree N V) (p q : List N) :
    (t.raw_set p none).value_at q = if p <+: q then none else t.value_at q := by
  by_cases hpq : p <+: q
  · obtain ⟨r, rfl⟩ := hpq
    rw [if_pos (prefix_append p r)]
    cases p with
    | nil => exact value_at_empty r
    | cons n p => rw [value_at, raw_get_raw_set_none (cons_ne_nil n p)]
  · rw [if_neg hpq]
    by_cases hqp : q <+: p
    · have hne : q ≠ p := by
        rintro rfl
        exact hpq hqp
      rw [value_at_raw_set_above hqp hne, if_pos rfl]
    · exact value_at_congr (raw_get_raw_set_apart ⟨hpq, hqp⟩ t _)

/-! Trees as they are built: the entries are sorted, and only the root can be
an empty directory. -/

def Wf (t : FileTree N V) : Prop :=
  ∀ p es, t.raw_get p = some (.Dir es) → Sorted es ∧ (p ≠ [] → es ≠ [])

theorem wf_key (v : V) : (FileTree.Key v : FileTree N V).Wf := by
  intro p es h
  cases p with
  | nil => cases h
  | cons n p => cases h

theorem wf_dir_iff :
    (FileTree.Dir es).Wf ↔ Sorted es ∧ ∀ n s, find_opt n es = some s → s.Wf ∧ s ≠ empty := by
  constructor
  · intro h
    refine ⟨(h [] es rfl).1, ?_⟩
    intro n s hs
    have hbelow p : (FileTree.Dir es).raw_get (n :: p) = s.raw_get p := by
      rw [raw_get_cons, entries, hs]
      rfl
    refine ⟨?_, ?_⟩
    · intro p es' hp
      have hwf := h (n :: p) es' (by rw [hbelow, hp])
      exact ⟨hwf.1, fun _ => hwf.2 (cons_ne_nil n p)⟩
    · rintro rfl
      exact (h [n] [] (by rw [hbelow, raw_get_nil]; rfl)).2 (cons_ne_nil n []) rfl
  · rintro ⟨hsorted, hentries⟩ p es' hp
    cases p with
    | nil =>
      cases hp
      exact ⟨hsorted, fun hne => absurd rfl hne⟩
    | cons n p =>
      rw [raw_get_cons, entries, bind_eq_some_iff] at hp
      obtain ⟨s, hs, hp⟩ := hp
      obtain ⟨hwf, hne⟩ := hentries n s hs
      refine ⟨(hwf p es' hp).1, fun _ => ?_⟩
      cases p with
      | nil =>
        rw [raw_get_nil] at hp
        cases hp
        rintro rfl
        exact hne rfl
      | cons m p => exact (hwf (m :: p) es' hp).2 (cons_ne_nil m p)

theorem wf_empty : (empty : FileTree N V).Wf := wf_dir_iff.mpr ⟨.nil, by simp⟩

theorem Wf.entry (h : t.Wf) {s : FileTree N V} (hs : find_opt n t.entries = some s) :
    s.Wf ∧ s ≠ empty := by
  cases t with
  | Key v => cases hs
  | Dir es => exact (wf_dir_iff.mp h).2 n s hs

theorem Wf.sorted (h : t.Wf) : Sorted t.entries := by
  cases t with
  | Key v => exact .nil
  | Dir es => exact (wf_dir_iff.mp h).1

/-- The parts of a well-formed tree are well formed. -/
theorem Wf.raw_get {s : FileTree N V} (h : t.Wf) (hs : t.raw_get p = some s) : s.Wf := by
  intro q es hq
  have hpq : t.raw_get (p ++ q) = some (.Dir es) := by rw [raw_get_append, hs]; exact hq
  refine ⟨(h _ es hpq).1, fun hne => (h _ es hpq).2 ?_⟩
  simp [hne]

/-- A tree stays well formed. -/
theorem Wf.raw_set (h : t.Wf) {v : Option (FileTree N V)} (hv : ∀ s, v = some s → s.Wf)
    (p : List N) :
    (t.raw_set p v).Wf := by
  induction p generalizing t with
  | nil =>
    cases v with
    | none => exact wf_empty
    | some s => exact hv s rfl
  | cons n p ih =>
    have hentry : ((find_opt n t.entries).getD empty).Wf := by
      cases hs : find_opt n t.entries with
      | none => exact wf_empty
      | some s => exact (h.entry hs).1
    rcases raw_set_cons t n p v with ⟨x, rfl, rfl, heq⟩ | heq
    · rw [heq]
      exact h
    rw [heq]
    dsimp only
    split
    · refine wf_dir_iff.mpr ⟨h.sorted.remove n, ?_⟩
      intro m s hs
      by_cases hm : m = n
      · rw [hm, find_opt_remove_self] at hs
        cases hs
      · rw [find_opt_remove_ne hm] at hs
        exact h.entry hs
    · next hne =>
      refine wf_dir_iff.mpr ⟨h.sorted.add n _, ?_⟩
      intro m s hs
      by_cases hm : m = n
      · rw [hm, find_opt_add_self] at hs
        cases hs
        exact ⟨ih hentry, fun hempty => hne (is_empty_iff.mpr hempty)⟩
      · rw [find_opt_add_ne hm] at hs
        exact h.entry hs

/-- Every tree that is not empty holds a value. -/
theorem exists_value : (t : FileTree N V) → t.Wf → t ≠ empty → ∃ p v, t.value_at p = some v
  | .Key v, _, _ => ⟨[], v, rfl⟩
  | .Dir [], _, hne => absurd rfl hne
  | .Dir ((n, s) :: es), h, _ => by
    have hs : find_opt n ((n, s) :: es) = some s := by rw [find_opt_cons, if_pos rfl]
    obtain ⟨hwf, hempty⟩ := h.entry hs
    obtain ⟨p, v, hv⟩ := exists_value s hwf hempty
    refine ⟨n :: p, v, ?_⟩
    rw [value_at_cons, entries, hs]
    exact hv

/-! Walks of a fixed depth. -/

/-- The paths of `i` names that lead to values, in the order of a walk. -/
def key_paths : Nat → FileTree N V → List (List N)
  | i + 2, t => t.entries.flatMap fun (n, s) =>
    match s with
    | .Dir _ => (key_paths (i + 1) s).map (n :: ·)
    | .Key _ => []
  | _, t => t.entries.filterMap fun (n, s) =>
    match s with
    | .Key _ => some [n]
    | .Dir _ => none

/-- The paths of `i` names that lead to directories, in the order of a walk. -/
def dir_paths : Nat → FileTree N V → List (List N)
  | 0, _ => [[]]
  | i + 1, t => t.entries.flatMap fun (n, s) =>
    match s with
    | .Dir _ => (dir_paths i s).map (n :: ·)
    | .Key _ => []

/-- The paths that `paths` gives in the directories of a tree, after the names of
the directories. -/
def descend (paths : FileTree N V → List (List N)) (t : FileTree N V) : List (List N) :=
  t.entries.flatMap fun (n, s) =>
    match s with
    | .Dir _ => (paths s).map (n :: ·)
    | .Key _ => []

variable {paths : FileTree N V → List (List N)}

/-- A walk of a fixed depth reaches the paths of that length. -/
theorem mem_descend (h : t.Wf) {i : Nat} {P : FileTree N V → Prop}
    (hpaths : ∀ es, (Dir es : FileTree N V).Wf → ∀ q,
      q ∈ paths (.Dir es) ↔ q.length = i ∧ ∃ s, (Dir es).raw_get q = some s ∧ P s)
    (hkey : i = 0 → ∀ v, ¬P (.Key v)) (p : List N) :
    p ∈ descend paths t ↔ p.length = i + 1 ∧ ∃ s, t.raw_get p = some s ∧ P s := by
  simp only [descend, mem_flatMap, Prod.exists]
  constructor
  · rintro ⟨n, s, hs, hp⟩
    have hfind := h.sorted.find_opt_eq_some_iff.mpr hs
    cases s with
    | Key v => cases hp
    | Dir es =>
      obtain ⟨q, hq, rfl⟩ := mem_map.mp hp
      obtain ⟨hlength, s, hs, hP⟩ := (hpaths es (h.entry hfind).1 q).mp hq
      refine ⟨by rw [length_cons, hlength], s, ?_, hP⟩
      rw [raw_get_cons, hfind]
      exact hs
  · rintro ⟨hlength, s, hs, hP⟩
    cases p with
    | nil => cases hlength
    | cons n q =>
      rw [raw_get_cons, bind_eq_some_iff] at hs
      obtain ⟨d, hd, hs⟩ := hs
      have hq : q.length = i := by simpa using hlength
      cases d with
      | Key v =>
        cases q with
        | nil =>
          cases hs
          exact absurd hP (hkey hq.symm v)
        | cons m q => cases hs
      | Dir es =>
        refine ⟨n, .Dir es, h.sorted.find_opt_eq_some_iff.mp hd, mem_map.mpr ⟨q, ?_, rfl⟩⟩
        exact (hpaths es (h.entry hd).1 q).mpr ⟨hq, s, hs, hP⟩

/-- The keys at a depth are the paths of that length with a value. -/
theorem mem_key_paths (h : t.Wf) (i : Nat) (p : List N) :
    p ∈ key_paths (i + 1) t ↔ p.length = i + 1 ∧ ∃ s, t.raw_get p = some s ∧ ∃ v, s = .Key v := by
  induction i generalizing t p with
  | zero =>
    simp only [key_paths, mem_filterMap, Prod.exists]
    constructor
    · rintro ⟨n, s, hs, heq⟩
      cases s with
      | Dir es => cases heq
      | Key v =>
        cases heq
        refine ⟨rfl, .Key v, ?_, v, rfl⟩
        rw [raw_get_cons, h.sorted.find_opt_eq_some_iff.mpr hs]
        rfl
    · rintro ⟨hlength, _, hs, v, rfl⟩
      obtain ⟨n, rfl⟩ := length_eq_one_iff.mp hlength
      rw [raw_get_cons, bind_eq_some_iff] at hs
      obtain ⟨s, hs, hv⟩ := hs
      rw [raw_get_nil] at hv
      cases hv
      exact ⟨n, .Key v, h.sorted.find_opt_eq_some_iff.mp hs, rfl⟩
  | succ i ih => exact mem_descend h (fun _ => ih) (by simp) p

/-- Directories are reached in the same way. -/
theorem mem_dir_paths (h : t.Wf) (i : Nat) (p : List N) :
    p ∈ dir_paths (i + 1) t ↔ p.length = i + 1 ∧ ∃ s, t.raw_get p = some s ∧ ∃ es, s = .Dir es := by
  induction i generalizing t p with
  | zero =>
    refine mem_descend h (fun es _ q => ?_) (by simp) p
    rw [dir_paths, mem_singleton, length_eq_zero_iff]
    constructor
    · rintro rfl
      exact ⟨rfl, _, rfl, es, rfl⟩
    · exact And.left
  | succ i ih => exact mem_descend h (fun _ => ih) (by simp) p

/-- A walk reaches no path twice. -/
theorem nodup_descend (h : t.Wf)
    (hpaths : ∀ es, (Dir es : FileTree N V).Wf → (paths (.Dir es)).Nodup) :
    (descend paths t).Nodup := by
  rw [descend, nodup_flatMap]
  refine ⟨?_, h.sorted.imp ?_⟩
  · rintro ⟨n, s⟩ hs
    cases s with
    | Key v => exact .nil
    | Dir es =>
      refine List.Nodup.map cons_injective (hpaths es ?_)
      exact (h.entry (h.sorted.find_opt_eq_some_iff.mpr hs)).1
  · rintro ⟨n, s⟩ ⟨m, s'⟩ hlt p hp hq
    -- the paths begin with different names
    cases s <;> cases s' <;> simp only [List.mem_map, not_mem_nil] at hp hq
    obtain ⟨q, -, rfl⟩ := hp
    obtain ⟨q', -, heq⟩ := hq
    rw [(List.cons.inj heq).1] at hlt
    exact lt_irrefl _ hlt

theorem nodup_key_paths (h : t.Wf) (i : Nat) : (key_paths (i + 1) t).Nodup := by
  induction i generalizing t with
  | zero =>
    refine List.Pairwise.filterMap _ ?_ h.sorted
    rintro ⟨n, s⟩ ⟨m, s'⟩ hlt p hp q hq heq
    cases s with
    | Dir es => cases hp
    | Key v =>
      cases s' with
      | Dir es => cases hq
      | Key v' =>
        cases hp
        cases hq
        rw [(List.cons.inj heq).1] at hlt
        exact lt_irrefl _ hlt
  | succ i ih => exact nodup_descend h fun _ => ih

theorem nodup_dir_paths (h : t.Wf) (i : Nat) : (dir_paths i t).Nodup := by
  induction i generalizing t with
  | zero => exact nodup_singleton []
  | succ i ih => exact nodup_descend h fun _ => ih

end FileTree
