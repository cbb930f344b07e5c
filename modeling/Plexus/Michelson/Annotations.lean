import Plexus.Error

/-! Annotations of types and instructions. -/

namespace plexus

open List Result


structure Var_annot where
  name : MBytes
deriving DecidableEq, Repr

structure Type_annot where
  name : MBytes
deriving DecidableEq, Repr

structure Field_annot where
  name : MBytes
deriving DecidableEq, Repr

/-- An annotation as it is read, where a mark alone is a wildcard. -/
inductive Annot where
  | Var_annot (a : Option MBytes)
  | Type_annot (a : Option MBytes)
  | Field_annot (a : Option MBytes)
deriving DecidableEq, Repr

namespace script_ir_annot

def unparse_type_annot : Option Type_annot → List MBytes
  | none => []
  | some a => [':'.toUInt8 :: a.name]

def unparse_var_annot : Option Var_annot → List MBytes
  | none => []
  | some a => ['@'.toUInt8 :: a.name]

def unparse_field_annot : Option Field_annot → List MBytes
  | none => []
  | some a => ['%'.toUInt8 :: a.name]

def error_unexpected_annot {α : Type} (loc : ℤ) : List α → Tzresult Unit
  | [] => .ok ()
  | _ :: _ => fail <| Error.Unexpected_annotation loc

def between (first last c : UInt8) : Bool := decide (first ≤ c) && decide (c ≤ last)

/-- The characters an annotation may start with. -/
def is_first_char (c : UInt8) : Bool :=
  between 'a'.toUInt8 'z'.toUInt8 c || between 'A'.toUInt8 'Z'.toUInt8 c || c == '_'.toUInt8

def check_char (loc : ℤ) (c : UInt8) : Tzresult Unit :=
  if between 'a'.toUInt8 'z'.toUInt8 c || between 'A'.toUInt8 'Z'.toUInt8 c || c == '_'.toUInt8 ||
      c == '.'.toUInt8 || c == '%'.toUInt8 || c == '@'.toUInt8 ||
      between '0'.toUInt8 '9'.toUInt8 c then .ok ()
  else fail <| Error.Unexpected_annotation loc

/-- Check a predicate on every character of a string. -/
def string_iter (p : UInt8 → Tzresult Unit) : MBytes → Tzresult Unit
  | [] => .ok ()
  | c :: rest => do
    p c
    string_iter p rest

def max_annot_length : ℕ := 255

/-- Read the annotation that consists of a mark and of `name`. -/
def sub_or_wildcard (loc : ℤ) (specials : List UInt8) (wrap : Option MBytes → Annot)
    (name : MBytes) (acc : List Annot) : Tzresult (List Annot) :=
  if max_annot_length < name.length + 1 then fail <| Error.Unexpected_annotation loc
  else
    match name with
    | [] => .ok (wrap none :: acc)
    | c :: rest =>
      if is_first_char c then do
        string_iter (check_char loc) rest
        .ok (wrap (some (c :: rest)) :: acc)
      else if c = '@'.toUInt8 ∧ rest = [] ∧ '@'.toUInt8 ∈ specials then
        .ok (wrap (some ['@'.toUInt8]) :: acc)
      else if c = '%'.toUInt8 ∧ '%'.toUInt8 ∈ specials then
        if rest = [] then .ok (wrap (some ['%'.toUInt8]) :: acc)
        else if rest = ['%'.toUInt8] then
          .ok (wrap (some ['%'.toUInt8, '%'.toUInt8]) :: acc)
        else fail <| Error.Unexpected_annotation loc
      else fail <| Error.Unexpected_annotation loc

/-- Read one annotation in front of those already read. -/
def parse_annot (loc : ℤ) (allow_special_var allow_special_field : Bool) (acc : List Annot) :
    MBytes → Tzresult (List Annot)
  | [] => fail <| Error.Unexpected_annotation loc
  | mark :: name =>
    if mark = ':'.toUInt8 then sub_or_wildcard loc [] .Type_annot name acc
    else if mark = '@'.toUInt8 then
      sub_or_wildcard loc (if allow_special_var then ['%'.toUInt8] else []) .Var_annot name acc
    else if mark = '%'.toUInt8 then
      sub_or_wildcard loc (if allow_special_field then ['@'.toUInt8] else []) .Field_annot name acc
    else fail <| Error.Unexpected_annotation loc

def parse_annots (loc : ℤ) (allow_special_var allow_special_field : Bool) (l : List MBytes) :
    Tzresult (List Annot) := do
  let acc ← l.foldlM (parse_annot loc allow_special_var allow_special_field) []
  pure acc.reverse

/-- The annotations of each sort read so far, last first, and which sort was
read last. -/
structure Groups where
  in_v : Bool
  rv : List (Option Var_annot)
  in_t : Bool
  rt : List (Option Type_annot)
  in_f : Bool
  rf : List (Option Field_annot)

def classify (loc : ℤ) (groups : Groups) : Annot → Tzresult Groups
  | .Var_annot a =>
    if groups.in_v || groups.rv.isEmpty then
      .ok { groups with in_v := true, rv := a.map Var_annot.mk :: groups.rv, in_t := false,
                        in_f := false }
    else fail (.Ungrouped_annotations loc)
  | .Type_annot a =>
    if groups.in_t || groups.rt.isEmpty then
      .ok { groups with in_v := false, in_t := true, rt := a.map Type_annot.mk :: groups.rt,
                        in_f := false }
    else fail (.Ungrouped_annotations loc)
  | .Field_annot a =>
    if groups.in_f || groups.rf.isEmpty then
      .ok { groups with in_v := false, in_t := false, in_f := true,
                        rf := a.map Field_annot.mk :: groups.rf }
    else fail (.Ungrouped_annotations loc)

def classify_annot (loc : ℤ) (l : List Annot) :
    Tzresult (List (Option Var_annot) × List (Option Type_annot) × List (Option Field_annot)) := do
  let groups ← l.foldlM (classify loc) ⟨false, [], false, [], false, []⟩
  pure (groups.rv.reverse, groups.rt.reverse, groups.rf.reverse)

def get_one_annot {α : Type} (loc : ℤ) : List (Option α) → Tzresult (Option α)
  | [] => .ok none
  | [a] => .ok a
  | _ => fail <| Error.Unexpected_annotation loc

def get_two_annot {α : Type} (loc : ℤ) : List (Option α) → Tzresult (Option α × Option α)
  | [] => .ok (none, none)
  | [a] => .ok (a, none)
  | [a, b] => .ok (a, b)
  | _ => fail <| Error.Unexpected_annotation loc

def parse_type_annot (loc : ℤ) (annot : List MBytes) : Tzresult (Option Type_annot) := do
  let annots ← parse_annots loc false false annot
  let (vars, types, fields) ← classify_annot loc annots
  error_unexpected_annot loc vars
  error_unexpected_annot loc fields
  get_one_annot loc types

def parse_composed_type_annot (loc : ℤ) (annot : List MBytes) :
    Tzresult (Option Type_annot × Option Field_annot × Option Field_annot) := do
  let annots ← parse_annots loc false false annot
  let (vars, types, fields) ← classify_annot loc annots
  error_unexpected_annot loc vars
  let t ← get_one_annot loc types
  let (f1, f2) ← get_two_annot loc fields
  pure (t, f1, f2)

/-- The first annotation with the mark of a field, and the others. The list is
the one that is searched when there is none. -/
def extract_first (annot : List MBytes) (acc : List MBytes) :
    List MBytes → Option MBytes × List MBytes
  | [] => (none, annot)
  | s :: rest =>
    if s.head? = some '%'.toUInt8 then (some s, acc.reverse ++ rest)
    else extract_first annot (s :: acc) rest

/-- Take the field annotation off a node. The name that follows the mark is not
checked. -/
def extract_field_annot : Script_node → Script_node × Option Field_annot
  | .Prim loc prim args annot =>
    (.Prim loc prim args (extract_first annot [] annot).2,
      (extract_first annot [] annot).1.map fun s => ⟨s.tail⟩)
  | expr => (expr, none)

theorem size_extract_field_annot (node : Script_node) :
    (extract_field_annot node).1.size = node.size := by
  cases node <;> rfl

/-! What `parse_type_annot` accepts, and what it reads back. -/

/-- The names of types: they start with a letter or an underscore, contain no
other characters than those of annotations, and are short. -/
structure Valid_name (name : MBytes) : Prop where
  short : name.length < max_annot_length
  chars : ∃ c rest, name = c :: rest ∧ is_first_char c = true ∧
    ∀ loc, string_iter (check_char loc) rest = .ok ()

def Valid_type_annot (annot : Option Type_annot) : Prop := ∀ a, annot = some a → Valid_name a.name

/-- Every type annotation of a list is a wildcard or valid. -/
def Valid_annots (annots : List Annot) : Prop :=
  ∀ name, .Type_annot (some name) ∈ annots → Valid_name name

variable {loc : ℤ}

theorem check_char_eq_ok {c : UInt8} {u : Unit} (h : check_char loc c = .ok u) (loc' : ℤ) :
    check_char loc' c = .ok () := by
  unfold check_char at h ⊢
  split
  · rfl
  · next hne =>
    rw [if_neg hne] at h
    cases h

theorem string_iter_check_char {s : MBytes} {u : Unit} (h : string_iter (check_char loc) s = .ok u)
    (loc' : ℤ) : string_iter (check_char loc') s = .ok () := by
  induction s with
  | nil => rfl
  | cons c rest ih =>
    simp only [string_iter, bind_eq_ok_iff] at h ⊢
    obtain ⟨_, hc, hrest⟩ := h
    exact ⟨(), check_char_eq_ok hc loc', ih hrest⟩

/-- Without special names, what is read is a wildcard or a valid name. -/
theorem sub_or_wildcard_success {specials : List UInt8} {wrap : Option MBytes → Annot}
    {name : MBytes} {acc acc' : List Annot}
    (h : sub_or_wildcard loc specials wrap name acc = .ok acc') :
    ∃ a, acc' = wrap a :: acc ∧ (specials = [] → ∀ n, a = some n → Valid_name n) := by
  unfold sub_or_wildcard at h
  by_cases hlong : max_annot_length < name.length + 1
  · rw [if_pos hlong] at h
    exact absurd h fail_ne_ok
  · rw [if_neg hlong] at h
    cases name with
    | nil =>
      cases h
      exact ⟨none, rfl, fun _ n hn => nomatch hn⟩
    | cons c rest =>
      by_cases hfirst : is_first_char c = true
      · simp only [hfirst, if_true, bind_eq_ok_iff] at h
        obtain ⟨_, hrest, h⟩ := h
        cases h
        refine ⟨some (c :: rest), rfl, ?_⟩
        intro _ n hn
        cases hn
        exact ⟨by omega, c, rest, rfl, hfirst, string_iter_check_char hrest⟩
      · simp only [hfirst, Bool.false_eq_true, if_false] at h
        by_cases hspecials : specials = []
        · simp only [hspecials, not_mem_nil, and_false, if_false] at h
          exact absurd h fail_ne_ok
        · split at h
          · cases h
            exact ⟨_, rfl, fun hnil => absurd hnil hspecials⟩
          · split at h
            · split at h
              · cases h
                exact ⟨_, rfl, fun hnil => absurd hnil hspecials⟩
              · split at h
                · cases h
                  exact ⟨_, rfl, fun hnil => absurd hnil hspecials⟩
                · exact absurd h fail_ne_ok
            · exact absurd h fail_ne_ok

/-- A valid name is read as it stands. -/
theorem sub_or_wildcard_valid {specials : List UInt8} {wrap : Option MBytes → Annot} {name : MBytes}
    {acc : List Annot} (h : Valid_name name) :
    sub_or_wildcard loc specials wrap name acc = .ok (wrap (some name) :: acc) := by
  obtain ⟨_, c, _, rfl, hfirst, hrest⟩ := h
  unfold sub_or_wildcard
  rw [if_neg (by omega)]
  simp only [hfirst, if_true, hrest loc, bind_ok]

theorem parse_annot_preserves {sv sf : Bool} {acc acc' : List Annot} {s : MBytes}
    (h : parse_annot loc sv sf acc s = .ok acc') (hacc : Valid_annots acc) : Valid_annots acc' := by
  cases s with
  | nil => exact absurd h fail_ne_ok
  | cons mark name =>
    simp only [parse_annot] at h
    by_cases htype : mark = ':'.toUInt8
    · rw [if_pos htype] at h
      obtain ⟨a, rfl, ha⟩ := sub_or_wildcard_success h
      intro n hn
      rcases mem_cons.mp hn with heq | hmem
      · exact ha rfl n (Annot.Type_annot.inj heq).symm
      · exact hacc n hmem
    · rw [if_neg htype] at h
      split at h
      · obtain ⟨a, rfl, _⟩ := sub_or_wildcard_success h
        intro n hn
        exact hacc n (mem_of_ne_of_mem (by simp) hn)
      · split at h
        · obtain ⟨a, rfl, _⟩ := sub_or_wildcard_success h
          intro n hn
          exact hacc n (mem_of_ne_of_mem (by simp) hn)
        · exact absurd h fail_ne_ok

theorem parse_annots_valid {sv sf : Bool} {l : List MBytes} {annots : List Annot}
    (h : parse_annots loc sv sf l = .ok annots) : Valid_annots annots := by
  rw [parse_annots] at h
  obtain ⟨acc, hfold, h⟩ := bind_inv h
  cases h
  have hacc : Valid_annots acc :=
    Result.foldlM_preserves (fun _ _ _ => parse_annot_preserves) hfold (fun n hn => nomatch hn)
  intro n hn
  exact hacc n (mem_reverse.mp hn)

/-- The type annotations of a group are valid. -/
def Valid_groups (groups : Groups) : Prop := ∀ t ∈ groups.rt, Valid_type_annot t

theorem classify_preserves {groups groups' : Groups} {a : Annot}
    (ha : ∀ name, a = .Type_annot (some name) → Valid_name name)
    (h : classify loc groups a = .ok groups') (hgroups : Valid_groups groups) :
    Valid_groups groups' := by
  cases a with
  | Var_annot a =>
    simp only [classify] at h
    split at h
    · cases h
      exact hgroups
    · exact absurd h fail_ne_ok
  | Field_annot a =>
    simp only [classify] at h
    split at h
    · cases h
      exact hgroups
    · exact absurd h fail_ne_ok
  | Type_annot a =>
    simp only [classify] at h
    split at h
    · cases h
      intro t ht
      rcases mem_cons.mp ht with rfl | hmem
      · intro b hb
        obtain ⟨name, rfl, rfl⟩ := Option.map_eq_some_iff.mp hb
        exact ha name rfl
      · exact hgroups t hmem
    · exact absurd h fail_ne_ok

theorem classify_foldlM_preserves {l : List Annot} {groups groups' : Groups} (hl : Valid_annots l)
    (h : l.foldlM (classify loc) groups = .ok groups') (hgroups : Valid_groups groups) :
    Valid_groups groups' := by
  induction l generalizing groups with
  | nil =>
    cases h
    exact hgroups
  | cons a l ih =>
    rw [foldlM_cons] at h
    obtain ⟨_, hstep, h⟩ := bind_inv h
    refine ih (fun n hn => hl n (mem_cons_of_mem a hn)) h (classify_preserves ?_ hstep hgroups)
    rintro name rfl
    exact hl name mem_cons_self

theorem classify_annot_valid {l : List Annot} {vars : List (Option Var_annot)}
    {types : List (Option Type_annot)} {fields : List (Option Field_annot)} (hl : Valid_annots l)
    (h : classify_annot loc l = .ok (vars, types, fields)) : ∀ t ∈ types, Valid_type_annot t := by
  rw [classify_annot] at h
  obtain ⟨groups, hfold, h⟩ := bind_inv h
  cases h
  have hgroups : Valid_groups groups := classify_foldlM_preserves hl hfold (fun t ht => nomatch ht)
  intro t ht
  exact hgroups t (mem_reverse.mp ht)

variable {t : Option Type_annot}

theorem get_one_annot_valid {types : List (Option Type_annot)}
    (htypes : ∀ t ∈ types, Valid_type_annot t) (h : get_one_annot loc types = .ok t) :
    Valid_type_annot t := by
  match types, h with
  | [], h =>
    cases h
    intro a ha
    cases ha
  | [a], h =>
    cases h
    exact htypes t mem_cons_self
  | _ :: _ :: _, h => exact absurd h fail_ne_ok

theorem parse_type_annot_valid {annot : List MBytes} (h : parse_type_annot loc annot = .ok t) :
    Valid_type_annot t := by
  rw [parse_type_annot] at h
  obtain ⟨_, hannots, h⟩ := bind_inv h
  obtain ⟨⟨_, _, _⟩, hclassify, h⟩ := bind_inv h
  simp only [bind_eq_ok_iff] at h
  obtain ⟨_, _, _, _, h⟩ := h
  exact get_one_annot_valid (classify_annot_valid (parse_annots_valid hannots) hclassify) h

theorem parse_composed_type_annot_valid {annot : List MBytes} {f1 f2 : Option Field_annot}
    (h : parse_composed_type_annot loc annot = .ok (t, f1, f2)) : Valid_type_annot t := by
  rw [parse_composed_type_annot] at h
  obtain ⟨_, hannots, h⟩ := bind_inv h
  obtain ⟨⟨_, _, _⟩, hclassify, h⟩ := bind_inv h
  simp only [bind_eq_ok_iff] at h
  obtain ⟨_, _, t', ht, _, _, h⟩ := h
  cases h
  exact get_one_annot_valid (classify_annot_valid (parse_annots_valid hannots) hclassify) ht

/-- What is printed for a valid type annotation is read as one annotation of a
type. -/
theorem parse_annots_unparse_type_annot {a : Type_annot} (h : Valid_name a.name) :
    parse_annots loc false false (unparse_type_annot (some a)) = .ok [.Type_annot (some a.name)] := by
  simp only [parse_annots, unparse_type_annot, foldlM_cons, foldlM_nil, parse_annot,
    if_true, sub_or_wildcard_valid h, bind_ok, pure_eq, reverse_singleton]

theorem parse_type_annot_unparse (h : Valid_type_annot t) :
    parse_type_annot loc (unparse_type_annot t) = .ok t := by
  cases t with
  | none => rfl
  | some a =>
    rw [parse_type_annot, parse_annots_unparse_type_annot (h a rfl)]
    rfl

theorem parse_composed_type_annot_unparse (h : Valid_type_annot t) :
    parse_composed_type_annot loc (unparse_type_annot t) = .ok (t, none, none) := by
  cases t with
  | none => rfl
  | some a =>
    rw [parse_composed_type_annot, parse_annots_unparse_type_annot (h a rfl)]
    rfl

/-! Taking off the field annotation that was put on. -/

theorem extract_field_annot_append (loc : ℤ) (prim : Prim) (args : List Script_node)
    (t : Option Type_annot) (f : Option Field_annot) :
    extract_field_annot (.Prim loc prim args (unparse_type_annot t ++ unparse_field_annot f)) =
      (.Prim loc prim args (unparse_type_annot t), f) := by
  cases t <;> cases f <;> rfl

end script_ir_annot

end plexus
