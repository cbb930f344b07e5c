import Plexus.Michelson.Types

/-! Every type that the parser returns is printed and read back as it is. -/

namespace plexus

open typecheck_costs

open Result (bind_eq_ok_iff bind_ok)
open script_ir_annot

theorem Priced.typed {α : Type} {a : α} {nb_args : ℤ} (h : 0 ≤ nb_args) :
    Priced (fun c => gas.consume c (type_ nb_args) >>= fun c => Pure.pure (a, c)) a :=
  .consume (type_nonneg h) (.pure _)

namespace script_ir_translator

/-! Comparable types. -/

/-- The comparable types that the parser returns. -/
def Readable_key {d : Depth} : Comparable_struct d → Prop
  | .Int_key tname => Valid_type_annot tname
  | .Nat_key tname => Valid_type_annot tname
  | .String_key tname => Valid_type_annot tname
  | .Bytes_key tname => Valid_type_annot tname
  | .Mutez_key tname => Valid_type_annot tname
  | .Mumine_key _ => False
  | .Bool_key tname => Valid_type_annot tname
  | .Key_hash_key tname => Valid_type_annot tname
  | .Timestamp_key tname => Valid_type_annot tname
  | .Address_key tname => Valid_type_annot tname
  | .Pair_key left _ right _ tname =>
    Readable_key left ∧ Readable_key right ∧ Valid_type_annot tname

variable {tname : Option Type_annot} {prim : Prim} {key : Option Type_annot → Comparable_ty}

theorem comparable_leaf_readable
    (h : comparable_leaf prim = some key) (ht : Valid_type_annot tname) :
    Readable_key (key tname) := by
  unfold comparable_leaf at h
  split at h <;> first | (cases h; exact ht) | cases h

theorem as_leaf_readable {key : Comparable_ty} {left : Comparable_struct .leaf}
    (h : as_leaf key = some left) (hkey : Readable_key key) : Readable_key left := by
  cases key <;> cases h <;> exact hkey

variable {c c' : Context} {node : Script_node}

/-- What is parsed as a comparable type can be printed and read. -/
theorem parse_comparable_ty_readable {key : Comparable_ty}
    (h : parse_comparable_ty c node = .ok (key, c')) : Readable_key key := by
  induction hn : node.size using Nat.strong_induction_on generalizing c c' node key with
  | _ n ih =>
    subst hn
    rw [parse_comparable_ty, bind_eq_ok_iff] at h
    obtain ⟨c1, _, h⟩ := h
    rw [bind_eq_ok_iff] at h
    obtain ⟨c2, _, h⟩ := h
    split at h
    · next loc left right annot =>
      rw [bind_eq_ok_iff] at h
      obtain ⟨_, hpname, h⟩ := h
      dsimp only at h
      rw [bind_eq_ok_iff] at h
      obtain ⟨⟨_, c3⟩, hright, h⟩ := h
      rw [bind_eq_ok_iff] at h
      obtain ⟨⟨_, c4⟩, hleft, h⟩ := h
      split at h
      · exact absurd h fail_ne_ok
      · next left' hleaf =>
        cases h
        refine ⟨as_leaf_readable hleaf ?_, ?_, parse_type_annot_valid hpname⟩
        · exact ih _ (size_left_lt loc .T_pair left right annot) hleft rfl
        · exact ih _ (size_right_lt loc .T_pair left right annot) hright rfl
    · exact absurd h fail_ne_ok
    · split at h
      · next key' hkey _ =>
        rw [bind_eq_ok_iff] at h
        obtain ⟨_, htname, h⟩ := h
        cases h
        exact comparable_leaf_readable hkey (parse_type_annot_valid htname)
      · split at h
        · exact absurd h fail_ne_ok
        · split at h <;> exact absurd h fail_ne_ok
    · exact absurd h fail_ne_ok

/-- A comparable type at the top of a key. -/
def to_comb {d : Depth} : Comparable_struct d → Comparable_ty
  | .Int_key tname => .Int_key tname
  | .Nat_key tname => .Nat_key tname
  | .String_key tname => .String_key tname
  | .Bytes_key tname => .Bytes_key tname
  | .Mutez_key tname => .Mutez_key tname
  | .Mumine_key tname => .Mumine_key tname
  | .Bool_key tname => .Bool_key tname
  | .Key_hash_key tname => .Key_hash_key tname
  | .Timestamp_key tname => .Timestamp_key tname
  | .Address_key tname => .Address_key tname
  | .Pair_key left left_annot right right_annot tname =>
    .Pair_key left left_annot right right_annot tname

@[simp] theorem to_comb_comb (key : Comparable_ty) : to_comb key = key := by
  cases key <;> rfl

@[simp] theorem as_leaf_to_comb (left : Comparable_struct .leaf) :
    as_leaf (to_comb left) = some left := by
  cases left <;> rfl

variable {d : Depth}

/-- A printed comparable type carries no annotation besides its name. -/
theorem unparse_comparable_ty_shape (key : Comparable_struct d) :
    ∃ prim args tname, unparse_comparable_ty key = .Prim (-1) prim args (unparse_type_annot tname) := by
  cases key <;> exact ⟨_, _, _, rfl⟩

/-- The field annotation put on a printed type is taken off again. -/
theorem extract_add_field_annot
    (h : ∃ prim args tname, node = .Prim (-1) prim args (unparse_type_annot tname))
    (f : Option Field_annot) : extract_field_annot (add_field_annot f none node) = (node, f) := by
  obtain ⟨prim, args, tname, rfl⟩ := h
  simp only [add_field_annot, unparse_var_annot, List.append_nil, extract_field_annot_append]

theorem parse_comparable_leaf
    (hkey : comparable_leaf prim = some key) (ht : Valid_type_annot tname) :
    Priced (fun c => parse_comparable_ty c (.Prim (-1) prim [] (unparse_type_annot tname)))
      (key tname) := by
  have heq c : parse_comparable_ty c (.Prim (-1) prim [] (unparse_type_annot tname)) =
      (gas.consume c cycle >>= fun c => gas.consume c (type_ 0) >>= fun c => pure
      (key tname, c)) := by
    rw [parse_comparable_ty]
    cases prim <;> cases hkey <;> simp only [comparable_leaf, parse_type_annot_unparse ht, bind_ok]
  exact .congr heq (.consume cycle_nonneg (.typed (le_refl 0)))

/-- A printed comparable type is read back as a comb. -/
theorem parse_unparse_comparable {key : Comparable_struct d} (h : Readable_key key) :
    Priced (fun c => parse_comparable_ty c (unparse_comparable_ty key)) (to_comb key) := by
  induction key with
  | Mumine_key _ => exact h.elim
  | Pair_key left left_annot right right_annot tname ihleft ihright =>
    obtain ⟨hleft, hright, ht⟩ := h
    simp only [unparse_comparable_ty]
    refine .congr (fun c => by rw [parse_comparable_ty]) (.consume cycle_nonneg
      (.consume (type_nonneg (le_refl 0)) ?_))
    simp only [parse_type_annot_unparse ht, bind_ok,
      extract_add_field_annot (unparse_comparable_ty_shape left),
      extract_add_field_annot (unparse_comparable_ty_shape right)]
    refine .bind (ihright hright) ?_
    dsimp only
    refine .bind (ihleft hleft) ?_
    simp only [to_comb_comb, as_leaf_to_comb]
    exact .pure _
  | _ => exact parse_comparable_leaf rfl h

/-! Types. -/

/-- The types that the parser returns with these flags. -/
def Readable (legacy : Bool) : Bool → Bool → Bool → Ty → Prop
  | _, _, _, .Unit_t tname => Valid_type_annot tname
  | _, _, _, .Int_t tname => Valid_type_annot tname
  | _, _, _, .Nat_t tname => Valid_type_annot tname
  | _, _, _, .Signature_t tname => Valid_type_annot tname
  | _, _, _, .String_t tname => Valid_type_annot tname
  | _, _, _, .Bytes_t tname => Valid_type_annot tname
  | _, _, _, .Mutez_t tname => Valid_type_annot tname
  | _, _, _, .Mumine_t _ => False
  | _, _, _, .Key_hash_t tname => Valid_type_annot tname
  | _, _, _, .Key_t tname => Valid_type_annot tname
  | _, _, _, .Timestamp_t tname => Valid_type_annot tname
  | _, _, _, .Address_t tname => Valid_type_annot tname
  | _, _, _, .Bool_t tname => Valid_type_annot tname
  | _, _, _, .Chain_id_t tname => Valid_type_annot tname
  | _, allow_operation, _, .Operation_t tname => allow_operation = true ∧ Valid_type_annot tname
  | allow_big_map, allow_operation, allow_contract,
      .Pair_t left _ left_var right _ right_var tname big =>
    Readable legacy allow_big_map allow_operation allow_contract left ∧
      Readable legacy allow_big_map allow_operation allow_contract right ∧
      left_var = none ∧ right_var = none ∧ Valid_type_annot tname ∧
      big = (has_big_map left || has_big_map right)
  | allow_big_map, allow_operation, allow_contract, .Union_t left _ right _ tname big =>
    Readable legacy allow_big_map allow_operation allow_contract left ∧
      Readable legacy allow_big_map allow_operation allow_contract right ∧
      Valid_type_annot tname ∧ big = (has_big_map left || has_big_map right)
  | _, _, _, .Lambda_t arg ret tname =>
    Readable legacy true true true arg ∧ Readable legacy true true true ret ∧
      Valid_type_annot tname
  | allow_big_map, allow_operation, allow_contract, .Option_t ty tname big =>
    Readable legacy allow_big_map allow_operation allow_contract ty ∧ Valid_type_annot tname ∧
      big = has_big_map ty
  | allow_big_map, allow_operation, allow_contract, .List_t ty tname big =>
    Readable legacy allow_big_map allow_operation allow_contract ty ∧ Valid_type_annot tname ∧
      big = has_big_map ty
  | _, _, _, .Set_t elt tname => Readable_key elt ∧ Valid_type_annot tname
  | allow_big_map, allow_operation, allow_contract, .Map_t key value tname big =>
    Readable_key key ∧ Readable legacy allow_big_map allow_operation allow_contract value ∧
      Valid_type_annot tname ∧ big = has_big_map value
  | allow_big_map, _, _, .Big_map_t key value tname =>
    allow_big_map = true ∧ Readable_key key ∧ Readable legacy false false legacy value ∧
      Valid_type_annot tname
  | _, _, allow_contract, .Contract_t arg tname =>
    allow_contract = true ∧ Readable legacy true false true arg ∧ Valid_type_annot tname

theorem leaf_ty_readable {ty : Option Type_annot → Ty} (h : leaf_ty prim = some ty)
    (ht : Valid_type_annot tname) (legacy allow_big_map allow_operation allow_contract : Bool) :
    Readable legacy allow_big_map allow_operation allow_contract (ty tname) := by
  unfold leaf_ty at h
  split at h <;> first | (cases h; exact ht) | cases h

theorem size_arg_lt {loc : ℤ} {prim : Prim} {arg : Script_node} {args : List Script_node}
    {annot : List MBytes} (h : arg ∈ args) :
    arg.size < (Micheline.Node.Prim loc prim args annot).size := by
  induction args with
  | nil => cases h
  | cons first args ih =>
    simp only [Micheline.Node.size, Micheline.Node.sizes] at ih ⊢
    rcases List.mem_cons.mp h with rfl | htail
    · omega
    · have := ih htail
      omega

variable {legacy : Bool} {ty : Ty}

/-- Types as the parser returns them are readable, given that the types of
smaller expressions are. -/
theorem parse_big_map_ty_readable {loc : ℤ} {args : List Script_node} {annot : List MBytes}
    (hvalue : ∀ key_ty value_ty, args = [key_ty, value_ty] → ∀ {c c' : Context} {ty : Ty},
      parse_ty c legacy false false legacy value_ty = .ok (ty, c') →
      Readable legacy false false legacy ty)
    (h : parse_big_map_ty c legacy loc args annot = .ok (ty, c'))
    (allow_operation allow_contract : Bool) :
    Readable legacy true allow_operation allow_contract ty := by
  rw [parse_big_map_ty, bind_eq_ok_iff] at h
  obtain ⟨c1, _, h⟩ := h
  split at h
  · next key_ty value_ty =>
    rw [bind_eq_ok_iff] at h
    obtain ⟨⟨key, c2⟩, hkey, h⟩ := h
    rw [bind_eq_ok_iff] at h
    obtain ⟨⟨_, c3⟩, hparse, h⟩ := h
    rw [bind_eq_ok_iff] at h
    obtain ⟨_, hname, h⟩ := h
    cases h
    rw [parse_packable_ty] at hparse
    exact ⟨rfl, parse_comparable_ty_readable hkey, hvalue _ _ rfl hparse,
      parse_type_annot_valid hname⟩
  · exact absurd h fail_ne_ok

variable {allow_big_map allow_operation allow_contract : Bool}

/-- What is parsed as a type can be printed and read. -/
theorem parse_ty_readable
    (h : parse_ty c legacy allow_big_map allow_operation allow_contract node = .ok (ty, c')) :
    Readable legacy allow_big_map allow_operation allow_contract ty := by
  induction hn : node.size using Nat.strong_induction_on generalizing c c' node ty allow_big_map
    allow_operation allow_contract with
  | _ n ih =>
    subst hn
    rw [parse_ty, bind_eq_ok_iff] at h
    obtain ⟨c1, _, h⟩ := h
    split at h
    · next loc prim args annot =>
      split at h
      · -- operation
        split at h
        · next hallowed =>
          simp only [bind_eq_ok_iff] at h
          obtain ⟨tname, htname, c2, _, h⟩ := h
          cases h
          exact ⟨hallowed, parse_type_annot_valid htname⟩
        · exact absurd h fail_ne_ok
      · -- contract
        next utl =>
        split at h
        · next hallowed =>
          simp only [bind_eq_ok_iff] at h
          obtain ⟨⟨arg, c2⟩, harg, tname, htname, c3, _, h⟩ := h
          cases h
          rw [parse_parameter_ty] at harg
          exact ⟨hallowed, ih _ (size_arg_lt (by simp)) harg rfl, parse_type_annot_valid htname⟩
        · exact absurd h fail_ne_ok
      · -- pair
        next utl utr =>
        simp only [bind_eq_ok_iff] at h
        obtain ⟨⟨left, c2⟩, hleft, ⟨right, c3⟩, hright, tname, htname, c4, _, h⟩ := h
        cases h
        exact ⟨ih _ (size_left_lt loc _ utl utr annot) hleft rfl,
          ih _ (size_right_lt loc _ utl utr annot) hright rfl, rfl, rfl,
          parse_type_annot_valid htname, rfl⟩
      · -- union
        next utl utr =>
        simp only [bind_eq_ok_iff] at h
        obtain ⟨⟨left, c2⟩, hleft, ⟨right, c3⟩, hright, tname, htname, c4, _, h⟩ := h
        cases h
        exact ⟨ih _ (size_left_lt loc _ utl utr annot) hleft rfl,
          ih _ (size_right_lt loc _ utl utr annot) hright rfl, parse_type_annot_valid htname, rfl⟩
      · -- lambda
        next uta utr =>
        simp only [bind_eq_ok_iff] at h
        obtain ⟨⟨arg, c2⟩, harg, ⟨ret, c3⟩, hret, tname, htname, c4, _, h⟩ := h
        cases h
        rw [parse_any_ty] at harg hret
        exact ⟨ih _ (size_arg_lt (by simp)) harg rfl,
          ih _ (size_arg_lt (by simp)) hret rfl, parse_type_annot_valid htname⟩
      · -- option
        next ut =>
        split at h
        · simp only [bind_eq_ok_iff] at h
          obtain ⟨⟨tname, _, _⟩, htname, ⟨t, c2⟩, ht, c3, _, h⟩ := h
          cases h
          refine ⟨ih _ ?_ ht rfl, parse_composed_type_annot_valid htname, rfl⟩
          rw [size_extract_field_annot]
          exact size_arg_lt (by simp)
        · simp only [bind_eq_ok_iff] at h
          obtain ⟨tname, htname, ⟨t, c2⟩, ht, c3, _, h⟩ := h
          cases h
          exact ⟨ih _ (size_arg_lt (by simp)) ht rfl, parse_type_annot_valid htname, rfl⟩
      · -- list
        next ut =>
        simp only [bind_eq_ok_iff] at h
        obtain ⟨⟨t, c2⟩, ht, tname, htname, c3, _, h⟩ := h
        cases h
        exact ⟨ih _ (size_arg_lt (by simp)) ht rfl, parse_type_annot_valid htname, rfl⟩
      · -- set
        next ut =>
        simp only [bind_eq_ok_iff] at h
        obtain ⟨⟨t, c2⟩, ht, tname, htname, c3, _, h⟩ := h
        cases h
        exact ⟨parse_comparable_ty_readable ht, parse_type_annot_valid htname⟩
      · -- map
        next uta utr =>
        simp only [bind_eq_ok_iff] at h
        obtain ⟨⟨key, c2⟩, hkey, ⟨_, c3⟩, hvalue, tname, htname, c4, _, h⟩ := h
        cases h
        exact ⟨parse_comparable_ty_readable hkey, ih _ (size_arg_lt (by simp)) hvalue rfl,
          parse_type_annot_valid htname, rfl⟩
      · -- big map
        split at h
        · next hallowed =>
          simp only [bind_eq_ok_iff] at h
          obtain ⟨⟨_, c2⟩, hbig, c3, _, h⟩ := h
          cases h
          rw [hallowed]
          refine parse_big_map_ty_readable ?_ hbig allow_operation allow_contract
          rintro _ _ rfl c c' ty hty
          exact ih _ (size_arg_lt (by simp)) hty rfl
        · exact absurd h fail_ne_ok
      · -- types without arguments
        split at h
        · next ty' hleaf _ _ _ _ _ _ _ _ _ =>
          simp only [bind_eq_ok_iff] at h
          obtain ⟨tname, htname, c2, _, h⟩ := h
          cases h
          exact leaf_ty_readable hleaf (parse_type_annot_valid htname) _ _ _ _
        · split at h
          · exact absurd h fail_ne_ok
          · split at h
            · exact absurd h fail_ne_ok
            · split at h <;> exact absurd h fail_ne_ok
    · exact absurd h fail_ne_ok

/-! Printing. -/

/-- The expression that `unparse_ty` makes of a type. -/
def printed : Ty → Script_node
  | .Unit_t tname => .Prim (-1) .T_unit [] (unparse_type_annot tname)
  | .Int_t tname => .Prim (-1) .T_int [] (unparse_type_annot tname)
  | .Nat_t tname => .Prim (-1) .T_nat [] (unparse_type_annot tname)
  | .String_t tname => .Prim (-1) .T_string [] (unparse_type_annot tname)
  | .Bytes_t tname => .Prim (-1) .T_bytes [] (unparse_type_annot tname)
  | .Mutez_t tname => .Prim (-1) .T_mutez [] (unparse_type_annot tname)
  | .Mumine_t tname => .Prim (-1) .T_mutez [] (unparse_type_annot tname)
  | .Bool_t tname => .Prim (-1) .T_bool [] (unparse_type_annot tname)
  | .Key_hash_t tname => .Prim (-1) .T_key_hash [] (unparse_type_annot tname)
  | .Key_t tname => .Prim (-1) .T_key [] (unparse_type_annot tname)
  | .Timestamp_t tname => .Prim (-1) .T_timestamp [] (unparse_type_annot tname)
  | .Address_t tname => .Prim (-1) .T_address [] (unparse_type_annot tname)
  | .Signature_t tname => .Prim (-1) .T_signature [] (unparse_type_annot tname)
  | .Operation_t tname => .Prim (-1) .T_operation [] (unparse_type_annot tname)
  | .Chain_id_t tname => .Prim (-1) .T_chain_id [] (unparse_type_annot tname)
  | .Contract_t arg tname => .Prim (-1) .T_contract [printed arg] (unparse_type_annot tname)
  | .Pair_t left left_field left_var right right_field right_var tname _ =>
    .Prim (-1) .T_pair [add_field_annot left_field left_var (printed left),
      add_field_annot right_field right_var (printed right)] (unparse_type_annot tname)
  | .Union_t left left_constr right right_constr tname _ =>
    .Prim (-1) .T_or [add_field_annot left_constr none (printed left),
      add_field_annot right_constr none (printed right)] (unparse_type_annot tname)
  | .Lambda_t arg ret tname =>
    .Prim (-1) .T_lambda [printed arg, printed ret] (unparse_type_annot tname)
  | .Option_t ty tname _ => .Prim (-1) .T_option [printed ty] (unparse_type_annot tname)
  | .List_t elt tname _ => .Prim (-1) .T_list [printed elt] (unparse_type_annot tname)
  | .Set_t elt tname => .Prim (-1) .T_set [unparse_comparable_ty elt] (unparse_type_annot tname)
  | .Map_t key value tname _ =>
    .Prim (-1) .T_map [unparse_comparable_ty key, printed value] (unparse_type_annot tname)
  | .Big_map_t key value tname =>
    .Prim (-1) .T_big_map [unparse_comparable_ty key, printed value] (unparse_type_annot tname)

/-- A printed type carries no annotation besides its name. -/
theorem printed_shape (ty : Ty) :
    ∃ prim args tname, printed ty = .Prim (-1) prim args (unparse_type_annot tname) := by
  cases ty <;> exact ⟨_, _, _, rfl⟩

theorem unparse_return_priced (name : Prim) (args : List Script_node) (annot : List MBytes) :
    Priced (fun c => unparse_return c name args annot) (.Prim (-1) name args annot) :=
  .consume (script_repr.prim_node_cost_nonneg args.length annot) (.pure _)

/-- Printing a type takes gas, and changes nothing else. -/
theorem unparse_ty_priced (ty : Ty) : Priced (fun c => unparse_ty c ty) (printed ty) := by
  induction ty
  all_goals refine .congr (fun c => by rw [unparse_ty]) (.consume unparse_costs.cycle_nonneg ?_)
  case Contract_t ih => exact .bind ih (unparse_return_priced _ _ _)
  case Pair_t ihleft ihright => exact .bind ihleft (.bind ihright (unparse_return_priced _ _ _))
  case Union_t ihleft ihright => exact .bind ihleft (.bind ihright (unparse_return_priced _ _ _))
  case Lambda_t iharg ihret => exact .bind iharg (.bind ihret (unparse_return_priced _ _ _))
  case Option_t ih => exact .bind ih (unparse_return_priced _ _ _)
  case List_t ih => exact .bind ih (unparse_return_priced _ _ _)
  case Map_t ih => exact .bind ih (unparse_return_priced _ _ _)
  case Big_map_t ih => exact .bind ih (unparse_return_priced _ _ _)
  all_goals exact unparse_return_priced _ _ _

/-! Reading what was printed. -/

theorem parse_leaf_ty {ty : Option Type_annot → Ty} (hty : leaf_ty prim = some ty)
    (ht : Valid_type_annot tname) (legacy allow_big_map allow_operation allow_contract : Bool) :
    Priced (fun c => parse_ty c legacy allow_big_map allow_operation allow_contract
      (.Prim (-1) prim [] (unparse_type_annot tname))) (ty tname) := by
  have heq c : parse_ty c legacy allow_big_map allow_operation allow_contract
      (.Prim (-1) prim [] (unparse_type_annot tname)) =
      (gas.consume c cycle >>= fun c => gas.consume c (type_ 0) >>= fun c => pure
      (ty tname, c)) := by
    rw [parse_ty]
    cases prim <;> cases hty <;> simp only [leaf_ty, parse_type_annot_unparse ht, bind_ok]
  exact .congr heq (.consume cycle_nonneg (.typed (le_refl 0)))

/-- The case of options. -/
theorem parse_unparse_option (ht : Valid_type_annot tname)
    (h : Priced (fun c => parse_ty c legacy allow_big_map allow_operation allow_contract
      (printed ty)) ty) :
    Priced (fun c => parse_ty c legacy allow_big_map allow_operation allow_contract
      (printed (.Option_t ty tname (has_big_map ty)))) (.Option_t ty tname (has_big_map ty)) := by
  refine .congr (fun c => by rw [printed, parse_ty]) (.consume cycle_nonneg ?_)
  obtain ⟨_, _, tname', hshape⟩ := printed_shape ty
  have hextract : extract_field_annot (printed ty) = (printed ty, none) := by
    rw [hshape]
    cases tname' <;> rfl
  simp only [parse_composed_type_annot_unparse ht, parse_type_annot_unparse ht, hextract,
    bind_ok, ite_self]
  refine .bind h ?_
  dsimp only
  exact .typed (by decide)

/-- A printed type is read back, by induction on it. -/
theorem parse_unparse_priced (h : Readable legacy allow_big_map allow_operation allow_contract ty) :
    Priced (fun c => parse_ty c legacy allow_big_map allow_operation allow_contract (printed ty))
      ty := by
  induction ty generalizing allow_big_map allow_operation allow_contract
  case Mumine_t => exact h.elim
  case Option_t ih =>
    obtain ⟨hty, ht, rfl⟩ := h
    exact parse_unparse_option ht (ih hty)
  case Unit_t | Int_t | Nat_t | Signature_t | String_t | Bytes_t | Mutez_t | Key_hash_t | Key_t |
      Timestamp_t | Address_t | Bool_t | Chain_id_t => exact parse_leaf_ty rfl h _ _ _ _
  all_goals refine .congr (fun c => by rw [printed, parse_ty]) (.consume cycle_nonneg ?_)
  case Operation_t =>
    obtain ⟨hallowed, ht⟩ := h
    simp only [hallowed, if_true, parse_type_annot_unparse ht, bind_ok]
    exact .typed (by decide)
  case Contract_t ih =>
    obtain ⟨hallowed, harg, ht⟩ := h
    simp only [hallowed, if_true, parse_parameter_ty]
    refine .bind (ih harg) ?_
    simp only [parse_type_annot_unparse ht, bind_ok]
    exact .typed (by decide)
  case Pair_t left _ _ right _ _ _ _ ihleft ihright =>
    obtain ⟨hleft, hright, rfl, rfl, ht, rfl⟩ := h
    simp only [extract_add_field_annot (printed_shape left),
      extract_add_field_annot (printed_shape right)]
    refine .bind (ihleft hleft) ?_
    dsimp only
    refine .bind (ihright hright) ?_
    simp only [parse_type_annot_unparse ht, bind_ok]
    exact .typed (by decide)
  case Union_t left _ right _ _ _ ihleft ihright =>
    obtain ⟨hleft, hright, ht, rfl⟩ := h
    simp only [extract_add_field_annot (printed_shape left),
      extract_add_field_annot (printed_shape right)]
    refine .bind (ihleft hleft) ?_
    dsimp only
    refine .bind (ihright hright) ?_
    simp only [parse_type_annot_unparse ht, bind_ok]
    exact .typed (by decide)
  case Lambda_t iharg ihret =>
    obtain ⟨harg, hret, ht⟩ := h
    simp only [parse_any_ty]
    refine .bind (iharg harg) ?_
    dsimp only
    refine .bind (ihret hret) ?_
    simp only [parse_type_annot_unparse ht, bind_ok]
    exact .typed (by decide)
  case List_t ih =>
    obtain ⟨helt, ht, rfl⟩ := h
    refine .bind (ih helt) ?_
    simp only [parse_type_annot_unparse ht, bind_ok]
    exact .typed (by decide)
  case Set_t =>
    obtain ⟨helt, ht⟩ := h
    refine .bind (parse_unparse_comparable helt) ?_
    simp only [parse_type_annot_unparse ht, bind_ok, to_comb_comb]
    exact .typed (by decide)
  case Map_t ih =>
    obtain ⟨hkey, hvalue, ht, rfl⟩ := h
    refine .bind (parse_unparse_comparable hkey) ?_
    refine .bind (ih hvalue) ?_
    simp only [parse_type_annot_unparse ht, bind_ok, to_comb_comb]
    exact .typed (by decide)
  case Big_map_t key value tname ih =>
    obtain ⟨hallowed, hkey, hvalue, ht⟩ := h
    simp only [hallowed, if_true]
    have hbig : Priced (fun c => parse_big_map_ty c legacy (-1)
        [unparse_comparable_ty key, printed value] (unparse_type_annot tname))
        (.Big_map_t key value tname) := by
      refine .congr (fun c => by rw [parse_big_map_ty]) (.consume cycle_nonneg ?_)
      refine .bind (parse_unparse_comparable hkey) ?_
      simp only [parse_packable_ty]
      refine .bind (ih hvalue) ?_
      simp only [parse_type_annot_unparse ht, bind_ok, to_comb_comb]
      exact .pure _
    refine .bind hbig ?_
    exact .typed (by decide)

/-! Equality of types. -/

theorem comparable_ty_eq_self {key : Comparable_struct d} (h : Readable_key key) :
    Payable fun c => comparable_ty_eq c key key := by
  induction key with
  | Mumine_key _ => exact h.elim
  | Pair_key left left_annot right right_annot tname ihleft ihright =>
    refine .congr (fun c => by rw [comparable_ty_eq]) (.bind (.consume cycle_nonneg) ?_)
    exact .bind (ihleft h.1) (ihright h.2.1)
  | _ =>
    exact .congr (fun c => by rw [comparable_ty_eq]) (.bind (.consume cycle_nonneg) .pure)

theorem record_inconsistent_payable {f : Context → Tzresult Context} (h : Payable f) (ta tb : Ty) :
    Payable fun c => record_inconsistent c ta tb (f c) := by
  obtain ⟨n, hn, h⟩ := h
  refine ⟨n, hn, fun c hc => ?_⟩
  obtain ⟨c1, hok, hspends⟩ := h c hc
  refine ⟨c1, ?_, hspends⟩
  simp only [hok, record_inconsistent]

theorem ty_eq_ok_payable {nb_args : ℤ} (h : 0 ≤ nb_args) : Payable fun c => ty_eq_ok c nb_args :=
  .consume (type_nonneg (by omega))

/-- Comparing a type with itself succeeds, if it can be paid. -/
theorem ty_eq_self (h : Readable legacy allow_big_map allow_operation allow_contract ty) :
    Payable fun c => ty_eq c ty ty := by
  have hargs : ∀ {f : Context → Tzresult Context} {ta tb : Ty} {nb_args : ℤ}, 0 ≤ nb_args →
      Payable f → Payable fun c => record_inconsistent c ta tb
        (f c >>= fun c => ty_eq_ok c nb_args) :=
    fun hn hf => record_inconsistent_payable (.bind hf (ty_eq_ok_payable hn)) _ _
  induction ty generalizing allow_big_map allow_operation allow_contract
  case Mumine_t => exact h.elim
  all_goals refine .congr (fun c => by rw [ty_eq]) (.bind (.consume cycle_nonneg) ?_)
  case Contract_t ih => exact hargs (by decide) (ih h.2.1)
  case Option_t ih => exact hargs (by decide) (ih h.1)
  case List_t ih => exact hargs (by decide) (ih h.1)
  case Set_t => exact hargs (by decide) (comparable_ty_eq_self h.1)
  case Pair_t ihleft ihright =>
    exact record_inconsistent_payable
      (.bind (ihleft h.1) (.bind (ihright h.2.1) (ty_eq_ok_payable (by decide)))) _ _
  case Union_t ihleft ihright =>
    exact record_inconsistent_payable
      (.bind (ihleft h.1) (.bind (ihright h.2.1) (ty_eq_ok_payable (by decide)))) _ _
  case Lambda_t iharg ihret =>
    exact record_inconsistent_payable
      (.bind (iharg h.1) (.bind (ihret h.2.1) (ty_eq_ok_payable (by decide)))) _ _
  case Map_t ih =>
    exact record_inconsistent_payable (.bind (comparable_ty_eq_self h.1)
      (.bind (ih h.2.1) (ty_eq_ok_payable (by decide)))) _ _
  case Big_map_t ih =>
    exact record_inconsistent_payable (.bind (comparable_ty_eq_self h.2.1)
      (.bind (ih h.2.2.1) (ty_eq_ok_payable (by decide)))) _ _
  all_goals exact ty_eq_ok_payable (by decide)

/-! The round trip. -/

/-- A type that the parser returned is printed and read back as it is, with all
its annotations, when there is enough gas, and `ty_eq` accepts the two as
equal. In any case, what is printed for it is either read back as it is or
cannot be paid for. -/
theorem parse_unparse_ty {c c' : Context}
    {legacy allow_big_map allow_operation allow_contract : Bool} {node : Script_node} {ty : Ty}
    (h : parse_ty c legacy allow_big_map allow_operation allow_contract node = .ok (ty, c')) :
    (∃ n, ∀ c1, Affords n c1 → ∃ node' c2 c3 c4,
      unparse_ty c1 ty = .ok (node', c2) ∧
      parse_ty c2 legacy allow_big_map allow_operation allow_contract node' = .ok (ty, c3) ∧
      ty_eq c3 ty ty = .ok c4) ∧
    ∀ c1 node' c2 c3, unparse_ty c1 ty = .ok (node', c2) →
      (∃ c4, parse_ty c3 legacy allow_big_map allow_operation allow_contract node' = .ok (ty, c4)) ∨
        Exhausted (parse_ty c3 legacy allow_big_map allow_operation allow_contract node') := by
  have hreadable := parse_ty_readable h
  constructor
  · obtain ⟨n1, hn1, hunparse⟩ := (unparse_ty_priced ty).returns
    obtain ⟨n2, hn2, hparse⟩ := (parse_unparse_priced hreadable).returns
    obtain ⟨n3, hn3, heq⟩ := ty_eq_self hreadable
    refine ⟨n1 + (n2 + n3), fun c1 hc1 => ?_⟩
    obtain ⟨c2, hok2, hspends2⟩ := hunparse c1 (hc1.mono (by omega))
    have hc2 := hspends2.affords hc1
    obtain ⟨c3, hok3, hspends3⟩ := hparse c2 (hc2.mono (by omega))
    obtain ⟨c4, hok4, _⟩ := heq c3 (hspends3.affords hc2)
    exact ⟨printed ty, c2, c3, c4, hok2, hok3, hok4⟩
  · intro c1 node' c2 c3 hunparse
    rcases (unparse_ty_priced ty).returns_or_exhausted c1 with ⟨c2', hok⟩ | hexhausted
    · rw [hunparse] at hok
      cases hok
      exact (parse_unparse_priced hreadable).returns_or_exhausted c3
    · rw [hunparse] at hexhausted
      rcases hexhausted with hexhausted | hexhausted <;> cases hexhausted

/-- The context before the first block, which has no limit on gas. -/
def first_context : Context :=
  raw_context.prepare_first_block default_parameters.constants_mainnet 1 0 0

/-- The expression `pair :p (int %x) (big_map string (list mutez))`. -/
def annotated_pair : Script_node :=
  .Prim 0 .T_pair [.Prim 1 .T_int [] [['%'.toUInt8, 'x'.toUInt8]],
    .Prim 2 .T_big_map [.Prim 3 .T_string [] [], .Prim 4 .T_list [.Prim 5 .T_mutez [] []] []] []]
    [[':'.toUInt8, 'p'.toUInt8]]

theorem parse_unparse_ty_pair :
    ∃ ty c', parse_ty first_context false true false false annotated_pair = .ok (ty, c') ∧
      ∃ n, ∀ c1, Affords n c1 → ∃ node' c2 c3 c4,
        unparse_ty c1 ty = .ok (node', c2) ∧
        parse_ty c2 false true false false node' = .ok (ty, c3) ∧ ty_eq c3 ty ty = .ok c4 := by
  have hgas : ∀ cost, gas.consume first_context cost = .ok first_context :=
    gas.consume_unaccounted rfl
  have htype : parse_type_annot 0 [[':'.toUInt8, 'p'.toUInt8]] = .ok (some ⟨['p'.toUInt8]⟩) := rfl
  have hnone : ∀ loc, parse_type_annot loc [] = .ok none := fun _ => rfl
  have hparse : parse_ty first_context false true false false annotated_pair =
      .ok (.Pair_t (.Int_t none) (some ⟨['x'.toUInt8]⟩) none
        (.Big_map_t (.String_key none) (.List_t (.Mutez_t none) none false) none) none none
        (some ⟨['p'.toUInt8]⟩) true, first_context) := by
    simp [annotated_pair, parse_ty, parse_big_map_ty, parse_packable_ty, parse_comparable_ty,
      extract_field_annot, extract_first, comparable_leaf, leaf_ty, hgas, htype, hnone, has_big_map]
  exact ⟨_, _, hparse, (parse_unparse_ty hparse).1⟩

/-- No expression is read as the type `mumine`, and `mumine` is printed as
`mutez`, which is another type. -/
theorem parse_unparse_ty_mumine :
    (∀ (c c' : Context) (legacy allow_big_map allow_operation allow_contract : Bool)
      (node : Script_node),
      parse_ty c legacy allow_big_map allow_operation allow_contract node ≠
        .ok (.Mumine_t none, c')) ∧
    unparse_ty first_context (.Mumine_t none) = .ok (.Prim (-1) .T_mutez [] [], first_context) ∧
    parse_ty first_context false true true true (.Prim (-1) .T_mutez [] []) =
      .ok (.Mutez_t none, first_context) := by
  have hgas : ∀ cost, gas.consume first_context cost = .ok first_context :=
    gas.consume_unaccounted rfl
  refine ⟨fun c c' legacy allow_big_map allow_operation allow_contract node h => ?_, ?_, ?_⟩
  · exact (parse_ty_readable h : False)
  · simp [unparse_ty, unparse_return, unparse_type_annot, hgas]
  · have hnone : parse_type_annot (-1) [] = .ok none := rfl
    simp [parse_ty, leaf_ty, hgas, hnone]

end script_ir_translator

end plexus
