import Plexus.Michelson.Annotations
import Plexus.Michelson.Spending

/-! The types of Michelson, their printer and their parsers. -/

namespace plexus

/-- Whether a comparable type may be a pair: the left component of a pair may
not. -/
inductive Depth where
  | leaf
  | comb

/-- The types of the keys of maps and of the elements of sets. -/
inductive Comparable_struct : Depth → Type where
  | Int_key {d : Depth} (tname : Option Type_annot) : Comparable_struct d
  | Nat_key {d : Depth} (tname : Option Type_annot) : Comparable_struct d
  | String_key {d : Depth} (tname : Option Type_annot) : Comparable_struct d
  | Bytes_key {d : Depth} (tname : Option Type_annot) : Comparable_struct d
  | Mutez_key {d : Depth} (tname : Option Type_annot) : Comparable_struct d
  | Mumine_key {d : Depth} (tname : Option Type_annot) : Comparable_struct d
  | Bool_key {d : Depth} (tname : Option Type_annot) : Comparable_struct d
  | Key_hash_key {d : Depth} (tname : Option Type_annot) : Comparable_struct d
  | Timestamp_key {d : Depth} (tname : Option Type_annot) : Comparable_struct d
  | Address_key {d : Depth} (tname : Option Type_annot) : Comparable_struct d
  | Pair_key (left : Comparable_struct .leaf) (left_annot : Option Field_annot)
      (right : Comparable_struct .comb) (right_annot : Option Field_annot)
      (tname : Option Type_annot) : Comparable_struct .comb
deriving DecidableEq

abbrev Comparable_ty := Comparable_struct .comb

inductive Ty where
  | Unit_t (tname : Option Type_annot)
  | Int_t (tname : Option Type_annot)
  | Nat_t (tname : Option Type_annot)
  | Signature_t (tname : Option Type_annot)
  | String_t (tname : Option Type_annot)
  | Bytes_t (tname : Option Type_annot)
  | Mutez_t (tname : Option Type_annot)
  | Mumine_t (tname : Option Type_annot)
  | Key_hash_t (tname : Option Type_annot)
  | Key_t (tname : Option Type_annot)
  | Timestamp_t (tname : Option Type_annot)
  | Address_t (tname : Option Type_annot)
  | Bool_t (tname : Option Type_annot)
  | Pair_t (left : Ty) (left_field : Option Field_annot) (left_var : Option Var_annot)
      (right : Ty) (right_field : Option Field_annot) (right_var : Option Var_annot)
      (tname : Option Type_annot) (has_big_map : Bool)
  | Union_t (left : Ty) (left_constr : Option Field_annot) (right : Ty)
      (right_constr : Option Field_annot) (tname : Option Type_annot) (has_big_map : Bool)
  | Lambda_t (arg : Ty) (ret : Ty) (tname : Option Type_annot)
  | Option_t (ty : Ty) (tname : Option Type_annot) (has_big_map : Bool)
  | List_t (elt : Ty) (tname : Option Type_annot) (has_big_map : Bool)
  | Set_t (elt : Comparable_ty) (tname : Option Type_annot)
  | Map_t (key : Comparable_ty) (value : Ty) (tname : Option Type_annot) (has_big_map : Bool)
  | Big_map_t (key : Comparable_ty) (value : Ty) (tname : Option Type_annot)
  | Contract_t (arg : Ty) (tname : Option Type_annot)
  | Operation_t (tname : Option Type_annot)
  | Chain_id_t (tname : Option Type_annot)
deriving DecidableEq

namespace script_repr

/-- `prim_node_size_nonrec_of_lengths` -/
def prim_node_size_nonrec_of_lengths (n_args : ℤ) (annots : List MBytes) : ℤ × ℤ :=
  let annots_length := (annots.map List.length).sum
  if annots_length = 0 then (1 + n_args, 2 + 2 * n_args)
  else (2 + n_args, 4 + 2 * n_args + ((annots_length + 7) / 8 : ℕ))

def prim_node_cost_nonrec_of_length (n_args : ℤ) (annots : List MBytes) : Cost :=
  cost_of_size (prim_node_size_nonrec_of_lengths n_args annots)

theorem cost_of_size_nonneg {size : ℤ × ℤ} (hblocks : 0 ≤ size.1) (hwords : 0 ≤ size.2) :
    0 ≤ gas_limit_repr.cost_to_internal_gas (cost_of_size size) := by
  simp only [gas_limit_repr.cost_to_internal_gas, cost_of_size, gas_limit_repr.add,
    gas_limit_repr.mul, gas_limit_repr.alloc_cost, gas_limit_repr.step_cost, gas_limit_repr.free,
    gas_limit_repr.scale, gas_limit_repr.rescaling_bits, gas_limit_repr.allocation_weight,
    gas_limit_repr.step_weight]
  omega

theorem prim_node_cost_nonneg (n_args : ℕ) (annots : List MBytes) :
    0 ≤ gas_limit_repr.cost_to_internal_gas (prim_node_cost_nonrec_of_length n_args annots) := by
  refine cost_of_size_nonneg ?_ ?_
  · simp only [prim_node_size_nonrec_of_lengths]
    split <;> dsimp only <;> omega
  · simp only [prim_node_size_nonrec_of_lengths]
    split <;> dsimp only <;> omega

end script_repr

namespace typecheck_costs

open gas_limit_repr

def cycle : Cost := step_cost 1

def type_ (nb_args : ℤ) : Cost := alloc_cost (nb_args + 1)

theorem cycle_nonneg : 0 ≤ cost_to_internal_gas cycle := by decide

theorem type_nonneg {nb_args : ℤ} (h : 0 ≤ nb_args) : 0 ≤ cost_to_internal_gas (type_ nb_args) := by
  simp only [cost_to_internal_gas, type_, alloc_cost, free, scale, rescaling_bits,
    allocation_weight]
  omega

end typecheck_costs

namespace unparse_costs

open gas_limit_repr

def cycle : Cost := step_cost 1

def prim_cost (l : ℤ) (annot : List MBytes) : Cost :=
  script_repr.prim_node_cost_nonrec_of_length l annot

theorem cycle_nonneg : 0 ≤ cost_to_internal_gas cycle := by decide

end unparse_costs

namespace script_ir_translator

open script_ir_annot

def kind : Script_node → Kind
  | .Int _ _ => .Int_kind
  | .String _ _ => .String_kind
  | .Bytes _ _ => .Bytes_kind
  | .Prim _ _ _ _ => .Prim_kind
  | .Seq _ _ => .Seq_kind

def prim_namespace (prim : Prim) : Namespace :=
  if prim ∈ [.K_parameter, .K_storage, .K_code] then .Keyword_namespace
  else if prim ∈ [.D_False, .D_Elt, .D_Left, .D_None, .D_Pair, .D_Right, .D_Some, .D_True,
      .D_Unit] then .Constant_namespace
  else if prim ∈ [.T_bool, .T_contract, .T_int, .T_key, .T_key_hash, .T_lambda, .T_list, .T_map,
      .T_big_map, .T_nat, .T_option, .T_or, .T_pair, .T_set, .T_signature, .T_string, .T_bytes,
      .T_mutez, .T_timestamp, .T_unit, .T_operation, .T_address, .T_chain_id] then .Type_namespace
  else .Instr_namespace

/-- The error for an expression that is not one of those expected. -/
def unexpected (expr : Script_node) (exp_kinds : List Kind) (exp_ns : Namespace)
    (exp_prims : List Prim) : Error :=
  match expr with
  | .Prim loc name _ _ =>
    if prim_namespace name = exp_ns ∧ exp_ns ≠ .Keyword_namespace then
      .Invalid_primitive loc exp_prims name
    else .Invalid_namespace loc name exp_ns (prim_namespace name)
  | expr => .Invalid_kind expr.location (.Prim_kind :: exp_kinds) (kind expr)

def ty_of_comparable_ty {d : Depth} : Comparable_struct d → Ty
  | .Int_key tname => .Int_t tname
  | .Nat_key tname => .Nat_t tname
  | .String_key tname => .String_t tname
  | .Bytes_key tname => .Bytes_t tname
  | .Mutez_key tname => .Mutez_t tname
  | .Mumine_key tname => .Mumine_t tname
  | .Bool_key tname => .Bool_t tname
  | .Key_hash_key tname => .Key_hash_t tname
  | .Timestamp_key tname => .Timestamp_t tname
  | .Address_key tname => .Address_t tname
  | .Pair_key l al r ar tname =>
    .Pair_t (ty_of_comparable_ty l) al none (ty_of_comparable_ty r) ar none tname false

def add_field_annot (a : Option Field_annot) (var : Option Var_annot) : Script_node → Script_node
  | .Prim loc prim args annots =>
    .Prim loc prim args (annots ++ unparse_field_annot a ++ unparse_var_annot var)
  | expr => expr

def unparse_comparable_ty {d : Depth} : Comparable_struct d → Script_node
  | .Int_key tname => .Prim (-1) .T_int [] (unparse_type_annot tname)
  | .Nat_key tname => .Prim (-1) .T_nat [] (unparse_type_annot tname)
  | .String_key tname => .Prim (-1) .T_string [] (unparse_type_annot tname)
  | .Bytes_key tname => .Prim (-1) .T_bytes [] (unparse_type_annot tname)
  | .Mutez_key tname => .Prim (-1) .T_mutez [] (unparse_type_annot tname)
  | .Mumine_key tname => .Prim (-1) .T_mutez [] (unparse_type_annot tname)
  | .Bool_key tname => .Prim (-1) .T_bool [] (unparse_type_annot tname)
  | .Key_hash_key tname => .Prim (-1) .T_key_hash [] (unparse_type_annot tname)
  | .Timestamp_key tname => .Prim (-1) .T_timestamp [] (unparse_type_annot tname)
  | .Address_key tname => .Prim (-1) .T_address [] (unparse_type_annot tname)
  | .Pair_key l al r ar pname =>
    let tl := add_field_annot al none (unparse_comparable_ty l)
    let tr := add_field_annot ar none (unparse_comparable_ty r)
    .Prim (-1) .T_pair [tl, tr] (unparse_type_annot pname)

/-- Pay for a node and return it. -/
def unparse_return (ctxt : Context) (name : Prim) (args : List Script_node) (annot : List MBytes) :
    Tzresult (Script_node × Context) := do
  let ctxt ← gas.consume ctxt (unparse_costs.prim_cost args.length annot)
  pure (.Prim (-1) name args annot, ctxt)

def unparse_ty (ctxt : Context) (ty : Ty) : Tzresult (Script_node × Context) := do
  let ctxt ← gas.consume ctxt unparse_costs.cycle
  match ty with
  | .Unit_t tname => unparse_return ctxt .T_unit [] (unparse_type_annot tname)
  | .Int_t tname => unparse_return ctxt .T_int [] (unparse_type_annot tname)
  | .Nat_t tname => unparse_return ctxt .T_nat [] (unparse_type_annot tname)
  | .String_t tname => unparse_return ctxt .T_string [] (unparse_type_annot tname)
  | .Bytes_t tname => unparse_return ctxt .T_bytes [] (unparse_type_annot tname)
  | .Mutez_t tname => unparse_return ctxt .T_mutez [] (unparse_type_annot tname)
  | .Mumine_t tname => unparse_return ctxt .T_mutez [] (unparse_type_annot tname)
  | .Bool_t tname => unparse_return ctxt .T_bool [] (unparse_type_annot tname)
  | .Key_hash_t tname => unparse_return ctxt .T_key_hash [] (unparse_type_annot tname)
  | .Key_t tname => unparse_return ctxt .T_key [] (unparse_type_annot tname)
  | .Timestamp_t tname => unparse_return ctxt .T_timestamp [] (unparse_type_annot tname)
  | .Address_t tname => unparse_return ctxt .T_address [] (unparse_type_annot tname)
  | .Signature_t tname => unparse_return ctxt .T_signature [] (unparse_type_annot tname)
  | .Operation_t tname => unparse_return ctxt .T_operation [] (unparse_type_annot tname)
  | .Chain_id_t tname => unparse_return ctxt .T_chain_id [] (unparse_type_annot tname)
  | .Contract_t ut tname =>
    let (t, ctxt) ← unparse_ty ctxt ut
    unparse_return ctxt .T_contract [t] (unparse_type_annot tname)
  | .Pair_t utl l_field l_var utr r_field r_var tname _ =>
    let (utl, ctxt) ← unparse_ty ctxt utl
    let tl := add_field_annot l_field l_var utl
    let (utr, ctxt) ← unparse_ty ctxt utr
    let tr := add_field_annot r_field r_var utr
    unparse_return ctxt .T_pair [tl, tr] (unparse_type_annot tname)
  | .Union_t utl l_field utr r_field tname _ =>
    let (utl, ctxt) ← unparse_ty ctxt utl
    let tl := add_field_annot l_field none utl
    let (utr, ctxt) ← unparse_ty ctxt utr
    let tr := add_field_annot r_field none utr
    unparse_return ctxt .T_or [tl, tr] (unparse_type_annot tname)
  | .Lambda_t uta utr tname =>
    let (ta, ctxt) ← unparse_ty ctxt uta
    let (tr, ctxt) ← unparse_ty ctxt utr
    unparse_return ctxt .T_lambda [ta, tr] (unparse_type_annot tname)
  | .Option_t ut tname _ =>
    let (ut, ctxt) ← unparse_ty ctxt ut
    unparse_return ctxt .T_option [ut] (unparse_type_annot tname)
  | .List_t ut tname _ =>
    let (t, ctxt) ← unparse_ty ctxt ut
    unparse_return ctxt .T_list [t] (unparse_type_annot tname)
  | .Set_t ut tname =>
    unparse_return ctxt .T_set [unparse_comparable_ty ut] (unparse_type_annot tname)
  | .Map_t uta utr tname _ =>
    let ta := unparse_comparable_ty uta
    let (tr, ctxt) ← unparse_ty ctxt utr
    unparse_return ctxt .T_map [ta, tr] (unparse_type_annot tname)
  | .Big_map_t uta utr tname =>
    let ta := unparse_comparable_ty uta
    let (tr, ctxt) ← unparse_ty ctxt utr
    unparse_return ctxt .T_big_map [ta, tr] (unparse_type_annot tname)

mutual

/-- The expression without the annotations of variables. None of the
annotations of a printed type is empty. -/
def strip_var_annots : Script_node → Script_node
  | .Seq loc args => .Seq loc (strip_var_annots_list args)
  | .Prim loc name args annots =>
    .Prim loc name (strip_var_annots_list args)
      (annots.filter fun s => s.head? ≠ some '@'.toUInt8)
  | atom => atom

def strip_var_annots_list : List Script_node → List Script_node
  | [] => []
  | node :: rest => strip_var_annots node :: strip_var_annots_list rest

end

def serialize_ty_for_error (ctxt : Context) (ty : Ty) : Tzresult (Script_node × Context) := do
  let (ty, ctxt) ← trace .Cannot_serialize_error (unparse_ty ctxt ty)
  pure ((strip_var_annots ty).strip_locations, ctxt)

def inconsistent_types {α : Type} (ctxt : Context) (ta tb : Ty) : Tzresult α := do
  let (ta, ctxt) ← serialize_ty_for_error ctxt ta
  let (tb, _) ← serialize_ty_for_error ctxt tb
  fail (.Inconsistent_types ta tb)

/-- Two comparable types that only differ in their annotations. The case of
`Mumine_key` is missing. -/
def comparable_ty_eq {d : Depth} (ctxt : Context) (ta tb : Comparable_struct d) :
    Tzresult Context :=
  gas.consume ctxt typecheck_costs.cycle >>= fun ctxt =>
  match d, ta, tb with
  | _, .Int_key _, .Int_key _ => pure ctxt
  | _, .Nat_key _, .Nat_key _ => pure ctxt
  | _, .String_key _, .String_key _ => pure ctxt
  | _, .Bytes_key _, .Bytes_key _ => pure ctxt
  | _, .Mutez_key _, .Mutez_key _ => pure ctxt
  | _, .Bool_key _, .Bool_key _ => pure ctxt
  | _, .Key_hash_key _, .Key_hash_key _ => pure ctxt
  | _, .Timestamp_key _, .Timestamp_key _ => pure ctxt
  | _, .Address_key _, .Address_key _ => pure ctxt
  | _, .Pair_key lefta _ righta _ _, .Pair_key leftb _ rightb _ _ => do
    let ctxt ← comparable_ty_eq ctxt lefta leftb
    comparable_ty_eq ctxt righta rightb
  | _, ta, tb => inconsistent_types ctxt (ty_of_comparable_ty ta) (ty_of_comparable_ty tb)

/-- `record_trace_eval`, which makes its error only when there is a failure. -/
def record_inconsistent {α : Type} (ctxt : Context) (ta tb : Ty) : Tzresult α → Tzresult α
  | .error errs => do
    let (ta, ctxt) ← serialize_ty_for_error ctxt ta
    let (tb, _) ← serialize_ty_for_error ctxt tb
    .error (.Inconsistent_types ta tb :: errs)
  | r => r

/-- The last step of `ty_eq`. -/
def ty_eq_ok (ctxt : Context) (nb_args : ℤ) : Tzresult Context :=
  gas.consume ctxt (typecheck_costs.type_ (2 * nb_args))

/-- Two types that only differ in their annotations. -/
def ty_eq (ctxt : Context) (ta tb : Ty) : Tzresult Context := do
  let ctxt ← gas.consume ctxt typecheck_costs.cycle
  match ta, tb with
  | .Unit_t _, .Unit_t _ => ty_eq_ok ctxt 0
  | .Int_t _, .Int_t _ => ty_eq_ok ctxt 0
  | .Nat_t _, .Nat_t _ => ty_eq_ok ctxt 0
  | .Key_t _, .Key_t _ => ty_eq_ok ctxt 0
  | .Key_hash_t _, .Key_hash_t _ => ty_eq_ok ctxt 0
  | .String_t _, .String_t _ => ty_eq_ok ctxt 0
  | .Bytes_t _, .Bytes_t _ => ty_eq_ok ctxt 0
  | .Signature_t _, .Signature_t _ => ty_eq_ok ctxt 0
  | .Mutez_t _, .Mutez_t _ => ty_eq_ok ctxt 0
  | .Mumine_t _, .Mumine_t _ => ty_eq_ok ctxt 0
  | .Timestamp_t _, .Timestamp_t _ => ty_eq_ok ctxt 0
  | .Chain_id_t _, .Chain_id_t _ => ty_eq_ok ctxt 0
  | .Address_t _, .Address_t _ => ty_eq_ok ctxt 0
  | .Bool_t _, .Bool_t _ => ty_eq_ok ctxt 0
  | .Operation_t _, .Operation_t _ => ty_eq_ok ctxt 0
  | .Map_t tal tar tna ba, .Map_t tbl tbr tnb bb =>
    record_inconsistent ctxt (.Map_t tal tar tna ba) (.Map_t tbl tbr tnb bb) do
      let ctxt ← comparable_ty_eq ctxt tal tbl
      let ctxt ← ty_eq ctxt tar tbr
      ty_eq_ok ctxt 2
  | .Big_map_t tal tar tna, .Big_map_t tbl tbr tnb =>
    record_inconsistent ctxt (.Big_map_t tal tar tna) (.Big_map_t tbl tbr tnb) do
      let ctxt ← comparable_ty_eq ctxt tal tbl
      let ctxt ← ty_eq ctxt tar tbr
      ty_eq_ok ctxt 2
  | .Set_t ea tna, .Set_t eb tnb =>
    record_inconsistent ctxt (.Set_t ea tna) (.Set_t eb tnb) do
      let ctxt ← comparable_ty_eq ctxt ea eb
      ty_eq_ok ctxt 1
  | .Pair_t tal lfa lva tar rfa rva tna ba, .Pair_t tbl lfb lvb tbr rfb rvb tnb bb =>
    record_inconsistent ctxt (.Pair_t tal lfa lva tar rfa rva tna ba)
        (.Pair_t tbl lfb lvb tbr rfb rvb tnb bb) do
      let ctxt ← ty_eq ctxt tal tbl
      let ctxt ← ty_eq ctxt tar tbr
      ty_eq_ok ctxt 2
  | .Union_t tal lfa tar rfa tna ba, .Union_t tbl lfb tbr rfb tnb bb =>
    record_inconsistent ctxt (.Union_t tal lfa tar rfa tna ba) (.Union_t tbl lfb tbr rfb tnb bb) do
      let ctxt ← ty_eq ctxt tal tbl
      let ctxt ← ty_eq ctxt tar tbr
      ty_eq_ok ctxt 2
  | .Lambda_t tal tar tna, .Lambda_t tbl tbr tnb =>
    record_inconsistent ctxt (.Lambda_t tal tar tna) (.Lambda_t tbl tbr tnb) do
      let ctxt ← ty_eq ctxt tal tbl
      let ctxt ← ty_eq ctxt tar tbr
      ty_eq_ok ctxt 2
  | .Contract_t tal tna, .Contract_t tbl tnb =>
    record_inconsistent ctxt (.Contract_t tal tna) (.Contract_t tbl tnb) do
      let ctxt ← ty_eq ctxt tal tbl
      ty_eq_ok ctxt 1
  | .Option_t tva tna ba, .Option_t tvb tnb bb =>
    record_inconsistent ctxt (.Option_t tva tna ba) (.Option_t tvb tnb bb) do
      let ctxt ← ty_eq ctxt tva tvb
      ty_eq_ok ctxt 1
  | .List_t tva tna ba, .List_t tvb tnb bb =>
    record_inconsistent ctxt (.List_t tva tna ba) (.List_t tvb tnb bb) do
      let ctxt ← ty_eq ctxt tva tvb
      ty_eq_ok ctxt 1
  | ta, tb => inconsistent_types ctxt ta tb

def has_big_map : Ty → Bool
  | .Big_map_t _ _ _ => true
  | .Pair_t _ _ _ _ _ _ _ has_big_map => has_big_map
  | .Union_t _ _ _ _ _ has_big_map => has_big_map
  | .Option_t _ _ has_big_map => has_big_map
  | .List_t _ _ has_big_map => has_big_map
  | .Map_t _ _ _ has_big_map => has_big_map
  | _ => false

/-! The parsers. -/

/-- The comparable types without arguments. No primitive is read as
`Mumine_key`. -/
def comparable_leaf : Prim → Option (Option Type_annot → Comparable_ty)
  | .T_int => some .Int_key
  | .T_nat => some .Nat_key
  | .T_string => some .String_key
  | .T_bytes => some .Bytes_key
  | .T_mutez => some .Mutez_key
  | .T_bool => some .Bool_key
  | .T_key_hash => some .Key_hash_key
  | .T_timestamp => some .Timestamp_key
  | .T_address => some .Address_key
  | _ => none

/-- A comparable type as the left component of a pair, unless it is a pair
itself. -/
def as_leaf : Comparable_ty → Option (Comparable_struct .leaf)
  | .Pair_key _ _ _ _ _ => none
  | .Int_key tname => some (.Int_key tname)
  | .Nat_key tname => some (.Nat_key tname)
  | .String_key tname => some (.String_key tname)
  | .Bytes_key tname => some (.Bytes_key tname)
  | .Mutez_key tname => some (.Mutez_key tname)
  | .Mumine_key tname => some (.Mumine_key tname)
  | .Bool_key tname => some (.Bool_key tname)
  | .Key_hash_key tname => some (.Key_hash_key tname)
  | .Timestamp_key tname => some (.Timestamp_key tname)
  | .Address_key tname => some (.Address_key tname)

theorem size_left_lt (loc : ℤ) (prim : Prim) (left right : Script_node) (annot : List MBytes) :
    (extract_field_annot left).1.size < (Micheline.Node.Prim loc prim [left, right] annot).size := by
  rw [size_extract_field_annot]
  simp only [Micheline.Node.size, Micheline.Node.sizes]
  omega

theorem size_right_lt (loc : ℤ) (prim : Prim) (left right : Script_node) (annot : List MBytes) :
    (extract_field_annot right).1.size < (Micheline.Node.Prim loc prim [left, right] annot).size := by
  rw [size_extract_field_annot]
  simp only [Micheline.Node.size, Micheline.Node.sizes]
  omega

def parse_comparable_ty (ctxt : Context) (ty : Script_node) :
    Tzresult (Comparable_ty × Context) := do
  let ctxt ← gas.consume ctxt typecheck_costs.cycle
  let ctxt ← gas.consume ctxt (typecheck_costs.type_ 0)
  match ty with
  | .Prim loc .T_pair [left, right] annot =>
    let pname ← parse_type_annot loc annot
    let left_annot := (extract_field_annot left).2
    let right_annot := (extract_field_annot right).2
    let (right, ctxt) ← parse_comparable_ty ctxt (extract_field_annot right).1
    let (left, ctxt) ← parse_comparable_ty ctxt (extract_field_annot left).1
    match as_leaf left with
    | none => fail (.Comparable_type_expected loc ty.strip_locations)
    | some left => pure (.Pair_key left left_annot right right_annot pname, ctxt)
  | .Prim loc .T_pair l _ => fail (.Invalid_arity loc .T_pair 2 l.length)
  | .Prim loc prim l annot =>
    match comparable_leaf prim, l with
    | some key, [] =>
      let tname ← parse_type_annot loc annot
      pure (key tname, ctxt)
    | _, _ =>
      if prim ∈ [.T_int, .T_nat, .T_string, .T_mutez, .T_bool, .T_key, .T_address, .T_timestamp]
      then fail (.Invalid_arity loc prim 0 l.length)
      else if prim ∈ [.T_or, .T_set, .T_map, .T_list, .T_option, .T_lambda, .T_unit, .T_signature,
          .T_contract] then fail (.Comparable_type_expected loc ty.strip_locations)
      else fail (unexpected ty [] .Type_namespace [.T_int, .T_nat, .T_string, .T_mutez, .T_bool,
        .T_key, .T_key_hash, .T_timestamp])
  | expr => fail (unexpected expr [] .Type_namespace [.T_int, .T_nat, .T_string, .T_mutez, .T_bool,
      .T_key, .T_key_hash, .T_timestamp])
termination_by ty.size
decreasing_by
  · exact size_right_lt loc .T_pair _ _ annot
  · exact size_left_lt loc .T_pair _ _ annot

/-- The types without arguments that are allowed everywhere. No primitive is
read as `Mumine_t`. -/
def leaf_ty : Prim → Option (Option Type_annot → Ty)
  | .T_unit => some .Unit_t
  | .T_int => some .Int_t
  | .T_nat => some .Nat_t
  | .T_string => some .String_t
  | .T_bytes => some .Bytes_t
  | .T_mutez => some .Mutez_t
  | .T_bool => some .Bool_t
  | .T_key => some .Key_t
  | .T_key_hash => some .Key_hash_t
  | .T_timestamp => some .Timestamp_t
  | .T_address => some .Address_t
  | .T_signature => some .Signature_t
  | .T_chain_id => some .Chain_id_t
  | _ => none

/-- The primitives that `parse_ty` says it expects. -/
def type_prims : List Prim :=
  [.T_pair, .T_or, .T_set, .T_map, .T_list, .T_option, .T_lambda, .T_unit, .T_signature, .T_contract,
    .T_int, .T_nat, .T_operation, .T_string, .T_bytes, .T_mutez, .T_bool, .T_key, .T_key_hash,
    .T_timestamp, .T_chain_id]

mutual

def parse_packable_ty (ctxt : Context) (legacy : Bool) (node : Script_node) :
    Tzresult (Ty × Context) :=
  parse_ty ctxt legacy false false legacy node
termination_by 2 * node.size + 1

def parse_parameter_ty (ctxt : Context) (legacy : Bool) (node : Script_node) :
    Tzresult (Ty × Context) :=
  parse_ty ctxt legacy true false true node
termination_by 2 * node.size + 1

def parse_any_ty (ctxt : Context) (legacy : Bool) (node : Script_node) : Tzresult (Ty × Context) :=
  parse_ty ctxt legacy true true true node
termination_by 2 * node.size + 1

def parse_ty (ctxt : Context) (legacy allow_big_map allow_operation allow_contract : Bool)
    (node : Script_node) : Tzresult (Ty × Context) := do
  let ctxt ← gas.consume ctxt typecheck_costs.cycle
  match node with
  | .Prim loc prim args annot =>
    match prim, args with
    | .T_operation, [] =>
      if allow_operation then
        let ty_name ← parse_type_annot loc annot
        let ctxt ← gas.consume ctxt (typecheck_costs.type_ 0)
        pure (.Operation_t ty_name, ctxt)
      else fail (.Unexpected_operation loc)
    | .T_contract, [utl] =>
      if allow_contract then
        let (tl, ctxt) ← parse_parameter_ty ctxt legacy utl
        let ty_name ← parse_type_annot loc annot
        let ctxt ← gas.consume ctxt (typecheck_costs.type_ 1)
        pure (.Contract_t tl ty_name, ctxt)
      else fail (.Unexpected_contract loc)
    | .T_pair, [utl, utr] =>
      let left_field := (extract_field_annot utl).2
      let right_field := (extract_field_annot utr).2
      let (tl, ctxt) ← parse_ty ctxt legacy allow_big_map allow_operation allow_contract
        (extract_field_annot utl).1
      let (tr, ctxt) ← parse_ty ctxt legacy allow_big_map allow_operation allow_contract
        (extract_field_annot utr).1
      let ty_name ← parse_type_annot loc annot
      let ctxt ← gas.consume ctxt (typecheck_costs.type_ 2)
      pure (.Pair_t tl left_field none tr right_field none ty_name
        (has_big_map tl || has_big_map tr), ctxt)
    | .T_or, [utl, utr] =>
      let left_constr := (extract_field_annot utl).2
      let right_constr := (extract_field_annot utr).2
      let (tl, ctxt) ← parse_ty ctxt legacy allow_big_map allow_operation allow_contract
        (extract_field_annot utl).1
      let (tr, ctxt) ← parse_ty ctxt legacy allow_big_map allow_operation allow_contract
        (extract_field_annot utr).1
      let ty_name ← parse_type_annot loc annot
      let ctxt ← gas.consume ctxt (typecheck_costs.type_ 2)
      pure (.Union_t tl left_constr tr right_constr ty_name (has_big_map tl || has_big_map tr), ctxt)
    | .T_lambda, [uta, utr] =>
      let (ta, ctxt) ← parse_any_ty ctxt legacy uta
      let (tr, ctxt) ← parse_any_ty ctxt legacy utr
      let ty_name ← parse_type_annot loc annot
      let ctxt ← gas.consume ctxt (typecheck_costs.type_ 2)
      pure (.Lambda_t ta tr ty_name, ctxt)
    | .T_option, [ut] =>
      -- the constructor annotation of the argument is only taken off by the legacy semantics
      if legacy then
        let (ty_name, _none_constr, _) ← parse_composed_type_annot loc annot
        let (t, ctxt) ← parse_ty ctxt legacy allow_big_map allow_operation allow_contract
          (extract_field_annot ut).1
        let ctxt ← gas.consume ctxt (typecheck_costs.type_ 2)
        pure (.Option_t t ty_name (has_big_map t), ctxt)
      else
        let ty_name ← parse_type_annot loc annot
        let (t, ctxt) ← parse_ty ctxt legacy allow_big_map allow_operation allow_contract ut
        let ctxt ← gas.consume ctxt (typecheck_costs.type_ 2)
        pure (.Option_t t ty_name (has_big_map t), ctxt)
    | .T_list, [ut] =>
      let (t, ctxt) ← parse_ty ctxt legacy allow_big_map allow_operation allow_contract ut
      let ty_name ← parse_type_annot loc annot
      let ctxt ← gas.consume ctxt (typecheck_costs.type_ 1)
      pure (.List_t t ty_name (has_big_map t), ctxt)
    | .T_set, [ut] =>
      let (t, ctxt) ← parse_comparable_ty ctxt ut
      let ty_name ← parse_type_annot loc annot
      let ctxt ← gas.consume ctxt (typecheck_costs.type_ 1)
      pure (.Set_t t ty_name, ctxt)
    | .T_map, [uta, utr] =>
      let (ta, ctxt) ← parse_comparable_ty ctxt uta
      let (tr, ctxt) ← parse_ty ctxt legacy allow_big_map allow_operation allow_contract utr
      let ty_name ← parse_type_annot loc annot
      let ctxt ← gas.consume ctxt (typecheck_costs.type_ 2)
      pure (.Map_t ta tr ty_name (has_big_map tr), ctxt)
    | .T_big_map, args =>
      if allow_big_map then
        let (big_map_ty, ctxt) ← parse_big_map_ty ctxt legacy loc args annot
        let ctxt ← gas.consume ctxt (typecheck_costs.type_ 2)
        pure (big_map_ty, ctxt)
      else fail (.Unexpected_big_map loc)
    | prim, l =>
      match leaf_ty prim, l with
      | some ty, [] =>
        let ty_name ← parse_type_annot loc annot
        let ctxt ← gas.consume ctxt (typecheck_costs.type_ 0)
        pure (ty ty_name, ctxt)
      | _, l =>
        if prim ∈ [.T_unit, .T_signature, .T_int, .T_nat, .T_string, .T_bytes, .T_mutez, .T_bool,
            .T_key, .T_key_hash, .T_timestamp, .T_address] then
          fail (.Invalid_arity loc prim 0 l.length)
        else if prim ∈ [.T_set, .T_list, .T_option, .T_contract] then
          fail (.Invalid_arity loc prim 1 l.length)
        else if prim ∈ [.T_pair, .T_or, .T_map, .T_lambda] then
          fail (.Invalid_arity loc prim 2 l.length)
        else fail (unexpected node [] .Type_namespace type_prims)
  | expr => fail (unexpected expr [] .Type_namespace type_prims)
termination_by 2 * node.size
decreasing_by
  all_goals
    simp only [size_extract_field_annot, Micheline.Node.size, Micheline.Node.sizes]
    omega

def parse_big_map_ty (ctxt : Context) (legacy : Bool) (big_map_loc : ℤ) (args : List Script_node)
    (map_annot : List MBytes) : Tzresult (Ty × Context) := do
  let ctxt ← gas.consume ctxt typecheck_costs.cycle
  match args with
  | [key_ty, value_ty] =>
    let (key_ty, ctxt) ← parse_comparable_ty ctxt key_ty
    let (value_ty, ctxt) ← parse_packable_ty ctxt legacy value_ty
    let map_name ← parse_type_annot big_map_loc map_annot
    pure (.Big_map_t key_ty value_ty map_name, ctxt)
  | args => fail (.Invalid_arity big_map_loc .T_big_map 2 args.length)
termination_by 2 * Micheline.Node.sizes args + 1
decreasing_by
  simp only [Micheline.Node.sizes]
  have := Micheline.Node.size_pos key_ty
  omega

end

end script_ir_translator

end plexus
