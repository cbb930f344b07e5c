import Plexus.Lib.DataEncoding
import Plexus.Michelson.Collections

/-! Keys of maps and of big maps: how they are read, compared, packed and hashed. -/

namespace plexus.script_ir_translator

open Data_encoding Option

/-- Annotations are written with spaces between them. They can be told apart if none is empty,
longer than 255 bytes or contains a space. -/
def is_annotation (annot : MBytes) : Bool := annot ≠ [] && 32 ∉ annot && annot.length ≤ 255

/-- The notations, encodings and hashes the translator calls. Contracts and hashes of keys are read
as they are written, and no two well annotated expressions are written alike. -/
class Codecs where
  contract : Encoding Contract
  contract_exact : contract.Exact
  key_hash : Encoding Public_key_hash
  key_hash_exact : key_hash.Exact
  /-- the binary form of expressions -/
  expr_to_bytes : Script_node → Option MBytes
  expr_injective : ∀ e e' b, e.annots_all is_annotation → e'.annots_all is_annotation →
    expr_to_bytes e = some b → expr_to_bytes e' = some b → e = e'
  /-- `Contract.of_b58check` -/
  contract_of_b58check : MBytes → Option Contract
  key_hash_of_b58check_opt : MBytes → Option Public_key_hash
  timestamp_of_string : MBytes → Option ℤ
  /-- `Script_expr_hash.hash_bytes` -/
  hash_bytes : MBytes → Nat

/-- "default" -/
def default_entrypoint : MBytes := [100, 101, 102, 97, 117, 108, 116]

section

variable [Codecs]

/-- `tup2 Contract.encoding Variable.string` -/
def address_encoding : Variable_encoding (Contract × MBytes) :=
  pair_variable Codecs.contract bytes_variable

/-- `parse_data` at `Address_t`: bytes, or a notation in which a name follows the first `%`. -/
def parse_address : Script_node → Option (Contract × MBytes)
  | .Bytes _ bytes => do
    let (c, entrypoint) ← address_encoding.read bytes
    if 31 < entrypoint.length ∨ entrypoint = default_entrypoint then none
    else some (c, if entrypoint = [] then default_entrypoint else entrypoint)
  | .String _ s =>
    match s.idxOf? 37 with
    | none => (Codecs.contract_of_b58check s).map (·, default_entrypoint)
    | some pos =>
      let name := s.drop (pos + 1)
      if 31 < name.length ∨ name = default_entrypoint then none
      else (Codecs.contract_of_b58check (s.take pos)).map (·, name)
  | _ => none

/-- `parse_data` at the types of keys: the value of a node that is accepted. -/
def parse_data (legacy : Bool) {d : Depth} :
    (kind : Comparable_struct d) → Script_node → Option (Val kind)
  | .Int_key _, .Int _ v => some v
  | .Nat_key _, .Int _ v => if 0 ≤ v then some v.toNat else none
  | .String_key _, .String _ v =>
    if v.all fun c => c = 10 || script_ir_annot.between 0x20 0x7E c then some v else none
  | .Bytes_key _, .Bytes _ v => some v
  | .Mutez_key _, .Int _ v =>
    if -2 ^ 63 ≤ v ∧ v < 2 ^ 63 then Qty.of_mutez (Int64.ofInt v) else none
  | .Mumine_key _, .Int _ v =>
    if -2 ^ 63 ≤ v ∧ v < 2 ^ 63 then Qty.of_mutez (Int64.ofInt v) else none
  | .Bool_key _, .Prim _ .D_True [] annot => if legacy ∨ annot = [] then some true else none
  | .Bool_key _, .Prim _ .D_False [] annot => if legacy ∨ annot = [] then some false else none
  | .Key_hash_key _, .Bytes _ bytes => (whole Codecs.key_hash).read bytes
  | .Key_hash_key _, .String _ s => Codecs.key_hash_of_b58check_opt s
  | .Timestamp_key _, .Int _ v => some v
  | .Timestamp_key _, .String _ s => Codecs.timestamp_of_string s
  | .Address_key _, node => parse_address node
  | .Pair_key l _ r _ _, .Prim _ .D_Pair [va, vb] annot =>
    if legacy ∨ annot = [] then do
      let a ← parse_data legacy l va
      let b ← parse_data legacy r vb
      some (a, b)
    else none
  | _, _ => none

/-- `unparse_data` with `Optimized`, at the types of keys. An encoder may refuse the value. -/
def unparse_data {d : Depth} : (kind : Comparable_struct d) → Val kind → Option Script_node
  | .Int_key _ => fun v => some (.Int (-1) v)
  | .Nat_key _ => fun v => some (.Int (-1) (Int.ofNat v))
  | .String_key _ => fun s => some (.String (-1) s)
  | .Bytes_key _ => fun s => some (.Bytes (-1) s)
  | .Mutez_key _ => fun v => some (.Int (-1) (Qty.amount v))
  | .Mumine_key _ => fun v => some (.Int (-1) (Qty.amount v))
  | .Bool_key _ => fun b => some (.Prim (-1) (bif b then .D_True else .D_False) [] [])
  | .Key_hash_key _ => fun k => ((whole Codecs.key_hash).write k).map (.Bytes (-1))
  | .Timestamp_key _ => fun t => some (.Int (-1) t)
  | .Address_key _ => fun (c, entrypoint) =>
    (address_encoding.write (c, if entrypoint = default_entrypoint then [] else entrypoint)).map
      (.Bytes (-1))
  | .Pair_key l _ r _ _ => fun (a, b) =>
    (unparse_data l a).bind fun a => (unparse_data r b).map fun b => .Prim (-1) .D_Pair [a, b] []

def pack_data (ty : Comparable_ty) (data : Val ty) : Option MBytes :=
  (unparse_data ty data).bind fun unparsed =>
    (Codecs.expr_to_bytes unparsed.strip_locations).map (5 :: ·)

def hash_data (ty : Comparable_ty) (data : Val ty) : Option Nat :=
  (pack_data ty data).map Codecs.hash_bytes

end

/-- The value with the default entrypoint for every name that is empty. -/
def named {d : Depth} : (kind : Comparable_struct d) → Val kind → Val kind
  | .Address_key _ => fun (c, entrypoint) =>
    (c, if entrypoint = [] then default_entrypoint else entrypoint)
  | .Pair_key l _ r _ _ => fun (a, b) => (named l a, named r b)
  | _ => id

variable [Codecs] {d : Depth} {kind : Comparable_struct d}

theorem unparse_data_named (v : Val kind) :
    unparse_data kind (named kind v) = unparse_data kind v := by
  induction kind with
  | Address_key _ =>
    obtain ⟨c, entrypoint⟩ := v
    simp only [named, unparse_data]
    by_cases hempty : entrypoint = []
    · simp [hempty]
    · simp [hempty]
  | Pair_key l _ r _ _ ihl ihr =>
    obtain ⟨a, b⟩ := v
    simp only [named, unparse_data, ihl, ihr]
  | _ => rfl

omit [Codecs] in
theorem eq_of_write {α : Type} {e : Variable_encoding α} (he : e.Exact) {a a' : α} {b : MBytes}
    (h : e.write a = some b) (h' : e.write a' = some b) : a = a' := by
  rw [← he] at h h'
  exact Option.some.inj (h.symm.trans h')

/-- The packed form keeps everything but the empty name. -/
theorem named_eq_of_unparse_data {v w : Val kind} {n m : Script_node} {i j : ℤ}
    (hv : unparse_data kind v = some n) (hw : unparse_data kind w = some m)
    (h : (n.number i).1 = (m.number j).1) : named kind v = named kind w := by
  induction kind generalizing n m i j with
  | Int_key _ | Timestamp_key _ | String_key _ | Bytes_key _ =>
    cases hv
    cases hw
    cases h
    rfl
  | Nat_key _ =>
    cases hv
    cases hw
    injection h with _ h
    exact Int.ofNat.inj h
  | Mutez_key _ | Mumine_key _ =>
    cases hv
    cases hw
    injection h with _ h
    exact Qty.amount_injective h
  | Bool_key _ =>
    cases hv
    cases hw
    injection h with _ h
    cases v <;> cases w <;> first | rfl | cases h
  | Key_hash_key _ =>
    obtain ⟨b, hb, rfl⟩ := map_eq_some_iff.mp hv
    obtain ⟨b', hb', rfl⟩ := map_eq_some_iff.mp hw
    cases h
    exact eq_of_write (whole_exact Codecs.key_hash_exact) hb hb'
  | Address_key _ =>
    obtain ⟨c, _⟩ := v
    obtain ⟨c', _⟩ := w
    obtain ⟨b, hb, rfl⟩ := map_eq_some_iff.mp hv
    obtain ⟨b', hb', rfl⟩ := map_eq_some_iff.mp hw
    cases h
    have heq := eq_of_write (pair_variable_exact Codecs.contract_exact bytes_variable_exact) hb hb'
    simp only [named]
    grind
  | Pair_key l _ r _ _ ihl ihr =>
    obtain ⟨a, b⟩ := v
    obtain ⟨a', b'⟩ := w
    obtain ⟨n1, hn1, hv⟩ := bind_eq_some_iff.mp hv
    obtain ⟨n2, hn2, rfl⟩ := map_eq_some_iff.mp hv
    obtain ⟨m1, hm1, hw⟩ := bind_eq_some_iff.mp hw
    obtain ⟨m2, hm2, rfl⟩ := map_eq_some_iff.mp hw
    simp only [Micheline.Node.number, Micheline.Node.number_list, Micheline.Node.Prim.injEq,
      List.cons.injEq, and_true, true_and] at h
    exact Prod.ext (ihl hn1 hm1 h.2.1) (ihr hn2 hm2 h.2.2)

/-- Keys are written without annotations. -/
theorem unparse_data_annots {v : Val kind} {n : Script_node} (h : unparse_data kind v = some n)
    (i : ℤ) : (n.number i).1.annots_all is_annotation := by
  induction kind generalizing n i with
  | Key_hash_key _ | Address_key _ =>
    obtain ⟨_, _, rfl⟩ := map_eq_some_iff.mp h
    rfl
  | Pair_key l _ r _ _ ihl ihr =>
    obtain ⟨_, hn, h⟩ := bind_eq_some_iff.mp h
    obtain ⟨_, hm, rfl⟩ := map_eq_some_iff.mp h
    simp [Micheline.Node.number, Micheline.Node.number_list, Micheline.Node.annots_all,
      Micheline.Node.annots_all_list, ihl hn, ihr hm]
  | _ =>
    cases h
    rfl

theorem pack_data_eq_iff {ty : Comparable_ty} {v w : Val ty} {b b' : MBytes}
    (hv : pack_data ty v = some b) (hw : pack_data ty w = some b') :
    b = b' ↔ named ty v = named ty w := by
  constructor
  · rintro rfl
    obtain ⟨n, hn, hv⟩ := bind_eq_some_iff.mp hv
    obtain ⟨_, hbytes, rfl⟩ := map_eq_some_iff.mp hv
    obtain ⟨m, hm, hw⟩ := bind_eq_some_iff.mp hw
    obtain ⟨_, hbytes', heq⟩ := map_eq_some_iff.mp hw
    cases heq
    exact named_eq_of_unparse_data hn hm (Codecs.expr_injective _ _ _
      (unparse_data_annots hn 0) (unparse_data_annots hm 0) hbytes hbytes')
  · intro h
    have hnamed (u : Val ty) : pack_data ty (named ty u) = pack_data ty u := by
      rw [pack_data, unparse_data_named]
      rfl
    rw [← hnamed, h, hnamed, hw] at hv
    exact (Option.some.inj hv).symm

/-- The comparison of keys is a total order. It identifies the keys with the same packed bytes
except where an address with an empty name stands for one with the default entrypoint. -/
theorem comparison_agrees_with_packing_iff (ty : Comparable_ty) {v w : Val ty} {b b' : MBytes}
    (hv : pack_data ty v = some b) (hw : pack_data ty w = some b') :
    Total_comparison (compare_comparable ty) ∧
      ((compare_comparable ty v w = .eq ↔ b = b') ↔ (named ty v = named ty w → v = w)) := by
  refine ⟨compare_comparable_total ty, ?_⟩
  rw [pack_data_eq_iff hv hw, Std.LawfulEqCmp.compare_eq_iff_eq]
  constructor
  · exact fun h => h.mpr
  · exact fun h => ⟨congrArg (named ty), h⟩

omit [Codecs] in
/-- Codecs for one contract, with the notation `K`. -/
@[reducible]
def one_contract : Codecs where
  contract := conv (fun c => if c = .Originated ⟨0⟩ then some () else none)
    (fun _ => some (.Originated ⟨0⟩)) constant
  contract_exact := conv_exact (by simp [eq_comm]) constant_exact
  key_hash := conv (fun _ => none) (fun _ => none) constant
  key_hash_exact := conv_exact (by simp) constant_exact
  expr_to_bytes
    | .Bytes 0 b => some b
    | _ => none
  expr_injective e e' b _ _ h h' := by
    split at h
    · split at h'
      · cases h
        cases h'
        rfl
      · cases h'
    · cases h
  contract_of_b58check s := if s = [75] then some (.Originated ⟨0⟩) else none
  key_hash_of_b58check_opt _ := none
  timestamp_of_string _ := none
  hash_bytes bytes := bytes.length

omit [Codecs] in
/-- `K` and `K%` are read as two keys of a map and packed as one key of a big map. -/
theorem empty_entrypoint_packed_as_default :
    let _ := one_contract
    ∃ v w b, parse_data false (.Address_key none : Comparable_ty) (.String 0 [75]) = some v ∧
      parse_data false (.Address_key none : Comparable_ty) (.String 0 [75, 37]) = some w ∧
      pack_data (.Address_key none) v = some b ∧ pack_data (.Address_key none) w = some b ∧
      hash_data (.Address_key none) v = hash_data (.Address_key none) w ∧
      compare_comparable (.Address_key none : Comparable_ty) v w ≠ .eq := by
  intro _
  exact ⟨(.Originated ⟨0⟩, default_entrypoint), (.Originated ⟨0⟩, []), [5], rfl, rfl, rfl, rfl, rfl,
    by decide⟩

omit [Codecs] in
/-- Two entrypoints of a contract are two keys, of a map and of a big map. -/
theorem comparison_agrees_with_packing_one_contract :
    let _ := one_contract
    ∃ b b', pack_data (.Address_key none) (.Originated ⟨0⟩, [97]) = some b ∧
      pack_data (.Address_key none) (.Originated ⟨0⟩, [98]) = some b' ∧ b ≠ b' ∧
      compare_comparable (.Address_key none : Comparable_ty) (.Originated ⟨0⟩, [97])
        (.Originated ⟨0⟩, [98]) ≠ .eq := by
  intro _
  have hpack : pack_data (.Address_key none) (.Originated ⟨0⟩, [97]) = some [5, 97] := rfl
  have hpack' : pack_data (.Address_key none) (.Originated ⟨0⟩, [98]) = some [5, 98] := rfl
  have hne : ([5, 97] : MBytes) ≠ [5, 98] := by decide
  have hnamed := (comparison_agrees_with_packing_iff _ hpack hpack').2.mpr
    fun h => absurd h (by decide)
  exact ⟨_, _, hpack, hpack', hne, mt hnamed.mp hne⟩

end plexus.script_ir_translator
