import Plexus.Encoding.OperationEncoding

/-! How operations are written, and which byte strings are written again as
they were read. -/

namespace plexus.operation_encoding

open Data_encoding Contents Option

/-! The parts of an operation other than scripts and parameters are written in
one way only. -/

theorem public_key_hash_encoding_exact : public_key_hash_encoding.Exact := by
  refine union_exact ?_ ?_
  · intro c hc
    simp only [List.mem_cons, List.not_mem_nil, or_false] at hc
    rcases hc with rfl | rfl | rfl
    · exact case_exact (fixed_exact 20)
    · exact case_exact (fixed_exact 20)
    · exact case_exact (fixed_exact 20)
  · simp

theorem contract_encoding_exact : contract_encoding.Exact := by
  refine union_exact ?_ ?_
  · intro c hc
    simp only [List.mem_cons, List.not_mem_nil, or_false] at hc
    rcases hc with rfl | rfl
    · exact case_exact public_key_hash_encoding_exact
    · exact case_exact (add_padding_exact (fixed_exact 20) 1)
  · simp

theorem of_mutez_ofNat {id : Token} {m : ℕ} (hm : m < 2 ^ 63) (q : Qty id) :
    Qty.of_mutez (Int64.ofNat m) = some q ↔ q.amount = m := by
  have hamount : (Int64.ofNat m).toInt = m := Int64.toInt_ofNat_of_lt hm
  have hnonneg : ¬ Int64.ofNat m < 0 := by
    rw [Int64.lt_iff_toInt_lt, hamount]
    simp
  rw [Qty.of_mutez, dif_neg hnonneg, Option.some.injEq, ← Qty.amount_inj]
  unfold Qty.amount
  rw [hamount]
  exact eq_comm

theorem qty_encoding_exact (id : Token) : (qty_encoding id).Exact := by
  refine conv_exact ?_ (n_exact 10)
  intro q m
  have hnonneg := q.amount_nonneg
  have hlt := q.amount_lt
  simp only [Option.some.injEq]
  by_cases hm : m < 2 ^ 63
  · rw [if_pos hm, of_mutez_ofNat hm]
    omega
  · rw [if_neg hm]
    simp only [reduceCtorEq, false_iff]
    omega

theorem z_encoding_exact : z_encoding.Exact := by
  refine conv_exact ?_ (n_exact 10)
  intro z m
  by_cases hz : 0 ≤ z
  · simp only [Option.some.injEq, if_pos hz]
    omega
  · simp only [Option.some.injEq, if_neg hz, reduceCtorEq, iff_false]
    omega

theorem ballot_encoding_exact : ballot_encoding.Exact := by
  refine conv_exact ?_ uint8_exact
  intro a b
  match b with
  | 0 => cases a <;> simp
  | 1 => cases a <;> simp
  | 2 => cases a <;> simp
  | m + 3 => cases a <;> simp

theorem block_header_encoding_exact : block_header_encoding.Exact :=
  conv_inverse_exact (fun _ => rfl) (fun _ => rfl) (pair_exact
      (pair_exact int32_exact (pair_exact uint8_exact (pair_exact (fixed_exact 32)
        (pair_exact int64_exact (pair_exact uint8_exact (pair_exact (fixed_exact 32)
          (pair_exact (dynamic_size_exact (list_variable_exact bytes_exact
            (dynamic_size_visible _))) (fixed_exact 32))))))))
      (pair_exact (pair_exact uint16_exact (pair_exact (fixed_exact 8) (opt_exact (fixed_exact 32))))
        (fixed_exact 64)))

theorem endorsement_contents_encoding_exact : endorsement_contents_encoding.Exact := by
  refine union_exact ?_ ?_
  · intro c hc
    rw [List.mem_singleton] at hc
    subst hc
    exact case_exact int32_exact (fun _ => rfl) (by rintro _ _ ⟨⟩; rfl)
  · simp

theorem inlined_endorsement_encoding_exact : inlined_endorsement_encoding.Exact :=
  conv_variable_inverse_exact (fun _ => rfl) (fun _ => rfl) (pair_variable_exact (fixed_exact 32)
    (pair_variable_exact endorsement_contents_encoding_exact
      (varopt_exact (fixed_exact 64) (fixed_visible (by decide)))))

theorem manager_encoding_exact : manager_encoding.Exact :=
  conv_inverse_exact (fun _ => rfl) (fun _ => rfl)
    (pair_exact public_key_hash_encoding_exact (pair_exact (qty_encoding_exact _)
      (pair_exact z_encoding_exact (pair_exact z_encoding_exact z_encoding_exact))))

/-! Entrypoints on the wire, with their tags. -/

inductive Spelled_entrypoint where
  | default
  | root
  | do_
  | set_delegate
  | remove_delegate
  | named (name : Bytes)
deriving DecidableEq

namespace Spelled_entrypoint

def name : Spelled_entrypoint → Bytes
  | default => default_name
  | root => root_name
  | do_ => do_name
  | set_delegate => set_delegate_name
  | remove_delegate => remove_delegate_name
  | named name => name

def of_name (name : Bytes) : Spelled_entrypoint :=
  if name = default_name then default
  else if name = root_name then root
  else if name = do_name then do_
  else if name = set_delegate_name then set_delegate
  else if name = remove_delegate_name then remove_delegate
  else named name

@[simp] theorem name_of_name (s : Bytes) : (of_name s).name = s := by
  unfold of_name
  split
  · next h => exact h.symm
  · split
    · next h => exact h.symm
    · split
      · next h => exact h.symm
      · split
        · next h => exact h.symm
        · split
          · next h => exact h.symm
          · rfl

/-- The names that have a tag of their own. -/
def builtin_names : List Bytes :=
  [default_name, root_name, do_name, set_delegate_name, remove_delegate_name]

/-- Only a name that has a tag of its own is spelled in two ways. -/
theorem of_name_name_iff (e : Spelled_entrypoint) :
    of_name e.name = e ↔ ∀ s, e = .named s → s ∉ builtin_names := by
  cases e with
  | named s =>
    simp only [name, builtin_names, List.mem_cons, List.not_mem_nil, or_false, named.injEq,
      forall_eq']
    constructor
    · rintro h (rfl | rfl | rfl | rfl | rfl) <;> exact absurd h (by decide)
    · intro h
      simp only [not_or] at h
      simp only [of_name, h, if_false]
  | _ => simp [name, of_name, default_name, root_name, do_name, set_delegate_name,
      remove_delegate_name, operation_encoding.name]

end Spelled_entrypoint

def spelled_entrypoint_encoding : Encoding Spelled_entrypoint :=
  union
    [⟨0, Unit, constant, fun | .default => some () | _ => none, fun _ => .default⟩,
      ⟨1, Unit, constant, fun | .root => some () | _ => none, fun _ => .root⟩,
      ⟨2, Unit, constant, fun | .do_ => some () | _ => none, fun _ => .do_⟩,
      ⟨3, Unit, constant, fun | .set_delegate => some () | _ => none, fun _ => .set_delegate⟩,
      ⟨4, Unit, constant, fun | .remove_delegate => some () | _ => none, fun _ => .remove_delegate⟩,
      ⟨255, Bytes, bounded_string 31, fun | .named s => some s | _ => none, .named⟩]

theorem spelled_entrypoint_encoding_exact : spelled_entrypoint_encoding.Exact := by
  refine union_exact ?_ ?_
  · intro c hc
    simp only [List.mem_cons, List.not_mem_nil, or_false] at hc
    rcases hc with rfl | rfl | rfl | rfl | rfl | rfl
    · exact case_exact constant_exact
    · exact case_exact constant_exact
    · exact case_exact constant_exact
    · exact case_exact constant_exact
    · exact case_exact constant_exact
    · exact case_exact (bounded_string_exact (by decide))
  · simp

/-- An entrypoint is written by its spelling. -/
theorem entrypoint_encoding_factors :
    Factors entrypoint_encoding spelled_entrypoint_encoding
      (fun s => some (Spelled_entrypoint.of_name s)) Spelled_entrypoint.name := by
  refine ⟨fun s => ?_, fun bs => ?_⟩
  · simp only [entrypoint_encoding, union, write_cases, builtin_case, bind_some,
      Spelled_entrypoint.of_name]
    by_cases h0 : s = default_name
    · simp only [h0, if_true]
      rfl
    · simp only [h0, if_false]
      by_cases h1 : s = root_name
      · simp only [h1, if_true]
        rfl
      · simp only [h1, if_false]
        by_cases h2 : s = do_name
        · simp only [h2, if_true]
          rfl
        · simp only [h2, if_false]
          by_cases h3 : s = set_delegate_name
          · simp only [h3, if_true]
            rfl
          · simp only [h3, if_false]
            by_cases h4 : s = remove_delegate_name
            · simp only [h4, if_true]
              rfl
            · simp only [h4, if_false]
              rfl
  · cases bs with
    | nil => rfl
    | cons tag bs =>
      refine read_cases_factors ?_ tag bs
      exact .cons ⟨rfl, fun _ => rfl⟩ (.cons ⟨rfl, fun _ => rfl⟩ (.cons ⟨rfl, fun _ => rfl⟩
        (.cons ⟨rfl, fun _ => rfl⟩ (.cons ⟨rfl, fun _ => rfl⟩ (.cons ⟨rfl, fun _ => rfl⟩ .nil)))))

section Contents

variable [Codecs] {p s : Type}

/-- The header of a manager operation is exact. -/
theorem make_manager_case_exact {mcase : Case (Manager_operation p s)} (h : mcase.Exact)
    (tag : UInt8) : (make_manager_case tag mcase).Exact := by
  refine ⟨pair_exact manager_encoding_exact h.1, ?_⟩
  rintro a ⟨_, x⟩
  cases a with
  | Manager_operation header' operation =>
    simp only [make_manager_case, map_eq_some_iff, Prod.mk.injEq, Manager_operation.injEq, h.2]
    constructor
    · rintro ⟨_, rfl, rfl, rfl⟩
      exact ⟨rfl, rfl⟩
    · rintro ⟨rfl, rfl⟩
      exact ⟨x, rfl, rfl, rfl⟩
  | _ => simp [make_manager_case]

/-- Contents are exact if parameters and scripts are. -/
theorem contents_encoding_exact {parameters : Encoding p} {script : Encoding s}
    (hparameters : parameters.Exact) (hscript : script.Exact) :
    (contents_encoding parameters script).Exact := by
  refine union_exact ?_ ?_
  · intro c hc
    simp only [List.mem_cons, List.not_mem_nil, or_false] at hc
    rcases hc with rfl | rfl | rfl | rfl | rfl | rfl | rfl | rfl | rfl | rfl | rfl | rfl
    · exact case_exact int32_exact
    · exact case_exact (pair_exact int32_exact (fixed_exact 32))
    · exact case_exact (pair_exact (dynamic_size_exact inlined_endorsement_encoding_exact)
        (dynamic_size_exact inlined_endorsement_encoding_exact))
    · exact case_exact (pair_exact (dynamic_size_exact (whole_exact block_header_encoding_exact))
        (dynamic_size_exact (whole_exact block_header_encoding_exact)))
    · exact case_exact (pair_exact (fixed_exact 20) (fixed_exact 20))
    · exact case_exact (pair_exact public_key_hash_encoding_exact (pair_exact int32_exact
        (dynamic_size_exact (list_variable_exact (fixed_exact 32) (fixed_visible (by decide))))))
    · exact case_exact (pair_exact public_key_hash_encoding_exact (pair_exact int32_exact
        (pair_exact (fixed_exact 32) ballot_encoding_exact)))
    · exact make_manager_case_exact (case_exact Codecs.public_key_exact) _
    · exact make_manager_case_exact (case_exact (pair_exact (qty_encoding_exact _)
        (pair_exact contract_encoding_exact hparameters))) _
    · exact make_manager_case_exact (case_exact (pair_exact (qty_encoding_exact _)
        (pair_exact contract_encoding_exact hparameters))) _
    · exact make_manager_case_exact (case_exact (pair_exact (qty_encoding_exact _)
        (pair_exact (opt_exact public_key_hash_encoding_exact) hscript))) _
    · exact make_manager_case_exact (case_exact (opt_exact public_key_hash_encoding_exact)) _
  · simp [endorsement_case, seed_nonce_revelation_case, double_endorsement_evidence_case,
      double_baking_evidence_case, activate_account_case, proposals_case, ballot_case,
      make_manager_case, manager_reveal_case, manager_transaction_case,
      manager_mine_transaction_case, manager_origination_case, manager_delegation_case]

/-! Changing how parameters and scripts are kept. -/

variable {p' s' : Type}

def Manager_operation.map (gp : p → p') (gs : s → s') :
    Manager_operation p s → Manager_operation p' s'
  | .Reveal k => .Reveal k
  | .Transaction amount destination parameters => .Transaction amount destination (gp parameters)
  | .MineTransaction amount destination parameters =>
    .MineTransaction amount destination (gp parameters)
  | .Origination credit delegate script => .Origination credit delegate (gs script)
  | .Delegation delegate => .Delegation delegate

def Manager_operation.traverse (fp : p → Option p') (fs : s → Option s') :
    Manager_operation p s → Option (Manager_operation p' s')
  | .Reveal k => some (.Reveal k)
  | .Transaction amount destination parameters =>
    (fp parameters).map (.Transaction amount destination)
  | .MineTransaction amount destination parameters =>
    (fp parameters).map (.MineTransaction amount destination)
  | .Origination credit delegate script => (fs script).map (.Origination credit delegate)
  | .Delegation delegate => some (.Delegation delegate)

def Contents.map (gp : p → p') (gs : s → s') : Contents p s → Contents p' s'
  | .Endorsement level => .Endorsement level
  | .Seed_nonce_revelation level nonce => .Seed_nonce_revelation level nonce
  | .Double_endorsement_evidence op1 op2 => .Double_endorsement_evidence op1 op2
  | .Double_baking_evidence bh1 bh2 => .Double_baking_evidence bh1 bh2
  | .Activate_account id activation_code => .Activate_account id activation_code
  | .Proposals source period proposals => .Proposals source period proposals
  | .Ballot source period proposal ballot => .Ballot source period proposal ballot
  | .Manager_operation header operation => .Manager_operation header (operation.map gp gs)

def Contents.traverse (fp : p → Option p') (fs : s → Option s') :
    Contents p s → Option (Contents p' s')
  | .Endorsement level => some (.Endorsement level)
  | .Seed_nonce_revelation level nonce => some (.Seed_nonce_revelation level nonce)
  | .Double_endorsement_evidence op1 op2 => some (.Double_endorsement_evidence op1 op2)
  | .Double_baking_evidence bh1 bh2 => some (.Double_baking_evidence bh1 bh2)
  | .Activate_account id activation_code => some (.Activate_account id activation_code)
  | .Proposals source period proposals => some (.Proposals source period proposals)
  | .Ballot source period proposal ballot => some (.Ballot source period proposal ballot)
  | .Manager_operation header operation =>
    (operation.traverse fp fs).map (.Manager_operation header)

/-- Contents are written by their spelling if parameters and scripts are. -/
theorem contents_encoding_factors {parameters : Encoding p} {parameters' : Encoding p'}
    {script : Encoding s} {script' : Encoding s'} {fp : p → Option p'} {gp : p' → p}
    {fs : s → Option s'} {gs : s' → s} (hp : Factors parameters parameters' fp gp)
    (hs : Factors script script' fs gs) :
    Factors (contents_encoding parameters script) (contents_encoding parameters' script')
      (traverse fp fs) (map gp gs) := by
  have htransaction := factors_pair (factors_refl manager_encoding) (factors_pair
    (factors_refl (qty_encoding .tez)) (factors_pair (factors_refl contract_encoding) hp))
  have hmine := factors_pair (factors_refl manager_encoding) (factors_pair
    (factors_refl (qty_encoding .mine)) (factors_pair (factors_refl contract_encoding) hp))
  have horigination := factors_pair (factors_refl manager_encoding) (factors_pair
    (factors_refl (qty_encoding .tez)) (factors_pair
      (factors_refl (opt public_key_hash_encoding)) hs))
  refine ⟨fun a => ?_, fun bs => ?_⟩
  · cases a with
    | Manager_operation header operation =>
      cases operation with
      | Transaction amount destination x =>
        refine (congrArg (Option.map (108 :: ·)) (htransaction.1 (header, amount, destination, x))).trans ?_
        simp only [Contents.traverse, Manager_operation.traverse, bind_some]
        cases fp x <;> rfl
      | MineTransaction amount destination x =>
        refine (congrArg (Option.map (111 :: ·)) (hmine.1 (header, amount, destination, x))).trans ?_
        simp only [Contents.traverse, Manager_operation.traverse, bind_some]
        cases fp x <;> rfl
      | Origination credit delegate x =>
        refine (congrArg (Option.map (109 :: ·)) (horigination.1 (header, credit, delegate, x))).trans ?_
        simp only [Contents.traverse, Manager_operation.traverse, bind_some]
        cases fs x <;> rfl
      | _ => rfl
    | _ => rfl
  · cases bs with
    | nil => rfl
    | cons tag bs =>
      refine read_cases_factors ?_ tag bs
      refine .cons ⟨rfl, fun _ => rfl⟩ (.cons ⟨rfl, fun _ => rfl⟩ (.cons ⟨rfl, fun _ => rfl⟩
        (.cons ⟨rfl, fun _ => rfl⟩ (.cons ⟨rfl, fun _ => rfl⟩ (.cons ⟨rfl, fun _ => rfl⟩
          (.cons ⟨rfl, fun _ => rfl⟩ (.cons ⟨rfl, fun _ => rfl⟩ (.cons ⟨rfl, fun bs => ?_⟩
            (.cons ⟨rfl, fun bs => ?_⟩ (.cons ⟨rfl, fun bs => ?_⟩ (.cons ⟨rfl, fun _ => rfl⟩
              .nil)))))))))))
      · exact (congrArg (Option.map _) (htransaction.2 bs)).trans (map_map _ _ _)
      · exact (congrArg (Option.map _) (hmine.2 bs)).trans (map_map _ _ _)
      · exact (congrArg (Option.map _) (horigination.2 bs)).trans (map_map _ _ _)

/-! Parameters that are there or not, and scripts as their bytes. -/

abbrev Spelled_parameters := Option (Spelled_entrypoint × Bytes)

abbrev Spelled_script := Bytes × Bytes

def spell_parameters (x : Parameters) : Option Spelled_parameters :=
  if is_unit_parameter x.parameters && x.entrypoint == default_name then some none
  else (force_bytes x.parameters).map fun b => some (Spelled_entrypoint.of_name x.entrypoint, b)

def read_parameters : Spelled_parameters → Parameters
  | none => ⟨default_name, unit_parameter⟩
  | some (e, b) => ⟨e.name, .Bytes b⟩

def spell_script (x : Origination_script) : Option Spelled_script :=
  (force_bytes x.code).bind fun code => (force_bytes x.storage).map fun storage => (code, storage)

def read_script (x : Spelled_script) : Origination_script := ⟨.Bytes x.1, .Bytes x.2, none⟩

theorem lazy_expr_encoding_factors :
    Factors lazy_expr_encoding bytes force_bytes Lazy_expr.Bytes :=
  (factors_conv (factors_refl bytes) force_bytes Lazy_expr.Bytes).congr
    (fun x => by cases force_bytes x <;> rfl) fun _ => rfl

def parameters_of : Option (Bytes × Lazy_expr) → Parameters
  | none => ⟨default_name, unit_parameter⟩
  | some (entrypoint, value) => ⟨entrypoint, value⟩

theorem parameters_encoding_factors :
    Factors parameters_encoding (opt (pair spelled_entrypoint_encoding bytes)) spell_parameters
      read_parameters := by
  have h := factors_conv (factors_opt (factors_pair entrypoint_encoding_factors
    lazy_expr_encoding_factors))
    (fun x : Parameters => some (if is_unit_parameter x.parameters && x.entrypoint == default_name
      then none else some (x.entrypoint, x.parameters)))
    parameters_of
  have heq : parameters_encoding = conv
      (fun x : Parameters => some (if is_unit_parameter x.parameters && x.entrypoint == default_name
        then none else some (x.entrypoint, x.parameters)))
      (fun a => some (parameters_of a))
      (opt (pair entrypoint_encoding lazy_expr_encoding)) := by
    unfold parameters_encoding
    congr 1
    funext a
    cases a <;> rfl
  rw [heq]
  refine h.congr (fun x => ?_) (fun b => ?_)
  · simp only [bind_some, spell_parameters]
    by_cases hunit : (is_unit_parameter x.parameters && x.entrypoint == default_name) = true
    · simp only [hunit, if_true]
    · simp only [hunit, Bool.false_eq_true, if_false]
      cases force_bytes x.parameters <;> rfl
  · cases b <;> rfl

theorem script_encoding_factors :
    Factors script_encoding (pair bytes bytes) spell_script read_script := by
  have h := factors_conv (factors_pair lazy_expr_encoding_factors lazy_expr_encoding_factors)
    (fun x : Origination_script => some (x.code, x.storage))
    (fun x => (⟨x.1, x.2, none⟩ : Origination_script))
  exact h.congr (fun _ => rfl) fun _ => rfl

/-! Operations on the wire. -/

abbrev Spelled_contents := Contents Spelled_parameters Spelled_script

def spelled_contents_encoding : Encoding Spelled_contents :=
  contents_encoding (opt (pair spelled_entrypoint_encoding bytes)) (pair bytes bytes)

theorem spelled_contents_encoding_exact : spelled_contents_encoding.Exact :=
  contents_encoding_exact (opt_exact (pair_exact spelled_entrypoint_encoding_exact bytes_exact))
    (pair_exact bytes_exact bytes_exact)

/-- The branch, the contents and the signature. -/
abbrev Spelled_operation := Fixed 32 × List Spelled_contents × Signature

def spelled_encoding : Variable_encoding Spelled_operation :=
  pair_variable (fixed 32) (followed (list_variable spelled_contents_encoding) 64)

/-- On the wire every operation is written in one way only. -/
theorem spelled_encoding_exact : spelled_encoding.Exact :=
  pair_variable_exact (fixed_exact 32) (followed_exact (list_variable_exact
    spelled_contents_encoding_exact (union_visible _)) 64)

def spell_contents : Contents Parameters Origination_script → Option Spelled_contents :=
  Contents.traverse spell_parameters spell_script

def read_contents : Spelled_contents → Contents Parameters Origination_script :=
  Contents.map read_parameters read_script

/-- Every operation is written by its spelling. -/
theorem spelled_contents_factors :
    Factors (contents_encoding parameters_encoding script_encoding) spelled_contents_encoding
      spell_contents read_contents :=
  contents_encoding_factors parameters_encoding_factors script_encoding_factors

variable (o : Packed_operation)

def spell : Option Spelled_operation :=
  (o.contents.list.mapM spell_contents).map fun l => (o.branch, l, o.signature.getD signature_zero)

def read_spelled (w : Spelled_operation) : Option Packed_operation :=
  (of_list (w.2.1.map read_contents)).map fun contents =>
    { branch := w.1, contents, signature := if w.2.2 = signature_zero then none else some w.2.2 }

/-- Writing an operation is choosing how to spell it. -/
theorem to_bytes_eq : to_bytes o = (spell o).bind spelled_encoding.write := by
  simp only [to_bytes, encoding, operation_encoding, protocol_data_encoding, contents_list_encoding,
    conv_variable, pair_variable, followed, list_variable, bind_some, to_list, spell,
    spelled_encoding, write_list_factors spelled_contents_factors]
  cases o.contents.list.mapM spell_contents <;> rfl

/-- Reading an operation is forgetting how it is spelled. -/
theorem of_bytes_eq (bs : Bytes) : of_bytes bs = (spelled_encoding.read bs).bind read_spelled := by
  simp only [of_bytes, encoding, operation_encoding, protocol_data_encoding, contents_list_encoding,
    conv_variable, pair_variable, followed, list_variable, spelled_encoding,
    read_list_factors spelled_contents_factors]
  cases (fixed 32).read bs with
  | none => rfl
  | some r =>
    simp only [bind_some]
    split
    · cases read_list spelled_contents_encoding (List.take (List.length r.2 - 64) r.2).length
        (List.take (List.length r.2 - 64) r.2) with
      | none => rfl
      | some l =>
        simp only [map_some, bind_some, read_spelled]
        cases of_list (l.map read_contents) <;> rfl
    · rfl

/-! Which operations are read back. -/

/-- The parameters of a transaction. -/
def Contents.parameters : Contents p s → Option p
  | .Manager_operation _ (.Transaction _ _ x) => some x
  | .Manager_operation _ (.MineTransaction _ _ x) => some x
  | _ => none

/-- The script of an origination. -/
def Contents.script : Contents p s → Option s
  | .Manager_operation _ (.Origination _ _ x) => some x
  | _ => none

/-- What the list of contents of an operation may be. -/
theorem is_contents_list_iff (l : List (Contents p s)) :
    is_contents_list l = true ↔ l ≠ [] ∧ (l.length = 1 ∨ ∀ c ∈ l, is_manager c = true) := by
  induction l using is_contents_list.induct with
  | case1 => simp [is_contents_list]
  | case2 o => simp [is_contents_list]
  | case3 o o' => simp [is_contents_list]
  | case4 o os hnil hone hrest =>
    have hlen : os.length ≠ 1 := by
      intro hlen
      obtain ⟨o', ho'⟩ := List.length_eq_one_iff.mp hlen
      exact hone o' ho'
    have hne : os ≠ [] := fun h => hnil h
    rw [is_contents_list.eq_4 o os hnil hone, Bool.and_eq_true, hrest]
    simp [hlen, hne, and_comm]

/-- What a lazy expression stands for: an expression, or bytes that are none. -/
def denote : Lazy_expr → Expr ⊕ Bytes
  | .Value v _ => .inl v
  | .Bytes b =>
    match Codecs.expr_of_bytes b with
    | some v => .inl v
    | none => .inr b
  | .Both _ v _ => .inl v

def denote_parameters (x : Parameters) : Bytes × (Expr ⊕ Bytes) :=
  (x.entrypoint, denote x.parameters)

def denote_script (x : Origination_script) : (Expr ⊕ Bytes) × (Expr ⊕ Bytes) × Option Contract :=
  (denote x.code, denote x.storage, x.preorigination)

def denote_contents (c : Contents Parameters Origination_script) :
    Contents (Bytes × (Expr ⊕ Bytes)) ((Expr ⊕ Bytes) × (Expr ⊕ Bytes) × Option Contract) :=
  c.map denote_parameters denote_script

/-- Two operations that only differ in how much of their scripts has been
decoded. -/
def Same (o o' : Packed_operation) : Prop :=
  o.branch = o'.branch ∧
    o.contents.list.map denote_contents = o'.contents.list.map denote_contents ∧
    o.signature = o'.signature

/-- No origination carries an address that was drawn for it. -/
def External : Prop :=
  ∀ c ∈ o.contents.list, ∀ x, c.script = some x → x.preorigination = none

omit [Codecs] in
theorem is_unit_iff (v : Expr) : is_unit v = true ↔ v = .Prim .D_Unit [] [] := by
  constructor
  · intro h
    unfold is_unit at h
    split at h
    · rfl
    · cases h
  · rintro rfl
    rfl

theorem denote_unit_parameter {x : Lazy_expr} (h : is_unit_parameter x = true) :
    denote x = .inl (.Prim .D_Unit [] []) := by
  cases x with
  | Value v _ => rw [denote, (is_unit_iff v).mp h]
  | Both b v hb => rw [denote, (is_unit_iff v).mp h]
  | Bytes b =>
    have hb : b = Codecs.unit_bytes := by simpa [is_unit_parameter] using h
    rw [denote, hb, Codecs.expr_of_to _ _ rfl Codecs.unit_to_bytes]

/-- Writing an expression keeps what it denotes. -/
theorem denote_force_bytes {x : Lazy_expr} {b : Bytes} (h : force_bytes x = some b) :
    denote (.Bytes b) = denote x := by
  cases x with
  | Value v hv => simp only [denote, Codecs.expr_of_to v b hv h]
  | Bytes b' =>
    cases h
    rfl
  | Both b' v hb =>
    cases h
    simp only [denote, hb]

/-- The spelling of parameters keeps what they denote. -/
theorem denote_read_parameters {x : Parameters} {q : Spelled_parameters}
    (h : spell_parameters x = some q) : denote_parameters (read_parameters q) = denote_parameters x := by
  unfold spell_parameters at h
  split at h
  · next hunit =>
    cases h
    rw [Bool.and_eq_true, beq_iff_eq] at hunit
    have hx : denote_parameters x = (default_name, .inl (.Prim .D_Unit [] [])) := by
      rw [denote_parameters, denote_unit_parameter hunit.1, hunit.2]
    rw [hx]
    rfl
  · obtain ⟨b, hb, rfl⟩ := map_eq_some_iff.mp h
    simp only [read_parameters, denote_parameters, Spelled_entrypoint.name_of_name,
      denote_force_bytes hb]

theorem denote_read_script {x : Origination_script} {q : Spelled_script}
    (hx : x.preorigination = none)
    (h : spell_script x = some q) : denote_script (read_script q) = denote_script x := by
  obtain ⟨_, hcode, h⟩ := bind_eq_some_iff.mp h
  obtain ⟨_, hstorage, rfl⟩ := map_eq_some_iff.mp h
  simp only [read_script, denote_script, denote_force_bytes hcode, denote_force_bytes hstorage, hx]

variable {c : Contents Parameters Origination_script}

/-- The spelling of contents keeps what they denote. -/
theorem denote_read_contents {c' : Spelled_contents}
    (hc : ∀ x, c.script = some x → x.preorigination = none) (h : spell_contents c = some c') :
    denote_contents (read_contents c') = denote_contents c := by
  cases c with
  | Manager_operation header operation =>
    obtain ⟨_, hop, rfl⟩ := map_eq_some_iff.mp h
    cases operation with
    | Transaction amount destination x =>
      obtain ⟨q, hq, rfl⟩ := map_eq_some_iff.mp hop
      simp only [read_contents, denote_contents, map, Manager_operation.map,
        denote_read_parameters hq]
    | MineTransaction amount destination x =>
      obtain ⟨q, hq, rfl⟩ := map_eq_some_iff.mp hop
      simp only [read_contents, denote_contents, map, Manager_operation.map,
        denote_read_parameters hq]
    | Origination credit delegate x =>
      obtain ⟨q, hq, rfl⟩ := map_eq_some_iff.mp hop
      simp only [read_contents, denote_contents, map, Manager_operation.map,
        denote_read_script (hc x rfl) hq]
    | Reveal k =>
      cases hop
      rfl
    | Delegation d =>
      cases hop
      rfl
  | _ =>
    cases h
    rfl

theorem is_manager_read_contents {c' : Spelled_contents} (h : spell_contents c = some c') :
    is_manager (read_contents c') = is_manager c := by
  cases c with
  | Manager_operation header operation =>
    obtain ⟨_, _, rfl⟩ := map_eq_some_iff.mp h
    rfl
  | _ =>
    cases h
    rfl

/-- What the spelling keeps of each content it keeps of the list. -/
theorem map_eq_of_spelled {γ : Type} {D : Contents Parameters Origination_script → γ}
    {l : List (Contents Parameters Origination_script)} {l' : List Spelled_contents}
    (h : l.mapM spell_contents = some l')
    (hD : ∀ c ∈ l, ∀ c', spell_contents c = some c' → D (read_contents c') = D c) :
    (l'.map read_contents).map D = l.map D := by
  have h2 := forall₂_of_mapM h
  clear h
  induction h2 with
  | nil => rfl
  | cons hc _ ih =>
    simp only [List.map_cons]
    rw [hD _ List.mem_cons_self _ hc, ih fun c hmem => hD c (List.mem_cons_of_mem _ hmem)]

theorem is_contents_list_congr {l l' : List (Contents p s)}
    (h : l.map is_manager = l'.map is_manager) : is_contents_list l = is_contents_list l' := by
  have hlen : l.length = l'.length := by simpa using congrArg List.length h
  have hmanager : ∀ m : List (Contents p s),
      (∀ c ∈ m, is_manager c = true) ↔ ∀ b ∈ m.map is_manager, b = true := by simp
  rw [Bool.eq_iff_iff, is_contents_list_iff, is_contents_list_iff, hmanager l, hmanager l', h, hlen,
    ← List.length_pos_iff, ← List.length_pos_iff, hlen]

/-- What an operation is written as is read as the same operation, unless its
signature is made of zeros: then it is read as unsigned. -/
theorem read_back_iff {o : Packed_operation} {bs : Bytes} (hexternal : External o)
    (h : to_bytes o = some bs) :
    (∃ o', of_bytes bs = some o' ∧ Same o' o) ↔ o.signature ≠ some signature_zero := by
  rw [to_bytes_eq] at h
  obtain ⟨w, hspell, hwrite⟩ := bind_eq_some_iff.mp h
  obtain ⟨l, hl, rfl⟩ := map_eq_some_iff.mp hspell
  have hvalid : is_contents_list (l.map read_contents) = true := by
    rw [is_contents_list_congr (map_eq_of_spelled hl fun c _ c' => is_manager_read_contents)]
    exact o.contents.valid
  have hsame : (l.map read_contents).map denote_contents = o.contents.list.map denote_contents :=
    map_eq_of_spelled hl fun c hc c' => denote_read_contents (hexternal c hc)
  rw [of_bytes_eq, (spelled_encoding_exact _ _).mpr hwrite, bind_some]
  simp only [read_spelled, of_list, hvalid, dif_pos, map_some, Option.some.injEq,
    exists_eq_left', Same, hsame, true_and]
  cases o.signature with
  | none => simp
  | some signature => simp [eq_comm]

/-! Which byte strings are written again as they were read. -/

/-- The default entrypoint is not given for the unit value, and a name with a
tag of its own is not spelled out. -/
def Canonical_parameters : Spelled_parameters → Prop
  | none => True
  | some (e, b) => ¬ (e.name = default_name ∧ b = Codecs.unit_bytes) ∧
      ∀ s, e = .named s → s ∉ Spelled_entrypoint.builtin_names

/-- Canonical parameters are those that are written as they were read. -/
theorem spell_read_parameters_iff (q : Spelled_parameters) :
    spell_parameters (read_parameters q) = some q ↔ Canonical_parameters q := by
  match q with
  | none => exact iff_of_true rfl trivial
  | some (e, b) =>
    simp only [read_parameters, spell_parameters, is_unit_parameter, Canonical_parameters,
      ← Spelled_entrypoint.of_name_name_iff, force_bytes]
    by_cases hunit : e.name = default_name ∧ b = Codecs.unit_bytes
    · simp [hunit.1, hunit.2]
    · have hcond : (b == Codecs.unit_bytes && e.name == default_name) = false := by
        simpa [Bool.and_eq_false_iff, imp_iff_not_or, and_comm] using hunit
      simp [hcond, hunit]

/-- So are canonical contents. -/
theorem spell_read_contents_iff (c : Spelled_contents) :
    spell_contents (read_contents c) = some c ↔
      ∀ q, c.parameters = some q → Canonical_parameters q := by
  cases c with
  | Manager_operation header operation =>
    cases operation with
    | Transaction amount destination q =>
      simp only [read_contents, spell_contents, map, Manager_operation.map,
        Contents.traverse, Manager_operation.traverse, parameters, Option.some.injEq,
        forall_eq', ← spell_read_parameters_iff, map_map, map_eq_some_iff,
        Function.comp_apply, Manager_operation.injEq, Manager_operation.Transaction.injEq,
        true_and, exists_eq_right]
    | MineTransaction amount destination q =>
      simp only [read_contents, spell_contents, map, Manager_operation.map,
        Contents.traverse, Manager_operation.traverse, parameters, Option.some.injEq,
        forall_eq', ← spell_read_parameters_iff, map_map, map_eq_some_iff,
        Function.comp_apply, Manager_operation.injEq,
        Manager_operation.MineTransaction.injEq, true_and, exists_eq_right]
    | _ => exact iff_of_true rfl (fun q hq => nomatch hq)
  | _ => exact iff_of_true rfl (fun q hq => nomatch hq)

/-- No transaction of the operation that these bytes spell has parameters that
could be spelled otherwise. -/
def Canonical (bs : Bytes) : Prop :=
  ∀ w, spelled_encoding.read bs = some w → ∀ c ∈ w.2.1, ∀ q, c.parameters = some q →
    Canonical_parameters q

/-- Canonical bytes are those that are written again as they were read. -/
theorem rewritten_iff {o : Packed_operation} {bs : Bytes} (h : of_bytes bs = some o) :
    to_bytes o = some bs ↔ Canonical bs := by
  rw [of_bytes_eq] at h
  obtain ⟨⟨_, l, signature⟩, hread, h⟩ := bind_eq_some_iff.mp h
  obtain ⟨contents, hcontents, rfl⟩ := map_eq_some_iff.mp h
  have hlist : contents.list = l.map read_contents := by
    unfold of_list at hcontents
    split at hcontents
    · cases hcontents
      rfl
    · cases hcontents
  have hsignature : (if signature = signature_zero then none else some signature).getD
      signature_zero = signature := by
    split
    · next hzero => exact hzero.symm
    · rfl
  have hcanonical : Canonical bs ↔ ∀ c ∈ l, ∀ q, c.parameters = some q → Canonical_parameters q := by
    simp only [Canonical, hread, Option.some.injEq, forall_eq']
  rw [hcanonical, to_bytes_eq]
  simp only [spell, hlist, hsignature, ← spell_read_contents_iff, ← mapM_map_eq_some_iff]
  constructor
  · intro hwritten
    obtain ⟨w, hw, hwrite⟩ := bind_eq_some_iff.mp hwritten
    obtain ⟨l', hl', rfl⟩ := map_eq_some_iff.mp hw
    have hsame := (spelled_encoding_exact _ _).mpr hwrite
    rw [hread] at hsame
    cases hsame
    exact hl'
  · intro hl
    rw [hl, map_some, bind_some]
    exact (spelled_encoding_exact _ _).mp hread

/-- The hash of an operation is that of its bytes. -/
theorem hash_eq : hash o = (to_bytes o).map Codecs.hash_bytes := by
  simp only [hash, to_bytes, encoding, operation_encoding, conv_variable, pair_variable, fixed,
    bind_some]
  rw [map_map]
  rfl

/-- An operation without drawn addresses is read back from its bytes exactly
when its signature is not made of zeros. Bytes that are read as an operation
are written again exactly when no transaction spells its parameters in one of
the ways that are never written; then the hash made from the operation is that
of the bytes, and only then if no two byte strings have the same hash. -/
theorem operation_bytes_canonical_iff :
    (∀ o bs, External o → to_bytes o = some bs →
      ((∃ o', of_bytes bs = some o' ∧ Same o' o) ↔ o.signature ≠ some signature_zero)) ∧
    ∀ bs o, of_bytes bs = some o →
      (to_bytes o = some bs ↔ Canonical bs) ∧
      (Canonical bs → hash o = some (hash_raw bs)) ∧
      (Function.Injective Codecs.hash_bytes → (hash o = some (hash_raw bs) ↔ Canonical bs)) := by
  refine ⟨fun o bs => read_back_iff, fun bs o h => ?_⟩
  have hiff := rewritten_iff h
  refine ⟨hiff, fun hcanonical => ?_, fun hinjective => ?_⟩
  · rw [hash_eq, hiff.mpr hcanonical]
    rfl
  · rw [← hiff, hash_eq, map_eq_some_iff]
    constructor
    · rintro ⟨bs', hbs', heq⟩
      rw [hbs', hinjective heq]
    · intro hbs
      exact ⟨bs, hbs, rfl⟩

end Contents

/-- Codecs for operations whose scripts are all the unit value. -/
@[reducible]
def unit_codecs : Codecs where
  Public_key := Fixed 32
  public_key := fixed 32
  public_key_exact := fixed_exact 32
  expr_to_bytes e := if is_unit e then some [3, 11] else none
  expr_of_bytes b := if b = [3, 11] then some (.Prim .D_Unit [] []) else none
  expr_of_to e b _ h := by
    simp only [Option.ite_none_right_eq_some, Option.some.injEq] at h
    rw [if_pos h.2.symm, (is_unit_iff e).mp h.1]
  unit_bytes := [3, 11]
  unit_to_bytes := rfl
  Operation_hash := Bytes
  hash_bytes := id

/-- A transfer of nothing to its source, with these bytes for its parameters. -/
def transfer (parameters : Bytes) (signature : Signature) : Bytes :=
  List.replicate 32 0 ++ ([108, 0] ++ List.replicate 20 0 ++ [0, 1, 0, 0, 0] ++
    ([0, 0] ++ List.replicate 20 0) ++ parameters) ++ signature.val

def signature_ones : Signature := ⟨List.replicate 64 1, List.length_replicate⟩

theorem operation_bytes_canonical_transfer :
    let _ := unit_codecs
    ∃ o, of_bytes (transfer [0] signature_ones) = some o ∧
      Canonical (transfer [0] signature_ones) ∧
      hash o = some (hash_raw (transfer [0] signature_ones)) := by
  let _ := unit_codecs
  have h : (of_bytes (transfer [0] signature_ones)).bind to_bytes =
      some (transfer [0] signature_ones) := by decide +kernel
  obtain ⟨o, hread, hwrite⟩ := bind_eq_some_iff.mp h
  have hiff := operation_bytes_canonical_iff.2 _ o hread
  exact ⟨o, hread, hiff.1.mp hwrite, hiff.2.1 (hiff.1.mp hwrite)⟩

/-- The unit value given to the default entrypoint is left out when the
operation is written again, a name with a tag of its own is replaced by its
tag, and a signature made of zeros is lost. -/
theorem operation_bytes_canonical_respelled :
    let _ := unit_codecs
    (of_bytes (transfer [255, 0, 0, 0, 0, 2, 3, 11] signature_ones)).bind to_bytes =
      some (transfer [0] signature_ones) ∧
    (of_bytes (transfer ([255, 255, 4] ++ root_name ++ [0, 0, 0, 2, 3, 11]) signature_ones)).bind
      to_bytes = some (transfer [255, 1, 0, 0, 0, 2, 3, 11] signature_ones) ∧
    (of_bytes (transfer [0] signature_ones)).bind
      (fun o => to_bytes { o with signature := some signature_zero }) =
        some (transfer [0] signature_zero) ∧
    (of_bytes (transfer [0] signature_zero)).map (fun o => o.signature) = some none := by
  decide +kernel

end plexus.operation_encoding
