import Plexus.Frames

/-! What is assumed of the typechecker and the interpreter of scripts. -/

namespace plexus

/-- A script that runs may hand out identifiers of big maps, addresses and
nonces of internal operations, and leaves everything else as it was. -/
structure Script_run (c c' : Context) : Prop where
  ledger : c'.ledger = { c.ledger with
    temporary_big_map := c'.temporary_big_map
    origination_nonce := c'.origination_nonce
    internal_nonce := c'.internal_nonce }
  scripts : c'.scripts = c.scripts
  temporary_big_map : c'.temporary_big_map ≤ c.temporary_big_map
  origination_nonce :
    c'.origination_nonce.map (·.operation_hash) = c.origination_nonce.map (·.operation_hash)

namespace Script_run

variable {c c' c'' : Context}

theorem trans (h : Script_run c c') (h' : Script_run c' c'') : Script_run c c'' where
  ledger := by
    rw [h'.ledger, h.ledger]
  scripts := h'.scripts.trans h.scripts
  temporary_big_map := h'.temporary_big_map.trans h.temporary_big_map
  origination_nonce := h'.origination_nonce.trans h.origination_nonce

end Script_run

/-- The operations scripts emit: they reveal no key, and the address of a new
contract is not the one of an implicit account. -/
def Manager_operation.Emitted : Manager_operation → Prop
  | .Reveal _ => False
  | .Origination _ _ _ (some contract) => contract_repr.is_implicit contract = none
  | _ => True

/-- What the functions on scripts may raise. -/
inductive Script_raised : Exn → Prop where
  | Assert_script : Script_raised .Assert_script

/-- The functions on scripts are charged for what they do, return if there is a
gas limit, raise only exceptions of their own and leave the accounts alone. -/
structure Lawful_environment [Environment] : Prop where
  parse_script_metered : ∀ c script,
    Metered .content Script_raised c (Environment.parse_script c script) fun r => some r.2
  parse_script_run : ∀ {c script r}, (Environment.parse_script c script).outcome = .ok r →
    Script_run c r.2
  collect_big_maps_metered : ∀ c script,
    Metered .content Script_raised c (Environment.collect_big_maps c script) fun r => some r.2
  collect_big_maps_run : ∀ {c script r}, (Environment.collect_big_maps c script).outcome = .ok r →
    Script_run c r.2
  extract_big_map_diff_metered : ∀ c mode script ids,
    Metered .content Script_raised c (Environment.extract_big_map_diff c mode script ids) fun r =>
      some r.2.2
  extract_big_map_diff_run : ∀ {c mode script ids r},
    (Environment.extract_big_map_diff c mode script ids).outcome = .ok r → Script_run c r.2.2
  unparse_data_metered : ∀ c mode storage,
    Metered .content Script_raised c (Environment.unparse_data c mode storage) fun r => some r.2
  unparse_data_run : ∀ {c mode storage r}, (Environment.unparse_data c mode storage).outcome = .ok r →
    Script_run c r.2
  execute_metered : ∀ c mode step_constants script parameter entrypoint,
    Metered .content Script_raised c
      (Environment.execute c mode step_constants script parameter entrypoint) fun r => some r.ctxt
  execute_run : ∀ {c mode step_constants script parameter entrypoint r},
    (Environment.execute c mode step_constants script parameter entrypoint).outcome = .ok r →
      Script_run c r.ctxt
  execute_emits : ∀ {c mode step_constants script parameter entrypoint r},
    (Environment.execute c mode step_constants script parameter entrypoint).outcome = .ok r →
      ∀ op ∈ r.operations, op.operation.Emitted

/-- An environment in which every script is refused and every signature is
accepted. -/
@[reducible] def unscripted_environment : Environment where
  public_key_hash
    | .Ed25519 key => .Ed25519 key
    | .Secp256k1 key => .Secp256k1 key
    | .P256 key => .P256 key
  contract_hash nonce := ⟨nonce.operation_hash.hash + nonce.origination_index⟩
  check_operation _ _ _ _ := true
  check_endorsement _ _ _ _ := true
  check_block_header _ _ _ := true
  block_header_hash header := ⟨header.signature⟩
  proof_of_work_stamp _ := 0
  hash_operation _ := ⟨0⟩
  nonce_hash nonce := nonce.length
  state_hash _ := ⟨List.replicate 32 0, List.length_replicate⟩
  rounds := 1
  operation_hash _ := ⟨0⟩
  public_key_to_b58check _ := ""
  blinded_public_key_hash _ pkh := pkh
  expr_to_bytes _ := none
  expr_of_bytes _ := none
  Ex_script := Empty
  Ex_storage := Empty
  parse_script _ _ := fail .Lazy_script_decode
  collect_big_maps _ _ := fail .Lazy_script_decode
  extract_big_map_diff _ _ _ _ := fail .Lazy_script_decode
  unparse_data _ _ _ := fail .Lazy_script_decode
  execute _ _ _ _ _ _ := fail .Lazy_script_decode

theorem unscripted_environment_lawful : @Lawful_environment unscripted_environment := by
  let _ := unscripted_environment
  exact
    { parse_script_metered := fun _ _ => Metered.fail
      parse_script_run := fun h => absurd h fail_ne_ok
      collect_big_maps_metered := fun _ _ => Metered.fail
      collect_big_maps_run := fun h => absurd h fail_ne_ok
      extract_big_map_diff_metered := fun _ _ _ _ => Metered.fail
      extract_big_map_diff_run := fun h => absurd h fail_ne_ok
      unparse_data_metered := fun _ _ _ => Metered.fail
      unparse_data_run := fun h => absurd h fail_ne_ok
      execute_metered := fun _ _ _ _ _ _ => Metered.fail
      execute_run := fun h => absurd h fail_ne_ok
      execute_emits := fun h => absurd h fail_ne_ok }

end plexus
