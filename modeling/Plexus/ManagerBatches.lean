import Plexus.Atomicity
import Plexus.Genesis

/-! What whole batches of manager operations do to the two tokens. -/

namespace plexus

namespace apply

open Traced (outcome_inv)
open delegate_storage (updated_tez updated_mine)

section

variable [Environment] {c c' : Context} {chain_id : Chain_id} {mode : Unparsing_mode}
  {baker : Public_key_hash} {operation : Operation} {contents_list : List Manager_contents}
  {results : List Manager_contents_result}

/-- Every content is reported with its fee, applied or not. -/
theorem apply_manager_contents_list_rec_fees (henv : Lawful_environment)
    (hclosed : c.storage_space_to_pay = none) {ctxt_result : Option Context}
    (h : (apply_manager_contents_list_rec c mode baker chain_id contents_list).outcome =
      .ok (ctxt_result, results)) :
    results.flatMap (·.balance_updates) =
      contents_list.flatMap (fee_balance_updates baker c.level) := by
  induction contents_list generalizing c ctxt_result results with
  | nil =>
    cases h
    rfl
  | cons op rest ih =>
    unfold apply_manager_contents_list_rec at h
    obtain ⟨⟨ctxt_result1, result, internal⟩, hcontents, h⟩ := outcome_inv h
    cases ctxt_result1 with
    | none =>
      cases h
      simp [mark_skipped, raw_context.current_level, List.flatMap_map]
    | some c1 =>
      obtain ⟨hclosed1, _⟩ := apply_manager_contents_effect henv hclosed hcontents
      have hspent := (apply_manager_contents_metered henv hclosed).returned _ c1 hcontents rfl
      dsimp only at h
      obtain ⟨⟨ctxt_result2, results'⟩, hrest, h⟩ := outcome_inv h
      cases h
      have hfees := ih hclosed1 hrest
      rw [hspent.level] at hfees
      simp [hfees, raw_context.current_level]

/-- From `removing_empty_address` on, a batch takes its fees. Then it is applied
as a whole, or given up, and the fees are all that is left of it. It makes no
token, and destroys the MINE burned for storage only. Its receipts sum up to what
becomes of the balances of every contract. The block pays for the gas, but not for
that of the contents of a batch that is given up. -/
theorem manager_batches_conserve (henv : Lawful_environment)
    (hgate : constants_repr.removing_empty_address ≤ c.level.level) {op : Manager_contents}
    {rest : List Manager_contents}
    (h : (apply_manager_operations c chain_id mode baker operation (op :: rest)).outcome =
      .ok (c', results)) :
    ∃ c1 events, (precheck_manager_contents_list c operation (op :: rest)).outcome = .ok c1 ∧
      tez_of c1 = tez_of c + updated_tez (results.flatMap (·.balance_updates)) ∧
      mine_of c1 = mine_of c + updated_mine (results.flatMap (·.balance_updates)) ∧
      c1.block_gas = c.block_gas -
        consumed (precheck_manager_contents_list c operation (op :: rest)).events ∧
      (Fully_applied results ∧ events = (apply_manager_contents_list_rec c1 mode baker chain_id
          ((op :: rest).map forced_contents)).events ∧
        (Unscripted c → tez_of c' = tez_of c1 + updated_tez (results.flatMap reported) ∧
          mine_of c' = mine_of c1 + updated_mine (results.flatMap reported)) ∨
        Rolled_back results ∧ events = [] ∧ c' = c1) ∧
      total c'.contracts.balance = total c.contracts.balance ∧
      total c'.contracts.mine_balance + c'.mine_fees.amount + burned events =
        total c.contracts.mine_balance + c.mine_fees.amount ∧
      c'.block_gas = c1.block_gas - consumed events ∧ c'.freezer = c.freezer := by
  obtain ⟨c1, hprecheck, h⟩ := outcome_inv h
  have hclosed : c1.storage_space_to_pay = none := by
    obtain ⟨_, hrec, _⟩ := outcome_inv h
    obtain ⟨_, hcontents, _⟩ := outcome_inv hrec
    exact apply_manager_contents_closed hcontents
  have heffect := precheck_manager_contents_list_effect baker c1.level hprecheck
  have hfees : results.flatMap (·.balance_updates) =
      (op :: rest).flatMap (fee_balance_updates baker c1.level) := by
    rcases apply_manager_contents_list_cases h with ⟨_, hrec, _⟩ | ⟨results', hrec, _, rfl⟩
    · rw [apply_manager_contents_list_rec_fees henv hclosed hrec, List.flatMap_map]
      rfl
    · rw [mark_backtracked_eq, List.flatMap_map]
      exact (apply_manager_contents_list_rec_fees henv hclosed hrec).trans (List.flatMap_map ..)
  rw [← hfees] at heffect
  have htez := heffect.total_tez hgate
  have hmine := heffect.total_mine hgate
  have hfreezer : c1.freezer = c.freezer := congrArg (·.freezer) heffect.surroundings
  have hmetered : Metered .batch (fun _ => True) c _ some :=
    precheck_manager_contents_list_metered c operation (op :: rest)
  have hgas := (hmetered.returned _ c1 hprecheck rfl).block_gas
  obtain ⟨_, ⟨c2, hrec, rfl, happlied⟩ | ⟨rfl, hback⟩⟩ :=
    apply_manager_contents_list_results henv hclosed h
  · obtain ⟨_, hspent, hbatch⟩ := apply_manager_contents_list_applied henv hclosed hrec
    have hgate1 := hgate
    rw [← heffect.level] at hgate1
    have hconserved := hbatch.conserved hgate1
    refine ⟨c1, _, hprecheck, heffect.tez_eq hgate, heffect.mine_eq hgate, hgas,
      .inl ⟨happlied, rfl, fun hunscripted => ?_⟩, ?_, ?_, hspent.block_gas,
      hconserved.freezer.trans hfreezer⟩
    · have hmoved := hbatch.reported hgate1 (block_run_unscripted heffect.run hunscripted)
      exact ⟨hmoved.tez_eq, hmoved.mine_eq⟩
    · rw [hconserved.tez_eq, htez, add_zero]
    · rw [hconserved.mine_eq, hconserved.mine_fees]
      omega
  · exact ⟨c', [], hprecheck, heffect.tez_eq hgate, heffect.mine_eq hgate, hgas,
      .inr ⟨hback, rfl, rfl⟩, htez, (add_zero _).trans hmine, (sub_zero _).symm, hfreezer⟩

end

theorem manager_batches_conserve_transfer :
    let _ := unscripted_environment
    let op : Manager_contents := ⟨.Ed25519 0, ⟨5, by decide⟩, 1, .Transaction ⟨3, by decide⟩
      (.Value (.Int 0)) "default" (contract_repr.implicit_contract (.Ed25519 1)), 20000, 300⟩
    ∃ c c' results, (apply_manager_operations c ⟨0⟩ .Optimized (.Ed25519 0)
        ⟨⟨0⟩, .Manager_operations op [], some 0⟩ [op]).outcome = .ok (c', results) ∧
      c'.freezer = c.freezer := by
  intro _ op
  have hreturns : (do
      let c ← init_storage.prepare_first_block init_storage.single_delegate 58983 0 0
      let _ ← apply_manager_operations c ⟨0⟩ .Optimized (.Ed25519 0)
        ⟨⟨0⟩, .Manager_operations op [], some 0⟩ [op]
      pure (decide (constants_repr.removing_empty_address ≤ c.level.level)) :
      Carbonated Bool).outcome.returns id = true := by
    decide +kernel
  simp only [Traced.returns_bind_iff, Traced.returns_pure, id_eq, decide_eq_true_eq] at hreturns
  obtain ⟨c, _, ⟨c', results⟩, hbatch, hgate⟩ := hreturns
  obtain ⟨_, _, _, _, _, _, _, _, _, _, hfreezer⟩ :=
    manager_batches_conserve unscripted_environment_lawful hgate hbatch
  exact ⟨c, c', results, hbatch, hfreezer⟩

end apply

end plexus
