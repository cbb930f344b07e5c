import Plexus.Transfers

/-! The genesis block is made by a run of calls on accounts, from a context
without any, and its seeds, snapshots and votes are set up besides. -/

namespace plexus

open bootstrap_storage Traced contract_storage


namespace init_storage

/-- The context in which the first account is created. -/
structure Blank (param : Parameters) (level : Raw_level) (c : Context) : Prop where
  contracts : c.contracts = { Contracts.empty with global_counter := some 0 }
  code : c.scripts.code = Store.empty
  rolls : c.rolls = { Rolls.empty with next := some roll_repr.first }
  freezer : c.freezer = Freezer.empty
  constants : c.constants.fixed = param.constants.fixed
  first_level : c.first_level = level
  level : c.level = level_repr.from_raw level param.constants.blocks_per_cycle
    param.constants.blocks_per_voting_period param.constants.blocks_per_commitment level

variable [Environment] {freezes : Context → Public_key_hash → Prop} {originates : Contract → Prop}
  {c c' : Context}

theorem init_account_run {account : Bootstrap_account}
    (h : (init_account c account).outcome = .ok c') :
    Ledger_run freezes originates c c' ∧ c'.surroundings = c.surroundings := by
  obtain ⟨c1, hcredit, h⟩ := outcome_inv h
  have hrun1 : Ledger_run freezes originates c c1 := .single (.credit _ _ _ hcredit)
  have hspent := credit_spec.within.returned _ _ hcredit rfl
  have hsurroundings := hspent.surroundings
  cases hkey : account.public_key with
  | none =>
    rw [hkey] at h
    cases h
    exact ⟨hrun1, hsurroundings⟩
  | some public_key =>
    rw [hkey] at h
    obtain ⟨c2, hreveal, h⟩ := outcome_inv h
    rw [outcome_monadLift] at hreveal
    have hrun2 : Ledger_run freezes originates c c2 :=
      hrun1.tail (.reveal_manager_key _ public_key hreveal)
    obtain ⟨_, rfl⟩ := reveal_manager_key_spec.of_ok hreveal
    split at h
    · cases h
      exact ⟨hrun2, hsurroundings⟩
    · rw [outcome_monadLift] at h
      exact ⟨hrun2.tail (.set _ _ h),
        (delegate_storage.set_undelegated h).same_meter.surroundings.trans hsurroundings⟩

theorem typecheck_run (henv : Lawful_environment) {script : Script}
    {r : (Script × Option Big_map_diff) × Context} (h : (typecheck c script).outcome = .ok r) :
    Script_run c r.2 ∧ r.2.surroundings = c.surroundings := by
  obtain ⟨⟨_, c1⟩, hparse, h⟩ := outcome_inv h
  obtain ⟨⟨_, _, c2⟩, hextract, h⟩ := outcome_inv h
  obtain ⟨⟨_, c3⟩, hunparse, h⟩ := outcome_inv h
  cases h
  have hspent1 := (henv.parse_script_metered _ _).returned _ c1 hparse rfl
  have hspent2 := (henv.extract_big_map_diff_metered _ _ _ _).returned _ c2 hextract rfl
  have hspent3 := (henv.unparse_data_metered _ _ _).returned _ c3 hunparse rfl
  constructor
  · exact ((henv.parse_script_run hparse).trans (henv.extract_big_map_diff_run hextract)).trans
      (henv.unparse_data_run hunparse)
  · rw [hspent3.surroundings, hspent2.surroundings, hspent1.surroundings]

theorem init_contract_run (henv : Lawful_environment)
    (horiginates : ∀ hash, originates (.Originated hash)) {bootstrap_contract : Bootstrap_contract}
    (h : (init_contract c bootstrap_contract).outcome = .ok c') :
    Ledger_run freezes originates c c' ∧ c'.surroundings = c.surroundings := by
  obtain ⟨⟨c1, _⟩, hfresh, h⟩ := outcome_inv h
  obtain ⟨⟨_, c2⟩, htypecheck, horiginate⟩ := outcome_inv h
  obtain ⟨_, _, ⟨⟩⟩ := fresh_contract_from_current_nonce_spec.of_ok hfresh
  obtain ⟨hrun, hsurroundings⟩ := typecheck_run henv htypecheck
  have hsame : Same_accounts c c2 := by
    refine .trans ?_ (.of_books_eq (Context.books_eq_of_script_run hrun))
    exact ⟨rfl, rfl, rfl, rfl, rfl, rfl, rfl⟩
  constructor
  · exact .head (.same hsame) (.single (.originate _ _ _ _ _ (horiginates _) horiginate))
  · rw [(originate_spec.within.returned c' c' horiginate rfl).surroundings, hsurroundings]
    rfl

/-- Every account and every contract of the parameters is set up by a run, and
then the ramp-up. -/
theorem bootstrap_run (freezes : Context → Public_key_hash → Prop) (originates : Contract → Prop)
    (henv : Lawful_environment) (horiginates : ∀ hash, originates (.Originated hash))
    {ramp_up_cycles no_reward_cycles : Option Nat} {accounts : List Bootstrap_account}
    {contracts : List Bootstrap_contract}
    (h : (init c ramp_up_cycles no_reward_cycles accounts contracts).outcome = .ok c') :
    ∃ c1, Ledger_run freezes originates c c1 ∧ c1.surroundings = c.surroundings ∧
      Ramped c1 c' := by
  obtain ⟨c1, haccounts, h⟩ := outcome_inv h
  obtain ⟨c2, hcontracts, h⟩ := outcome_inv h
  obtain ⟨c3, hno_reward, hramp_up⟩ := outcome_inv h
  have hnonce : Ledger_run freezes originates c (raw_context.init_origination_nonce c
      (Environment.operation_hash [seed_repr.bytes_of_string "Un festival de GADT."])) :=
    .single (.same ⟨rfl, rfl, rfl, rfl, rfl, rfl, rfl⟩)
  have htrans : ∀ {c1 c2}, Ledger_run freezes originates c1 c2 ∧ c2.surroundings = c1.surroundings →
      Ledger_run freezes originates c c1 ∧ c1.surroundings = c.surroundings →
      Ledger_run freezes originates c c2 ∧ c2.surroundings = c.surroundings :=
    fun h h' => ⟨h'.1.trans h.1, h.2.trans h'.2⟩
  have hrun1 := Traced.foldlM_preserves (fun _ _ _ hround => htrans (init_account_run hround))
    haccounts ⟨hnonce, rfl⟩
  obtain ⟨hrun2, hsurroundings⟩ := Traced.foldlM_preserves
    (fun _ _ _ hround => htrans (init_contract_run henv horiginates hround)) hcontracts hrun1
  exact ⟨c2, hrun2, hsurroundings, (init_no_reward_cycles_ramped hno_reward).trans
    (init_ramp_up_cycles_ramped hramp_up)⟩

variable {param : Parameters} {level : Raw_level} {timestamp fitness : Int64}

/-- Seeds, accounts, snapshots and votes of the genesis block are set up one
after the other, and nothing else writes them. -/
theorem prepare_first_block_success (henv : Lawful_environment)
    (h : (prepare_first_block param level timestamp fitness).outcome = .ok c) :
    ∃ c1 c2 c3 c4 c5,
      (c1.cycles = Cycles.empty ∧ c1.votes = Votes.empty ∧ c1.constants = param.constants ∧
        c1.first_level = level ∧ c1.level = level_storage.from_raw c1 level) ∧
      seed_storage.init c1 = .ok c2 ∧
      (∃ c0, Blank param level c0 ∧ ∀ freezes originates,
        (∀ hash, originates (.Originated hash)) → Ledger_run freezes originates c0 c3) ∧
      (c3.cycles = c2.cycles ∧ c3.votes = c2.votes ∧ c3.constants.fixed = c2.constants.fixed ∧
        c3.first_level = c2.first_level ∧ c3.level = c2.level) ∧
      roll_storage.init_first_cycles c3 = .ok c4 ∧
      vote_storage.init c4 = .ok c5 ∧
      vote_storage.freeze_listings { c5 with block_priority := some 0 } = .ok c := by
  obtain ⟨c1, hcommitments, h⟩ := outcome_inv h
  obtain ⟨c2, hrolls, h⟩ := outcome_inv h
  obtain ⟨c3, hseed, h⟩ := outcome_inv h
  obtain ⟨c4, hcontracts, h⟩ := outcome_inv h
  obtain ⟨c5, hbootstrap, h⟩ := outcome_inv h
  obtain ⟨c6, hcycles, h⟩ := outcome_inv h
  obtain ⟨c7, hvote, h⟩ := outcome_inv h
  obtain ⟨c8, hpriority, hlistings⟩ := outcome_inv h
  have hcommitted := commitment_storage.init_only hcommitments
  have hsame3 := Same_accounts.of_cycles_only ((seed_storage.init_only hseed).of_part seeds_part)
  rw [outcome_monadLift, Single_data_storage.init_eq_ok_iff] at hpriority
  rw [outcome_monadLift, roll_storage.init, Single_data_storage.init_eq_ok_iff] at hrolls
  rw [outcome_monadLift, contract_storage.init] at hcontracts
  obtain ⟨c9, hcounter, hbig_map⟩ := Result.bind_inv hcontracts
  rw [Single_data_storage.init_eq_ok_iff] at hcounter hbig_map
  obtain ⟨_, rfl⟩ := hpriority
  obtain ⟨_, rfl⟩ := hrolls
  obtain ⟨_, rfl⟩ := hcounter
  obtain ⟨_, hc4⟩ := hbig_map
  refine ⟨_, c3, c5, c6, c7, ?_, hseed, ⟨c4, ?_, fun freezes originates horiginates => ?_⟩, ?_,
    hcycles, hvote, hlistings⟩
  · rw [hcommitted]
    exact ⟨rfl, rfl, rfl, rfl, rfl⟩
  · rw [hcommitted] at hsame3
    subst hc4
    constructor
    · exact congrArg (fun contracts : Contracts => { contracts with global_counter := some 0 })
        hsame3.contracts
    · exact hsame3.code
    · exact hsame3.rolls
    · exact hsame3.freezer
    · exact hsame3.constants
    · exact hsame3.first_level
    · exact hsame3.level
  · obtain ⟨c10, hrun, _, hramped⟩ := bootstrap_run freezes originates henv horiginates hbootstrap
    exact hrun.tail (.same hramped.same_accounts)
  · obtain ⟨c10, _, hsurroundings, hramped⟩ := bootstrap_run
      (fun _ _ => True) (fun _ => True) henv (fun _ => trivial) hbootstrap
    have honly := hramped.only
    subst hc4
    refine ⟨?_, ?_, ?_, ?_, ?_⟩
    · rw [honly]
      exact congrArg (·.cycles) hsurroundings
    · rw [honly]
      exact congrArg (·.votes) hsurroundings
    · exact hramped.fixed.trans (congrArg (·.constants.fixed) hsurroundings)
    · rw [honly]
      exact congrArg (·.first_level) hsurroundings
    · rw [honly]
      exact congrArg (·.level) hsurroundings

/-- Everything in the genesis block comes from a run of calls that freezes
nothing. -/
theorem genesis_run (freezes : Context → Public_key_hash → Prop) (originates : Contract → Prop)
    (henv : Lawful_environment) (horiginates : ∀ hash, originates (.Originated hash))
    (h : (prepare_first_block param level timestamp fitness).outcome = .ok c) :
    ∃ c0, Blank param level c0 ∧ Ledger_run freezes originates c0 c := by
  obtain ⟨c1, c2, c3, c4, c5, _, _, ⟨c0, hblank, hrun⟩, _, hcycles, hvote, hlistings⟩ :=
    prepare_first_block_success henv h
  refine ⟨c0, hblank, (hrun freezes originates horiginates).tail (.same ?_)⟩
  have hsame5 := (Same_accounts.of_cycles_only
    ((roll_storage.init_first_cycles_only hcycles).of_part snapshots_part)).trans
    (.of_votes_only (vote_storage.init_only hvote))
  have hsame6 : Same_accounts c5 { c5 with block_priority := some 0 } :=
    ⟨rfl, rfl, rfl, rfl, rfl, rfl, rfl⟩
  exact (hsame5.trans hsame6).trans (.of_votes_only (vote_storage.freeze_listings_only hlistings))

/-- A chain with one delegate, which has two rolls. -/
def single_delegate : Parameters where
  bootstrap_accounts :=
    [{ public_key_hash := .Ed25519 0
       public_key := some (.Ed25519 0)
       amount := ⟨10, by decide⟩
       mine_amount := ⟨2000000000000, by decide⟩ }]
  bootstrap_contracts := []
  commitments := []
  constants := { default_parameters.constants_mainnet with preserved_cycles := 1 }
  security_deposit_ramp_up_cycles := none
  no_reward_cycles := none

end init_storage

end plexus
