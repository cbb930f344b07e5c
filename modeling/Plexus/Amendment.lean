import Mathlib.Algebra.BigOperators.ModEq
import Plexus.Chains

/-! The amendment procedure: what is stored in each kind of voting period. -/

namespace plexus

open Option Finset Store Int32 Int

open Single_data_storage (init_eq_ok_iff set_eq_ok_iff get_eq_ok_iff)
open Result (bind_inv)

variable {c c' : Context}

namespace vote_storage

variable {listings : Store Public_key_hash Int32}

theorem keys_eq_of_counts {counts : Store Public_key_hash Nat}
    (h : ∀ delegate, listings.lookup delegate = (counts.lookup delegate).map Int32.ofNat) :
    listings.keys = counts.keys := by
  ext delegate
  rw [listings.mem_keys, counts.mem_keys, h, isSome_map]

/-- The size is the sum of the weights. -/
theorem Weighed.size_eq {size : Int32} (h : Weighed listings size) :
    size = ofInt (listings.sum fun _ weight => weight.toInt) := by
  obtain ⟨counts, hlookup, _, hsize⟩ := h
  have hsum : (listings.sum fun _ weight => weight.toInt) ≡
      ((counts.sum fun _ n => n : Nat) : ℤ) [ZMOD 2 ^ 32] := by
    rw [sum_natCast]
    unfold Store.sum
    rw [keys_eq_of_counts hlookup]
    apply Int.ModEq.sum
    intro delegate _
    rw [hlookup]
    cases counts.lookup delegate with
    | none => rfl
    | some n =>
      change (Int32.ofNat n).toInt % 2 ^ 32 = (n : ℤ) % 2 ^ 32
      rw [toInt_ofNat']
      exact bmod_emod
  apply toInt_inj.mp
  rw [hsize, toInt_ofInt, toInt_ofNat', ← emod_bmod,
    ← emod_bmod (listings.sum fun _ weight => weight.toInt)]
  exact congrArg (fun x => bmod x Int32.size) hsum.symm

/-- Unless the count of rolls overflows, weights and size are exact. -/
theorem Weighed.exact {size : Int32} (h : Weighed listings size) (hnonneg : 0 ≤ size) :
    (∀ d weight, listings.lookup d = some weight → 0 ≤ weight.toInt) ∧
      size.toInt = listings.sum fun _ weight => weight.toInt := by
  obtain ⟨counts, hlookup, hlt, hsize⟩ := h
  have htotal : (counts.sum fun _ n => n) < 2 ^ 31 := by
    have hsize32 : Int32.size = 4294967296 := rfl
    rw [hsize, le_iff_toInt_le, toInt_ofNat', hsize32, bmod_def] at hnonneg
    have hzero : (0 : Int32).toInt = 0 := rfl
    split at hnonneg <;> omega
  have hle d n (hn : counts.lookup d = some n) : n < 2 ^ 31 := by
    have hmem : d ∈ counts.keys := by simp [counts.mem_keys, hn]
    have hterm := single_le_sum (f := fun d => (counts.lookup d).elim 0 fun n => n)
      (fun _ _ => Nat.zero_le _) hmem
    rw [hn] at hterm
    exact lt_of_le_of_lt hterm htotal
  constructor
  · intro d weight hweight
    rw [hlookup, map_eq_some_iff] at hweight
    obtain ⟨n, hn, rfl⟩ := hweight
    rw [Int32.toInt_ofNat_of_lt (hle d n hn)]
    exact natCast_nonneg n
  · rw [hsize, Int32.toInt_ofNat_of_lt htotal, sum_natCast]
    unfold Store.sum
    rw [keys_eq_of_counts hlookup]
    apply sum_congr rfl
    intro d _
    rw [hlookup]
    cases hn : counts.lookup d with
    | none => rfl
    | some n => exact (Int32.toInt_ofNat_of_lt (hle d n hn)).symm

end vote_storage

variable {kind : Voting_period_kind}

namespace amendment

open vote_storage

/-- What is stored in a voting period. -/
structure Amendment (kind : Voting_period_kind) (v : Votes) : Prop where
  kind_eq : v.current_period_kind = some kind
  proposal : v.current_proposal.isSome ↔ kind ≠ .Proposal
  listed : v.listings_size.isSome ↔ kind ≠ .Testing
  weighed : ∀ size, v.listings_size = some size → Weighed v.listings size
  unlisted : kind = .Testing → v.listings = Store.empty
  no_ballots : kind ≠ .Testing_vote → kind ≠ .Promotion_vote → v.ballots = Store.empty
  no_proposals : kind ≠ .Proposal → v.proposals = ∅ ∧ v.proposals_count = Store.empty
  voters : ∀ d, (v.ballots.lookup d).isSome → (v.listings.lookup d).isSome
  proposers : ∀ p d, (p, d) ∈ v.proposals → (v.listings.lookup d).isSome
  counters : ∀ d, (v.proposals_count.lookup d).isSome → (v.listings.lookup d).isSome
  few : ∀ d n, v.proposals_count.lookup d = some n → n ≤ constants_repr.max_proposals_per_delegate
  counted : ∀ d, (v.proposals.filter (·.2 = d)).card ≤ (v.proposals_count.lookup d).getD 0

/-! The end of a voting period. -/

/-- Every kind of period leaves what the next one starts from. -/
theorem Amendment.period_step {v : Votes} (h : Amendment kind c.votes) (hstep : Period_step c v) :
    ∃ kind', Amendment kind' v := by
  have hkind_of {k} (hk : c.votes.current_period_kind = some k) : kind = k := by
    rw [h.kind_eq] at hk
    exact Option.some.inj hk
  have hweighed_of {listings size} {w : Votes} (hweighed : Weighed listings size)
      (hlistings : w.listings = listings) (hsize : w.listings_size = some size) : ∀ s,
      w.listings_size = some s → Weighed w.listings s := by
    intro s hs
    rw [hsize] at hs
    cases hs
    rw [hlistings]
    exact hweighed
  have hvoters : c.votes.ballots = Store.empty → ∀ (listings : Store Public_key_hash Int32) d,
      (c.votes.ballots.lookup d).isSome → (listings.lookup d).isSome := by
    intro hnone listings d hd
    rw [hnone] at hd
    cases hd
  have hproposers : kind ≠ .Proposal → ∀ listings : Store Public_key_hash Int32,
      (∀ p d, (p, d) ∈ c.votes.proposals → (listings.lookup d).isSome) ∧
      ∀ d, (c.votes.proposals_count.lookup d).isSome → (listings.lookup d).isSome := by
    intro hne listings
    obtain ⟨hproposals, hcounts⟩ := h.no_proposals hne
    rw [hproposals, hcounts]
    exact ⟨by simp, by simp⟩
  cases hstep with
  | no_winner hkind hweighed =>
    cases hkind_of hkind
    have hnone := h.no_ballots (by simp) (by simp)
    exact ⟨.Proposal, hkind, h.proposal, by simp, hweighed_of hweighed rfl rfl, by simp,
      fun _ _ => hnone, by simp, hvoters hnone _, by simp, by simp, by simp, by simp⟩
  | winner hkind hweighed =>
    cases hkind_of hkind
    have hnone := h.no_ballots (by simp) (by simp)
    exact ⟨.Testing_vote, rfl, by simp, by simp, hweighed_of hweighed rfl rfl, by simp,
      by simp, fun _ => ⟨rfl, rfl⟩, hvoters hnone _, by simp, by simp, by simp, by simp⟩
  | approved hkind _ =>
    cases hkind_of hkind
    obtain ⟨hproposals, hcounters⟩ := hproposers (by simp) Store.empty
    refine ⟨.Testing, rfl, ?_, by simp, by simp, by simp, by simp, fun _ => h.no_proposals (by simp),
      by simp, hproposals, hcounters, h.few, h.counted⟩
    exact iff_of_true (h.proposal.mpr (by simp)) (by simp)
  | @tested listings _ hkind hweighed =>
    cases hkind_of hkind
    obtain ⟨hproposals, hcounters⟩ := hproposers (by simp) listings
    refine ⟨.Promotion_vote, rfl, ?_, by simp, hweighed_of hweighed rfl rfl, by simp, by simp,
      fun _ => h.no_proposals (by simp), hvoters (h.no_ballots (by simp) (by simp)) _, hproposals,
      hcounters, h.few, h.counted⟩
    exact iff_of_true (h.proposal.mpr (by simp)) (by simp)
  | @concluded _ _ listings _ hkind _ hweighed =>
    have hne : kind ≠ .Proposal := by
      rcases hkind with hkind | hkind <;> cases hkind_of hkind <;> simp
    obtain ⟨hproposals, hcounters⟩ := hproposers hne listings
    exact ⟨.Proposal, rfl, by simp, by simp, hweighed_of hweighed rfl rfl, by simp, by simp,
      by simp, by simp, hproposals, hcounters, h.few, h.counted⟩

/-! Proposals and ballots. -/

theorem record_proposal_votes (c : Context) (p : Nat) (d : Public_key_hash) :
    (record_proposal c p d).votes = { c.votes with
      proposals_count := c.votes.proposals_count.put d
        (some ((c.votes.proposals_count.lookup d).getD 0 + 1))
      proposals := insert (p, d) c.votes.proposals } := by
  rw [← recorded_count_eq]
  rfl

variable {d : Public_key_hash}

/-- One proposal of a delegate that has not made too many. -/
theorem Amendment.record_proposal (h : Amendment .Proposal c.votes)
    (hlisted : (c.votes.listings.lookup d).isSome)
    (hfew : (c.votes.proposals_count.lookup d).getD 0 < constants_repr.max_proposals_per_delegate)
    (p : Nat) : Amendment .Proposal (record_proposal c p d).votes := by
  rw [record_proposal_votes]
  refine ⟨h.kind_eq, h.proposal, h.listed, h.weighed, h.unlisted, h.no_ballots, by simp, h.voters,
    ?_, ?_, ?_, ?_⟩
  · intro p' d' hmem
    rw [mem_insert] at hmem
    rcases hmem with heq | hmem
    · cases heq
      exact hlisted
    · exact h.proposers p' d' hmem
  · intro d' hd'
    by_cases hd : d' = d
    · rw [hd]
      exact hlisted
    · rw [lookup_put_ne _ hd] at hd'
      exact h.counters d' hd'
  · intro d' n hn
    by_cases hd : d' = d
    · rw [hd, lookup_put_self] at hn
      cases hn
      omega
    · rw [lookup_put_ne _ hd] at hn
      exact h.few d' n hn
  · intro d'
    have hcounted := h.counted d'
    by_cases hd : d' = d
    · have hcard := card_insert_le (p, d) (c.votes.proposals.filter (·.2 = d'))
      rw [hd, lookup_put_self, getD_some, filter_insert, if_pos rfl]
      rw [hd] at hcounted hcard
      omega
    · rw [lookup_put_ne _ hd, filter_insert, if_neg (Ne.symm hd)]
      exact hcounted

/-- Proposals keep the invariant. -/
theorem Amendment.record_proposals {proposals : List Nat} (h : Amendment kind c.votes)
    (hrecord : amendment.record_proposals c d proposals = .ok c') : Amendment kind c'.votes := by
  obtain ⟨hkind, hlisted, hlength, rfl⟩ :=
    (record_proposals_spec (R := fun _ => True) fun _ => trivial).of_ok hrecord
  clear hrecord
  have heq : kind = .Proposal := Option.some.inj (h.kind_eq.symm.trans hkind)
  subst heq
  induction proposals generalizing c with
  | nil => exact h
  | cons p proposals ih =>
    rw [List.length_cons] at hlength
    refine ih hkind hlisted ?_ (h.record_proposal hlisted (by omega) p)
    rw [record_proposal_votes, lookup_put_self, getD_some]
    omega

/-- So does a ballot. -/
theorem Amendment.record_ballot {proposal : Nat} {ballot : Ballot} (h : Amendment kind c.votes)
    (hrecord : amendment.record_ballot c d proposal ballot = .ok c') : Amendment kind c'.votes := by
  obtain ⟨hkind, hlisted, rfl⟩ := record_ballot_spec.of_ok hrecord
  rw [h.kind_eq, Option.some.injEq, Option.some.injEq] at hkind
  refine ⟨h.kind_eq, h.proposal, h.listed, h.weighed, h.unlisted, ?_, h.no_proposals, ?_,
    h.proposers, h.counters, h.few, h.counted⟩
  · rcases hkind with rfl | rfl <;> simp
  · intro d' hd'
    by_cases hd : d' = d
    · rw [hd]
      exact hlisted
    · apply h.voters d'
      dsimp only [Context.with_votes] at hd'
      rw [lookup_put_ne _ hd] at hd'
      exact hd'

end amendment

/-! Whole chains. -/

namespace main

open amendment

variable [Environment] {c c' : Context}

/-- What the two operations that vote preserve is preserved by all. -/
theorem operation_votes {P : Votes → Prop} {contents : Contents_list}
    {result : Contents_result_list} (hstep : apply.Operation_step c c' contents result)
    (hproposals : ∀ c0 c1 source proposals, record_proposals c0 source proposals = .ok c1 →
      P c0.votes → P c1.votes)
    (hballot : ∀ c0 c1 source proposal ballot, record_ballot c0 source proposal ballot = .ok c1 →
      P c0.votes → P c1.votes) (h : P c.votes) : P c'.votes := by
  have hsame : c'.votes = c.votes → P c'.votes := fun hvotes => by rwa [hvotes]
  have hrun (c0 c1 : Context) (h0 : c0.elsewhere = c.elsewhere) (h1 : c'.elsewhere = c1.elsewhere)
      (hP : (P c0.votes → P c1.votes)) : P c'.votes := by
    have hvotes0 : c0.votes = c.votes := congrArg (·.votes) h0
    have hvotes1 : c'.votes = c1.votes := congrArg (·.votes) h1
    rw [hvotes0] at hP
    rw [hvotes1]
    exact hP h
  cases hstep with
  | endorsement _ heq => exact hsame (congrArg (·.votes) heq)
  | seed_nonce_revelation h0 hreveal heq =>
    rw [nonce_storage.reveal_only hreveal] at heq
    exact hrun _ _ h0 heq id
  | proposals h0 hrecord heq => exact hrun _ _ h0 heq (hproposals _ _ _ _ hrecord)
  | ballot h0 hrecord heq => exact hrun _ _ h0 heq (hballot _ _ _ _ _ hrecord)
  | other _ heq => exact hsame (congrArg (·.votes) heq)

/-- So does every operation. -/
theorem operation_amendment {contents : Contents_list} {result : Contents_result_list}
    (hstep : apply.Operation_step c c' contents result) (h : Amendment kind c.votes) :
    Amendment kind c'.votes :=
  operation_votes hstep (fun _ _ _ _ hrecord h => h.record_proposals hrecord)
    (fun _ _ _ _ _ hrecord h => h.record_ballot hrecord) h

/-- The end of a block may begin the next period. -/
theorem finalized_amendment (hfinalized : Finalized c c') (h : Amendment kind c.votes) :
    ∃ kind', Amendment kind' c'.votes := by
  obtain ⟨_, _, _, _, _, hfinalize⟩ := hfinalized.finalize
  obtain ⟨c1, hsame, hperiod⟩ := apply.finalize_application_votes hfinalize
  rw [← hsame.votes] at h
  unfold may_start_new_voting_period at hperiod
  split at hperiod
  · obtain ⟨v, rfl, hstep⟩ := start_new_voting_period_success hperiod
    refine h.period_step (hstep ?_)
    intro hkind
    rw [h.kind_eq] at hkind
    exact h.unlisted (Option.some.inj hkind)
  · cases hperiod
    exact ⟨kind, h⟩

variable {param : Parameters} {level : Raw_level}

/-- The votes of the genesis block. -/
theorem genesis_votes (henv : Lawful_environment) {timestamp fitness : Int64}
    (h : (init_storage.prepare_first_block param level timestamp fitness).outcome = .ok c) :
    ∃ listings size, vote_storage.Weighed listings size ∧
      c.votes = { Votes.empty with
        current_period_kind := some .Proposal
        participation_ema := some c.constants.quorum_max
        listings
        listings_size := some size } := by
  obtain ⟨c1, c2, c3, c4, c5, ⟨_, hempty, _⟩, hseed, _, ⟨_, hvotes3, _⟩, hcycles, hinit,
    hlistings⟩ := init_storage.prepare_first_block_success henv h
  have hvotes4 : c4.votes = Votes.empty := by
    rw [roll_storage.init_first_cycles_only hcycles]
    refine hvotes3.trans ?_
    rw [seed_storage.init_only hseed]
    exact hempty
  have hconstants : c.constants = c4.constants := by
    rw [vote_storage.freeze_listings_only hlistings, vote_storage.init_only hinit]
    rfl
  obtain ⟨c6, hema, hinit⟩ := bind_inv hinit
  rw [init_eq_ok_iff] at hema hinit
  have hvotes5 : c5.votes = { Votes.empty with
      current_period_kind := some .Proposal
      participation_ema := some c.constants.quorum_max } := by
    rw [hinit.2, hema.2, hconstants]
    exact congrArg (fun v : Votes => { v with
      current_period_kind := some .Proposal
      participation_ema := some c4.constants.quorum_max }) hvotes4
  have hunlisted : ({ c5 with block_priority := some 0 } : Context).votes.listings = Store.empty :=
    congrArg (·.listings) hvotes5
  obtain ⟨listings, size, _, hweighed, rfl⟩ := vote_storage.freeze_listings_success hlistings
  refine ⟨listings, size, hweighed hunlisted, ?_⟩
  exact congrArg (fun v : Votes => { v with listings, listings_size := some size }) hvotes5

/-- The first period is one of proposals. -/
theorem genesis_amendment (henv : Lawful_environment) {timestamp fitness : Int64}
    (h : (init_storage.prepare_first_block param level timestamp fitness).outcome = .ok c) :
    Amendment .Proposal c.votes := by
  obtain ⟨_, _, hweighed, hvotes⟩ := genesis_votes henv h
  rw [hvotes]
  refine ⟨rfl, by simp [Votes.empty], by simp, ?_, by simp, fun _ _ => rfl, by simp, ?_, ?_, ?_, ?_,
    ?_⟩
  · intro s hs
    cases hs
    exact hweighed
  all_goals simp [Votes.empty]

theorem Begun.votes (h : Begun c level c') : c'.votes = c.votes := by
  obtain ⟨_, _, _, _, _⟩ := h
  rfl

/-- Every reached state is in some period. -/
theorem reached_amendment (henv : Lawful_environment) (h : Reached param c) :
    ∃ kind, Amendment kind c.votes := by
  have hreached := h.always.induction henv (P := fun c => ∃ kind, Amendment kind c.votes)
    (Q := fun c => ∃ kind, Amendment kind c.votes) ?_ ?_ ?_ ?_
  · exact hreached.elim And.right id
  · exact fun c _ _ _ hgenesis => ⟨.Proposal, genesis_amendment henv hgenesis⟩
  · rintro c c1 _ hbegun ⟨kind, hkind⟩
    rw [hbegun.votes]
    exact ⟨kind, hkind⟩
  · rintro c1 c2 _ _ _ hstep ⟨kind, hkind⟩
    exact ⟨kind, operation_amendment hstep hkind⟩
  · rintro c1 c2 _ hfinalized ⟨kind, hkind⟩
    exact finalized_amendment hfinalized hkind

/-- In every state of a chain, what is stored about votes is what belongs to the
kind of the voting period. No delegate has made more proposals than it may, so
that the assertion of `longer_than` holds. -/
theorem amendment_state_machine (henv : Lawful_environment) (param : Parameters) :
    (∀ c, Reached param c → ∃ kind, Storage.Vote.Current_period_kind.get c = .ok kind ∧
      (c.votes.current_proposal.isSome ↔ kind ≠ .Proposal) ∧
      (c.votes.listings_size.isSome ↔ kind ≠ .Testing) ∧
      (∀ size, c.votes.listings_size = some size →
        size = ofInt (c.votes.listings.sum fun _ weight => weight.toInt) ∧
        (0 ≤ size → size.toInt = c.votes.listings.sum fun _ weight => weight.toInt)) ∧
      (kind ≠ .Testing_vote → kind ≠ .Promotion_vote → c.votes.ballots = Store.empty) ∧
      (kind ≠ .Proposal → c.votes.proposals = ∅ ∧ c.votes.proposals_count = Store.empty) ∧
      (∀ d, (c.votes.ballots.lookup d).isSome → (c.votes.listings.lookup d).isSome) ∧
      (∀ p d, (p, d) ∈ c.votes.proposals → (c.votes.listings.lookup d).isSome) ∧
      (∀ d n, c.votes.proposals_count.lookup d = some n →
        n ≤ constants_repr.max_proposals_per_delegate) ∧
      ∀ d, (c.votes.proposals.filter (·.2 = d)).card ≤
        (c.votes.proposals_count.lookup d).getD 0) ∧
    ∀ c data receipts operation, Chain param c → Validating c data receipts →
      data.ctxt.level.level = c.level.level + 1 →
      (apply_operation data operation).outcome ≠ .raise .Assert_longer_than := by
  constructor
  · intro c hc
    obtain ⟨kind, h⟩ := reached_amendment henv hc
    refine ⟨kind, (get_eq_ok_iff _).mpr h.kind_eq, h.proposal, h.listed, ?_,
      h.no_ballots, h.no_proposals, h.voters, h.proposers, h.few, h.counted⟩
    intro size hsize
    exact ⟨(h.weighed size hsize).size_eq, fun hnonneg => ((h.weighed size hsize).exact hnonneg).2⟩
  · intro c data receipts operation hc hdata hlevel hraise
    obtain ⟨kind, h⟩ := reached_amendment henv (.validating hc hdata hlevel)
    cases apply_operation_raises henv (hdata.closed henv) operation _ hraise with
    | draw hdraw => cases hdraw
    | manager hmanager => cases hmanager
    | longer_than hoverrun =>
      obtain ⟨d, hd⟩ : amendment.Overrun data.ctxt := hoverrun
      rw [recorded_count_eq] at hd
      cases hn : data.ctxt.votes.proposals_count.lookup d with
      | none =>
        rw [hn, getD_none] at hd
        omega
      | some n =>
        have hfew := h.few d n hn
        rw [hn, getD_some] at hd
        omega

section

omit [Environment]

/-- A chain with two blocks in every voting period. -/
def two_blocks_per_period : Parameters :=
  { init_storage.single_delegate with
    constants := { init_storage.single_delegate.constants with blocks_per_voting_period := 2 } }

/-- The delegate proposes a protocol in the second block, and votes for it in the
third one. -/
def voting_block : Nat → Block_header × List Operation
  | 1 => (plain_block 1, [⟨⟨0⟩, .Proposals (.Ed25519 0) 0 [7], some 0⟩])
  | 2 => (plain_block 2, [⟨⟨0⟩, .Ballot (.Ed25519 0) 1 7 .Yay, some 0⟩])
  | number => (plain_block number, [])

/-- The proposal is approved when the second period ends. -/
theorem amendment_state_machine_testing :
    let _ := unscripted_environment
    ∃ c, Chain two_blocks_per_period c ∧ Storage.Vote.Current_period_kind.get c = .ok .Testing ∧
      c.votes.current_proposal.isSome ∧ c.votes.listings_size = none ∧
      c.votes.ballots = Store.empty := by
  intro _
  have hreturns : (do
      let c ← baked two_blocks_per_period (fun _ => true) voting_block 3
      let kind ← Storage.Vote.Current_period_kind.get c
      pure (decide (kind = .Testing)) : Carbonated Bool).outcome.returns id = true := by
    decide +kernel
  simp only [Traced.returns_bind_iff, Traced.returns_pure, Traced.outcome_monadLift, id_eq,
    decide_eq_true_eq] at hreturns
  obtain ⟨c, hbaked, kind, hkind, rfl⟩ := hreturns
  have hchain := (baked_chain (S := fun _ => True) (fun _ _ => trivial) hbaked).chain
  obtain ⟨_, hkind', hproposal, hlisted, _, hballots, _⟩ :=
    (amendment_state_machine unscripted_environment_lawful _).1 c (.chain hchain)
  rw [hkind] at hkind'
  cases hkind'
  refine ⟨c, hchain, hkind, hproposal.mpr (by decide), ?_, hballots (by decide) (by decide)⟩
  rw [← Option.not_isSome_iff_eq_none, hlisted]
  decide

end

end main

end plexus
