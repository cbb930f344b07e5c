import Mathlib.Data.Finset.Sort
import Plexus.RollSnapshots

namespace plexus

namespace Storage.Vote

@[simps value update] def Current_period_kind : Single_data_storage Voting_period_kind where
  absolute_key := .current_period_kind
  value ctxt := ctxt.votes.current_period_kind
  update ctxt v := ctxt.with_votes { ctxt.votes with current_period_kind := v }

@[simps value update] def Participation_ema : Single_data_storage Int32 where
  absolute_key := .participation_ema
  value ctxt := ctxt.votes.participation_ema
  update ctxt v := ctxt.with_votes { ctxt.votes with participation_ema := v }

@[simps value update] def Current_proposal : Single_data_storage Nat where
  absolute_key := .current_proposal
  value ctxt := ctxt.votes.current_proposal
  update ctxt v := ctxt.with_votes { ctxt.votes with current_proposal := v }

@[simps value update] def Listings_size : Single_data_storage Int32 where
  absolute_key := .listings_size
  value ctxt := ctxt.votes.listings_size
  update ctxt v := ctxt.with_votes { ctxt.votes with listings_size := v }

@[simps store update] def Listings : Indexed_data_storage Public_key_hash Int32 where
  absolute_key := .listings
  store ctxt := ctxt.votes.listings
  update ctxt s := ctxt.with_votes { ctxt.votes with listings := s }

@[simps elements update] def Proposals : Data_set_storage (Nat × Public_key_hash) where
  elements ctxt := ctxt.votes.proposals
  update ctxt s := ctxt.with_votes { ctxt.votes with proposals := s }

@[simps store update] def Proposals_count : Indexed_data_storage Public_key_hash Nat where
  absolute_key := .proposals_count
  store ctxt := ctxt.votes.proposals_count
  update ctxt s := ctxt.with_votes { ctxt.votes with proposals_count := s }

@[simps store update] def Ballots : Indexed_data_storage Public_key_hash Ballot where
  absolute_key := .ballots
  store ctxt := ctxt.votes.ballots
  update ctxt s := ctxt.with_votes { ctxt.votes with ballots := s }

end Storage.Vote

namespace vote_storage

variable (ctxt : Context) (delegate : Public_key_hash)

def recorded_proposal_count_for_delegate (proposer : Public_key_hash) : Nat :=
  match Storage.Vote.Proposals_count.get_option ctxt proposer with
  | none => 0
  | some count => count

def record_proposal (proposal : Nat) (proposer : Public_key_hash) : Context :=
  let count := recorded_proposal_count_for_delegate ctxt proposer
  let ctxt := Storage.Vote.Proposals_count.init_set ctxt proposer (count + 1)
  Storage.Vote.Proposals.add ctxt (proposal, proposer)

/-- The weight of every proposal. -/
def get_proposals : Tzresult (Store Nat Int32) :=
  (ctxt.votes.proposals.image Prod.fst).sort.flatMap (fun proposal =>
    (Public_key_hash.in_path_order
      ((ctxt.votes.proposals.filter (·.1 = proposal)).image Prod.snd)).map (proposal, ·))
  |>.foldlM (fun acc (proposal, delegate) => do
    let weight ← Storage.Vote.Listings.get ctxt delegate
    let previous := (acc.lookup proposal).getD 0
    pure (acc.put proposal (some (weight + previous)))) Store.empty

def clear_proposals : Context :=
  Storage.Vote.Proposals.clear (Storage.Vote.Proposals_count.clear ctxt)

structure Ballots where
  yay : Int32
  nay : Int32
  pass : Int32

def has_recorded_ballot : Bool :=
  Storage.Vote.Ballots.mem ctxt delegate

def record_ballot (ballot : Ballot) :
    Tzresult Context :=
  Storage.Vote.Ballots.init ctxt delegate ballot

def get_ballots : Tzresult Ballots :=
  (Public_key_hash.in_path_order ctxt.votes.ballots.keys).foldlM (fun ballots delegate => do
    let weight ← Storage.Vote.Listings.get ctxt delegate
    match Storage.Vote.Ballots.get_option ctxt delegate with
    | some .Yay => pure { ballots with yay := weight + ballots.yay }
    | some .Nay => pure { ballots with nay := weight + ballots.nay }
    | some .Pass => pure { ballots with pass := weight + ballots.pass }
    | none => pure ballots) ⟨0, 0, 0⟩

def clear_ballots : Context := Storage.Vote.Ballots.clear ctxt

def freeze_listings [Environment] (ctxt : Context) : Tzresult Context := do
  let (ctxt, total) ← roll_storage.fold ctxt (fun _ delegate (ctxt, total) =>
    let delegate := Environment.public_key_hash delegate
    let count := (Storage.Vote.Listings.get_option ctxt delegate).getD 0
    .ok (Storage.Vote.Listings.init_set ctxt delegate (count + 1), total + 1)) (ctxt, (0 : Int32))
  Storage.Vote.Listings_size.init ctxt total

def listing_size : Tzresult Int32 := Storage.Vote.Listings_size.get ctxt

def in_listings : Bool :=
  Storage.Vote.Listings.mem ctxt delegate

def clear_listings : Context :=
  Storage.Vote.Listings_size.remove (Storage.Vote.Listings.clear ctxt)

def get_current_quorum : Tzresult Int32 := do
  let participation_ema ← Storage.Vote.Participation_ema.get ctxt
  let quorum_min := ctxt.constants.quorum_min
  let quorum_max := ctxt.constants.quorum_max
  let quorum_diff := quorum_max - quorum_min
  pure (quorum_min + participation_ema * quorum_diff / 10000)

def init : Tzresult Context := do
  let ctxt ← Storage.Vote.Participation_ema.init ctxt ctxt.constants.quorum_max
  Storage.Vote.Current_period_kind.init ctxt .Proposal

end vote_storage

namespace amendment

open vote_storage

/-- Keep the proposals with the most votes. -/
def merge (winners : Option (List Nat × Int32)) (proposal : Nat) (vote : Int32) :
    Option (List Nat × Int32) :=
  match winners with
  | none => some ([proposal], vote)
  | some (winners, winners_vote) =>
    if vote = winners_vote then some (proposal :: winners, winners_vote)
    else if winners_vote < vote then some ([proposal], vote)
    else some (winners, winners_vote)

variable (ctxt : Context) (delegate : Public_key_hash)

def select_winning_proposal : Tzresult (Option Nat) := do
  let proposals ← get_proposals ctxt
  match proposals.keys.sort.foldl
    (fun winners proposal => merge winners proposal ((proposals.lookup proposal).getD 0)) none with
  | some ([proposal], vote) =>
    let max_vote ← listing_size ctxt
    let min_vote_to_pass := ctxt.constants.min_proposal_quorum * max_vote / 10000
    if min_vote_to_pass ≤ vote then pure (some proposal) else pure none
  | _ => pure none

def check_approval_and_update_participation_ema : Tzresult (Context × Bool) := do
  let ballots ← get_ballots ctxt
  let maximum_vote ← listing_size ctxt
  let participation_ema ← Storage.Vote.Participation_ema.get ctxt
  let expected_quorum ← get_current_quorum ctxt
  let casted_votes := ballots.yay + ballots.nay
  let all_votes := casted_votes + ballots.pass
  let supermajority := 8 * casted_votes / 10
  let participation ←
    (if maximum_vote = 0 then (.raise .Division_by_zero : Tzresult Int32)
    else .ok (all_votes.toInt64 * 10000 / maximum_vote.toInt64).toInt32)
  let outcome := decide (expected_quorum ≤ participation) && decide (supermajority ≤ ballots.yay)
  let new_participation_ema := (8 * participation_ema + 2 * participation) / 10
  let ctxt ← Storage.Vote.Participation_ema.set ctxt new_participation_ema
  pure (ctxt, outcome)

section

variable [Environment]

/-- The state machine of the amendment procedure. Starting the test chain and
activating the new protocol happen outside the modelled context. -/
def start_new_voting_period (ctxt : Context) : Tzresult Context := do
  let kind ← Storage.Vote.Current_period_kind.get ctxt
  match kind with
  | .Proposal =>
    let proposal ← select_winning_proposal ctxt
    let ctxt := clear_listings (clear_proposals ctxt)
    match proposal with
    | none => freeze_listings ctxt
    | some proposal =>
      let ctxt ← Storage.Vote.Current_proposal.init ctxt proposal
      let ctxt ← freeze_listings ctxt
      Storage.Vote.Current_period_kind.set ctxt .Testing_vote
  | .Testing_vote =>
    let (ctxt, approved) ← check_approval_and_update_participation_ema ctxt
    let ctxt := clear_listings (clear_ballots ctxt)
    if approved then
      let _ ← Storage.Vote.Current_proposal.get ctxt
      Storage.Vote.Current_period_kind.set ctxt .Testing
    else
      let ctxt ← Storage.Vote.Current_proposal.delete ctxt
      let ctxt ← freeze_listings ctxt
      Storage.Vote.Current_period_kind.set ctxt .Proposal
  | .Testing =>
    let ctxt ← freeze_listings ctxt
    Storage.Vote.Current_period_kind.set ctxt .Promotion_vote
  | .Promotion_vote =>
    let (ctxt, approved) ← check_approval_and_update_participation_ema ctxt
    (if approved then do
      let _ ← Storage.Vote.Current_proposal.get ctxt
      pure ()
    else pure ())
    let ctxt := clear_listings (clear_ballots ctxt)
    let ctxt ← Storage.Vote.Current_proposal.delete ctxt
    let ctxt ← freeze_listings ctxt
    Storage.Vote.Current_period_kind.set ctxt .Proposal

end

/-- Whether a list has more than `n` elements. -/
def longer_than {α : Type} : List α → ℤ → Tzresult Bool
  | l, n =>
    if n < 0 then .raise .Assert_longer_than
    else
      match l with
      | [] => .ok false
      | _ :: rest => if n = 0 then .ok true else longer_than rest (n - 1)

def record_proposals (proposals : List Nat) :
    Tzresult Context := do
  (match proposals with
  | [] => fail .Empty_proposal
  | _ :: _ => pure ())
  let kind ← Storage.Vote.Current_period_kind.get ctxt
  match kind with
  | .Proposal =>
    if in_listings ctxt delegate then
      let count := recorded_proposal_count_for_delegate ctxt delegate
      let too_many ← longer_than proposals (constants_repr.max_proposals_per_delegate - count)
      fail_when too_many .Too_many_proposals
      pure (proposals.foldl (fun ctxt proposal => record_proposal ctxt proposal delegate) ctxt)
    else fail .Unauthorized_proposal
  | .Testing_vote => fail .Unexpected_proposal
  | .Testing => fail .Unexpected_proposal
  | .Promotion_vote => fail .Unexpected_proposal

/-- `record_ballot` in a period with a vote. -/
def record_ballot_for_current_proposal (proposal : Nat) (ballot : Ballot) : Tzresult Context := do
  let current_proposal ← Storage.Vote.Current_proposal.get ctxt
  fail_unless (decide (proposal = current_proposal)) .Invalid_proposal
  fail_when (has_recorded_ballot ctxt delegate) .Unauthorized_ballot
  if in_listings ctxt delegate then vote_storage.record_ballot ctxt delegate ballot
  else fail .Unauthorized_ballot

def record_ballot (proposal : Nat)
    (ballot : Ballot) : Tzresult Context := do
  let kind ← Storage.Vote.Current_period_kind.get ctxt
  match kind with
  | .Testing_vote => record_ballot_for_current_proposal ctxt delegate proposal ballot
  | .Promotion_vote => record_ballot_for_current_proposal ctxt delegate proposal ballot
  | .Testing => fail .Unexpected_ballot
  | .Proposal => fail .Unexpected_ballot

def last_of_a_voting_period (l : Level) : Bool :=
  decide (l.voting_period_position + 1 = ctxt.constants.blocks_per_voting_period)

def may_start_new_voting_period [Environment] (ctxt : Context) : Tzresult Context :=
  if last_of_a_voting_period ctxt (level_storage.current ctxt) then start_new_voting_period ctxt
  else pure ctxt

end amendment

end plexus
