import Plexus.Amendment
import Plexus.Lib.FixedWidth

/-! The arithmetic of votes: ballots, participation and quorum are computed
exactly and stay in range. -/

namespace plexus

open List init_storage Int32

open Result (bind_ok)

open Public_key_hash (in_path_order mem_in_path_order nodup_in_path_order toFinset_in_path_order)

variable {ballots : Ballots} {c : Context} {size ema : Int32} {v : Votes}

namespace vote_storage

/-! Counting the ballots. -/

/-- The votes for a choice. -/
def Ballots.of (ballots : Ballots) : Ballot → Int32
  | .Yay => ballots.yay
  | .Nay => ballots.nay
  | .Pass => ballots.pass

/-- The votes with one more ballot. -/
def Ballots.add (ballots : Ballots) (weight : Int32) : Ballot → Ballots
  | .Yay => { ballots with yay := weight + ballots.yay }
  | .Nay => { ballots with nay := weight + ballots.nay }
  | .Pass => { ballots with pass := weight + ballots.pass }

/-- All votes, as an integer. -/
def Ballots.total (ballots : Ballots) : ℤ :=
  ballots.yay.toInt + ballots.nay.toInt + ballots.pass.toInt

theorem Ballots.of_add (ballots : Ballots) (weight : Int32) (choice choice' : Ballot) :
    (ballots.add weight choice).of choice' =
      if choice = choice' then weight + ballots.of choice' else ballots.of choice' := by
  cases choice <;> cases choice' <;> rfl

/-- No kind of vote exceeds the total. -/
theorem Ballots.of_le_total (h : ∀ choice, 0 ≤ (ballots.of choice).toInt) (choice : Ballot) :
    (ballots.of choice).toInt ≤ ballots.total := by
  have hyay := h .Yay
  have hnay := h .Nay
  have hpass := h .Pass
  unfold total
  cases choice <;> simp only [of] at * <;> omega

/-- A vote that does not wrap adds its weight. -/
theorem Ballots.total_add {weight : Int32} {choice : Ballot}
    (h : (weight + ballots.of choice).toInt = weight.toInt + (ballots.of choice).toInt) :
    (ballots.add weight choice).total = weight.toInt + ballots.total := by
  unfold total
  cases choice <;> simp only [of, add] at * <;> omega

/-- The weight of a delegate in the listings. -/
def weight (v : Votes) (delegate : Public_key_hash) : ℤ :=
  (v.listings.lookup delegate).elim 0 Int32.toInt

/-- The weight a delegate gives to a choice. -/
def weight_for (v : Votes) (choice : Ballot) (delegate : Public_key_hash) : ℤ :=
  if v.ballots.lookup delegate = some choice then weight v delegate else 0

/-- A round of the count. -/
def count_round (c : Context) (ballots : Ballots) (delegate : Public_key_hash) :
    Tzresult Ballots := do
  let weight ← Storage.Vote.Listings.get c delegate
  match Storage.Vote.Ballots.get_option c delegate with
  | some .Yay => pure { ballots with yay := weight + ballots.yay }
  | some .Nay => pure { ballots with nay := weight + ballots.nay }
  | some .Pass => pure { ballots with pass := weight + ballots.pass }
  | none => pure ballots

/-- A round of the count, for a voter who is listed. -/
theorem count_round_eq {d : Public_key_hash} {w : Int32} {choice : Ballot}
    (hweight : c.votes.listings.lookup d = some w)
    (hchoice : c.votes.ballots.lookup d = some choice) (ballots : Ballots) :
    count_round c ballots d = .ok (ballots.add w choice) := by
  have hget : Storage.Vote.Listings.get c d = .ok w :=
    (Indexed_data_storage.get_eq_ok_iff _).mpr hweight
  have hoption : Storage.Vote.Ballots.get_option c d = some choice := hchoice
  unfold count_round
  rw [hget, bind_ok, hoption]
  cases choice <;> rfl

/-- Listings whose weights do not overflow, that list everyone who voted. -/
structure Listed (v : Votes) (size : Int32) : Prop where
  nonneg : ∀ d w, v.listings.lookup d = some w → 0 ≤ w.toInt
  size_eq : size.toInt = v.listings.sum fun _ weight => weight.toInt
  voters : ∀ d, (v.ballots.lookup d).isSome → (v.listings.lookup d).isSome

theorem Listed.weight_nonneg (h : Listed v size) (d : Public_key_hash) : 0 ≤ weight v d := by
  unfold weight
  cases hw : v.listings.lookup d with
  | none => exact le_refl 0
  | some w => exact h.nonneg d w hw

/-- The weight of delegates that voted is at most the size of the listings. -/
theorem Listed.voters_le (h : Listed v size) {l : List Public_key_hash} (hnodup : l.Nodup)
    (hl : ∀ d ∈ l, (v.ballots.lookup d).isSome) : (l.map (weight v)).sum ≤ size.toInt := by
  rw [h.size_eq, ← sum_toFinset (weight v) hnodup]
  apply Finset.sum_le_sum_of_subset_of_nonneg
  · intro d hd
    rw [v.listings.mem_keys]
    exact h.voters d (hl d (mem_toFinset.mp hd))
  · intro d _ _
    exact h.weight_nonneg d

/-- Counting is exact as long as the votes that are still to be counted fit. -/
theorem Listed.count_exact (h : Listed c.votes size) {l : List Public_key_hash}
    (hl : ∀ d ∈ l, (c.votes.ballots.lookup d).isSome) {acc : Ballots}
    (hacc : ∀ choice, 0 ≤ (acc.of choice).toInt)
    (hfit : acc.total + (l.map (weight c.votes)).sum < 2 ^ 31) :
    ∃ ballots, l.foldlM (count_round c) acc = .ok ballots ∧
      (∀ choice, 0 ≤ (ballots.of choice).toInt) ∧
      ballots.total = acc.total + (l.map (weight c.votes)).sum ∧
      ∀ choice, (ballots.of choice).toInt =
        (acc.of choice).toInt + (l.map (weight_for c.votes choice)).sum := by
  induction l generalizing acc with
  | nil => exact ⟨acc, rfl, hacc, by simp, by simp⟩
  | cons d l ih =>
    obtain ⟨choice, hchoice⟩ := Option.isSome_iff_exists.mp (hl d mem_cons_self)
    obtain ⟨w, hw⟩ := Option.isSome_iff_exists.mp (h.voters d (hl d mem_cons_self))
    have hweight : weight c.votes d = w.toInt := by
      unfold weight
      rw [hw]
      rfl
    have hnonneg := h.nonneg d w hw
    have hrest : 0 ≤ (l.map (weight c.votes)).sum := by
      apply sum_nonneg
      rw [forall_mem_map]
      exact fun d' _ => h.weight_nonneg d'
    have hle := Ballots.of_le_total hacc choice
    have hchoice_nonneg := hacc choice
    rw [map_cons, sum_cons, hweight] at hfit
    have hadd : (w + acc.of choice).toInt = w.toInt + (acc.of choice).toInt :=
      toInt_add_exact (by omega) (by omega)
    have htotal := Ballots.total_add hadd
    have hacc' choice' : 0 ≤ ((acc.add w choice).of choice').toInt := by
      have := hacc choice'
      rw [Ballots.of_add]
      split
      · next heq =>
        rw [← heq]
        omega
      · exact this
    obtain ⟨ballots, hfold, hballots, _, hof⟩ :=
      ih (fun d' hd' => hl d' (mem_cons_of_mem d hd')) hacc' (by omega)
    refine ⟨ballots, ?_, hballots, ?_, ?_⟩
    · rw [foldlM_cons, count_round_eq hw hchoice]
      exact hfold
    · rw [map_cons, sum_cons, hweight]
      omega
    · intro choice'
      have hstep := hof choice'
      rw [Ballots.of_add] at hstep
      rw [map_cons, sum_cons, weight_for, hchoice, hweight, hstep]
      by_cases heq : choice = choice'
      · rw [← heq, if_pos rfl, if_pos rfl, hadd]
        omega
      · rw [if_neg heq, if_neg (fun hsome => heq (Option.some.inj hsome))]
        omega

/-- Every addition of `get_ballots` is exact. The count after the first
delegates is the sum of their weights. -/
theorem Listed.partial_count (h : Listed c.votes size) (k : Nat) :
    ∃ ballots,
      ((in_path_order c.votes.ballots.keys).take k).foldlM (count_round c) ⟨0, 0, 0⟩ =
        .ok ballots ∧
      (∀ choice, 0 ≤ (ballots.of choice).toInt) ∧ ballots.total ≤ size.toInt ∧
      ∀ choice, (ballots.of choice).toInt =
        (((in_path_order c.votes.ballots.keys).take k).map (weight_for c.votes choice)).sum := by
  have hvoted d (hd : d ∈ (in_path_order c.votes.ballots.keys).take k) :
      (c.votes.ballots.lookup d).isSome := by
    have hmem := mem_of_mem_take hd
    rw [mem_in_path_order] at hmem
    exact (c.votes.ballots.mem_keys d).mp hmem
  have hle := h.voters_le (nodup_in_path_order.sublist (take_sublist k _)) hvoted
  have hlt := size.toInt_lt
  have hzero choice : ((⟨0, 0, 0⟩ : Ballots).of choice).toInt = 0 := by
    cases choice <;> rfl
  have htotal : (⟨0, 0, 0⟩ : Ballots).total = 0 := rfl
  obtain ⟨ballots, hfold, hnonneg, _, hof⟩ :=
    h.count_exact hvoted (fun choice => (hzero choice).ge) (by omega)
  refine ⟨ballots, hfold, hnonneg, by omega, ?_⟩
  intro choice
  rw [hof, hzero, zero_add]

/-- The ballots are counted without wrapping, and are at most the size of the
listings. -/
theorem Listed.get_ballots_exact (h : Listed c.votes size) :
    ∃ ballots, get_ballots c = .ok ballots ∧ (∀ choice, 0 ≤ (ballots.of choice).toInt) ∧
      ballots.total ≤ size.toInt ∧
      ∀ choice, (ballots.of choice).toInt =
        ∑ d ∈ c.votes.ballots.keys, weight_for c.votes choice d := by
  obtain ⟨ballots, hfold, hnonneg, htotal, hof⟩ :=
    h.partial_count (in_path_order c.votes.ballots.keys).length
  rw [take_length] at hfold hof
  refine ⟨ballots, hfold, hnonneg, htotal, ?_⟩
  intro choice
  rw [hof, ← sum_toFinset _ nodup_in_path_order, toFinset_in_path_order]

/-! The quorum. -/

def quorum (constants : Constants) (participation_ema : Int32) : Int32 :=
  constants.quorum_min +
    participation_ema * (constants.quorum_max - constants.quorum_min) / 10000

/-- The quorum is a function of the participation. -/
theorem get_current_quorum_eq (h : c.votes.participation_ema = some ema) :
    get_current_quorum c = .ok (quorum c.constants ema) := by
  have hget : Storage.Vote.Participation_ema.get c = .ok ema :=
    (Single_data_storage.get_eq_ok_iff _).mpr h
  unfold get_current_quorum
  rw [hget]
  rfl

/-- A number of hundredths of a percent. -/
def Centiles (n : Int32) : Prop := 0 ≤ n.toInt ∧ n.toInt ≤ 10000

/-- The bounds of the quorum are in order. -/
structure Quorum_bounds (constants : Constants) : Prop where
  nonneg : 0 ≤ constants.quorum_min.toInt
  ordered : constants.quorum_min.toInt ≤ constants.quorum_max.toInt
  centiles : constants.quorum_max.toInt ≤ 10000

/-- No operation of the quorum wraps. -/
structure Quorum_exact (constants : Constants) (ema : Int32) : Prop where
  difference : (constants.quorum_max - constants.quorum_min).toInt =
    constants.quorum_max.toInt - constants.quorum_min.toInt
  product : (ema * (constants.quorum_max - constants.quorum_min)).toInt =
    ema.toInt * (constants.quorum_max - constants.quorum_min).toInt
  quotient : (ema * (constants.quorum_max - constants.quorum_min) / 10000).toInt =
    (ema * (constants.quorum_max - constants.quorum_min)).toInt / 10000
  sum : (quorum constants ema).toInt = constants.quorum_min.toInt +
    (ema * (constants.quorum_max - constants.quorum_min) / 10000).toInt

/-- The quorum lies between its bounds. -/
theorem Quorum_bounds.exact {constants : Constants} (h : Quorum_bounds constants)
    (hema : Centiles ema) :
    Quorum_exact constants ema ∧ constants.quorum_min.toInt ≤ (quorum constants ema).toInt ∧
      (quorum constants ema).toInt ≤ constants.quorum_max.toInt := by
  obtain ⟨hlow, hhigh⟩ := hema
  have hmin := h.nonneg
  have hordered := h.ordered
  have hmax := h.centiles
  have hdiff : (constants.quorum_max - constants.quorum_min).toInt =
      constants.quorum_max.toInt - constants.quorum_min.toInt :=
    toInt_sub_exact (by omega) (by omega)
  generalize hdelta : constants.quorum_max - constants.quorum_min = delta at hdiff
  have hproduct_nonneg : 0 ≤ ema.toInt * delta.toInt := Int.mul_nonneg hlow (by omega)
  have hproduct_le : ema.toInt * delta.toInt ≤ 10000 * delta.toInt :=
    Int.mul_le_mul_of_nonneg_right hhigh (by omega)
  have hproduct : (ema * delta).toInt = ema.toInt * delta.toInt :=
    Int32.toInt_mul_exact (by omega) (by omega)
  have hten : (10000 : Int32).toInt = 10000 := rfl
  have hquotient : (ema * delta / 10000).toInt = (ema * delta).toInt / 10000 :=
    Int32.toInt_div_exact (by omega) (by omega)
  have hsum : (constants.quorum_min + ema * delta / 10000).toInt =
      constants.quorum_min.toInt + (ema * delta / 10000).toInt :=
    toInt_add_exact (by omega) (by omega)
  have hlow : constants.quorum_min.toInt ≤ (quorum constants ema).toInt ∧
      (quorum constants ema).toInt ≤ constants.quorum_max.toInt := by
    unfold quorum
    rw [hdelta]
    omega
  subst hdelta
  exact ⟨⟨hdiff, hproduct, hquotient, hsum⟩, hlow⟩

end vote_storage

namespace amendment

open vote_storage

/-! The approval of a proposal. -/

def casted_votes (ballots : Ballots) : Int32 := ballots.yay + ballots.nay

def all_votes (ballots : Ballots) : Int32 := casted_votes ballots + ballots.pass

def supermajority (ballots : Ballots) : Int32 := 8 * casted_votes ballots / 10

def participation (ballots : Ballots) (maximum_vote : Int32) : Int32 :=
  ((all_votes ballots).toInt64 * 10000 / maximum_vote.toInt64).toInt32

def new_participation_ema (participation_ema participation : Int32) : Int32 :=
  (8 * participation_ema + 2 * participation) / 10

/-- The end of a vote divides by the size of the listings. -/
theorem check_approval_eq (hballots : get_ballots c = .ok ballots)
    (hsize : c.votes.listings_size = some size) (hema : c.votes.participation_ema = some ema) :
    check_approval_and_update_participation_ema c = if size = 0 then .raise .Division_by_zero
      else .ok (c.with_votes { c.votes with
          participation_ema := some (new_participation_ema ema (participation ballots size)) },
        decide (quorum c.constants ema ≤ participation ballots size) &&
          decide (supermajority ballots ≤ ballots.yay)) := by
  have hget_size : listing_size c = .ok size := (Single_data_storage.get_eq_ok_iff _).mpr hsize
  have hget_ema : Storage.Vote.Participation_ema.get c = .ok ema :=
    (Single_data_storage.get_eq_ok_iff _).mpr hema
  have hset n : Storage.Vote.Participation_ema.set c n = .ok
      (c.with_votes { c.votes with participation_ema := some n }) := by
    rw [Single_data_storage.set_eq_ok_iff]
    refine ⟨?_, rfl⟩
    exact ⟨ema, hema⟩
  unfold check_approval_and_update_participation_ema
  rw [hballots, bind_ok, hget_size, bind_ok, hget_ema, bind_ok, get_current_quorum_eq hema, bind_ok]
  dsimp only
  split
  · rfl
  · rw [bind_ok, hset, bind_ok]
    rfl

/-- No operation of the approval wraps. -/
structure Approval_exact (ballots : Ballots) (size ema : Int32) : Prop where
  casted_votes : (casted_votes ballots).toInt = ballots.yay.toInt + ballots.nay.toInt
  all_votes : (all_votes ballots).toInt = (amendment.casted_votes ballots).toInt + ballots.pass.toInt
  eightfold : (8 * amendment.casted_votes ballots).toInt =
    8 * (amendment.casted_votes ballots).toInt
  supermajority : (supermajority ballots).toInt = (8 * amendment.casted_votes ballots).toInt / 10
  scaled : ((amendment.all_votes ballots).toInt64 * 10000).toInt =
    (amendment.all_votes ballots).toInt * 10000
  ratio : ((amendment.all_votes ballots).toInt64 * 10000 / size.toInt64).toInt =
    ((amendment.all_votes ballots).toInt64 * 10000).toInt / size.toInt
  participation : (participation ballots size).toInt =
    ((amendment.all_votes ballots).toInt64 * 10000 / size.toInt64).toInt
  earlier : (8 * ema).toInt = 8 * ema.toInt
  latest : (2 * amendment.participation ballots size).toInt =
    2 * (amendment.participation ballots size).toInt
  both : (8 * ema + 2 * amendment.participation ballots size).toInt =
    (8 * ema).toInt + (2 * amendment.participation ballots size).toInt
  average : (new_participation_ema ema (amendment.participation ballots size)).toInt =
    (8 * ema + 2 * amendment.participation ballots size).toInt / 10

/-- The ratio of the votes, in an integer of twice the width. -/
theorem ratio_exact {votes : Int32} (hnonneg : 0 ≤ votes.toInt) (hle : votes.toInt ≤ size.toInt)
    (hpositive : 0 < size.toInt) :
    (votes.toInt64 * 10000).toInt = votes.toInt * 10000 ∧
      (votes.toInt64 * 10000 / size.toInt64).toInt = (votes.toInt64 * 10000).toInt / size.toInt ∧
      0 ≤ (votes.toInt64 * 10000 / size.toInt64).toInt ∧
      (votes.toInt64 * 10000 / size.toInt64).toInt ≤ 10000 := by
  have hscale : (10000 : Int64).toInt = 10000 := rfl
  have hlt := votes.toInt_lt
  have hproduct : (votes.toInt64 * 10000).toInt = votes.toInt * 10000 := by
    rw [Int64.toInt_mul_exact, toInt_toInt64, hscale] <;>
      rw [toInt_toInt64, hscale] <;> omega
  have hratio : (votes.toInt64 * 10000 / size.toInt64).toInt =
      (votes.toInt64 * 10000).toInt / size.toInt := by
    rw [Int64.toInt_div_exact, toInt_toInt64]
    · omega
    · rw [toInt_toInt64]
      exact hpositive.le
  refine ⟨hproduct, hratio, ?_, ?_⟩
  · rw [hratio, hproduct]
    exact Int.ediv_nonneg (by omega) hpositive.le
  · rw [hratio, hproduct]
    apply Int.ediv_le_of_le_mul hpositive
    omega

/-- The moving average of two numbers of hundredths of a percent. -/
theorem average_exact {latest : Int32} (hema : Centiles ema) (hlatest : Centiles latest) :
    (8 * ema).toInt = 8 * ema.toInt ∧ (2 * latest).toInt = 2 * latest.toInt ∧
      (8 * ema + 2 * latest).toInt = (8 * ema).toInt + (2 * latest).toInt ∧
      (new_participation_ema ema latest).toInt = (8 * ema + 2 * latest).toInt / 10 ∧
      Centiles (new_participation_ema ema latest) := by
  obtain ⟨_, _⟩ := hema
  obtain ⟨_, _⟩ := hlatest
  have height : (8 : Int32).toInt = 8 := rfl
  have htwo : (2 : Int32).toInt = 2 := rfl
  have hten : (10 : Int32).toInt = 10 := rfl
  have hfirst : (8 * ema).toInt = 8 * ema.toInt :=
    Int32.toInt_mul_exact (by rw [height]; omega) (by rw [height]; omega)
  have hsecond : (2 * latest).toInt = 2 * latest.toInt :=
    Int32.toInt_mul_exact (by rw [htwo]; omega) (by rw [htwo]; omega)
  have hsum : (8 * ema + 2 * latest).toInt = (8 * ema).toInt + (2 * latest).toInt :=
    toInt_add_exact (by omega) (by omega)
  have haverage : (new_participation_ema ema latest).toInt = (8 * ema + 2 * latest).toInt / 10 :=
    Int32.toInt_div_exact (by omega) (by omega)
  exact ⟨hfirst, hsecond, hsum, haverage, by omega, by omega⟩

/-- Nothing wraps in the approval of a vote, and both averages stay in range. -/
theorem approval_exact (hnonneg : ∀ choice, 0 ≤ (ballots.of choice).toInt)
    (htotal : ballots.total ≤ size.toInt) (hpositive : 0 < size.toInt)
    (hsmall : 8 * size.toInt < 2 ^ 31) (hema : Centiles ema) :
    Approval_exact ballots size ema ∧ Centiles (participation ballots size) ∧
      Centiles (new_participation_ema ema (participation ballots size)) := by
  have hyay : 0 ≤ ballots.yay.toInt := hnonneg .Yay
  have hnay : 0 ≤ ballots.nay.toInt := hnonneg .Nay
  have hpass : 0 ≤ ballots.pass.toInt := hnonneg .Pass
  unfold Ballots.total at htotal
  have hcasted : (casted_votes ballots).toInt = ballots.yay.toInt + ballots.nay.toInt :=
    toInt_add_exact (by omega) (by omega)
  have hall : (all_votes ballots).toInt = (casted_votes ballots).toInt + ballots.pass.toInt :=
    toInt_add_exact (by omega) (by omega)
  have height : (8 : Int32).toInt = 8 := rfl
  have hten : (10 : Int32).toInt = 10 := rfl
  have heightfold : (8 * casted_votes ballots).toInt = 8 * (casted_votes ballots).toInt :=
    Int32.toInt_mul_exact (by rw [height]; omega) (by rw [height]; omega)
  have hsupermajority : (supermajority ballots).toInt = (8 * casted_votes ballots).toInt / 10 :=
    Int32.toInt_div_exact (by omega) (by omega)
  have hall_nonneg : 0 ≤ (all_votes ballots).toInt := by omega
  obtain ⟨hscaled, hratio, hratio_nonneg, hratio_le⟩ := ratio_exact hall_nonneg (by omega) hpositive
  have hparticipation : (participation ballots size).toInt =
      ((all_votes ballots).toInt64 * 10000 / size.toInt64).toInt :=
    Int64.toInt_toInt32_exact (by omega) (by omega)
  have hcentiles : Centiles (participation ballots size) := by
    unfold Centiles
    rw [hparticipation]
    exact ⟨hratio_nonneg, hratio_le⟩
  obtain ⟨hearlier, hlatest, hboth, haverage, hnew⟩ := average_exact hema hcentiles
  exact ⟨⟨hcasted, hall, heightfold, hsupermajority, hscaled, hratio, hparticipation, hearlier,
    hlatest, hboth, haverage⟩, hcentiles, hnew⟩

/-! Proposals and ballots leave the listings and the average alone. -/

theorem record_proposals_votes {c' : Context} {d : Public_key_hash} {proposals : List Nat}
    (h : record_proposals c d proposals = .ok c') :
    c'.votes.listings_size = c.votes.listings_size ∧
      c'.votes.participation_ema = c.votes.participation_ema := by
  obtain ⟨-, -, -, rfl⟩ := (record_proposals_spec (R := fun _ => True) fun _ => trivial).of_ok h
  clear h
  induction proposals generalizing c with
  | nil => exact ⟨rfl, rfl⟩
  | cons p proposals ih => exact ih

/-- The votes for a choice, as the sum of the weights of those who chose it. -/
def votes_for (v : Votes) (choice : Ballot) : ℤ := ∑ d ∈ v.ballots.keys, weight_for v choice d

/-- The rule for the approval of a proposal. -/
def Approved (quorum size yay nay pass : ℤ) : Prop :=
  (quorum : ℚ) ≤ 10000 * (yay + nay + pass) / size ∧ (8 / 10 : ℚ) * (yay + nay) ≤ yay

/-- The vote reaches the quorum, and less than one vote is missing for the supermajority. -/
def Nearly_approved (quorum size yay nay pass : ℤ) : Prop :=
  (quorum : ℚ) ≤ 10000 * (yay + nay + pass) / size ∧ (yay : ℚ) < 8 / 10 * (yay + nay) ∧
    (8 / 10 : ℚ) * (yay + nay) < yay + 1

/-- The two tests in the integers. -/
theorem votes_exact (hnonneg : ∀ choice, 0 ≤ (ballots.of choice).toInt)
    (htotal : ballots.total ≤ size.toInt) (hpositive : 0 < size.toInt)
    (hsmall : 8 * size.toInt < 2 ^ 31) :
    (supermajority ballots).toInt = 8 * (ballots.yay.toInt + ballots.nay.toInt) / 10 ∧
      (participation ballots size).toInt =
        (ballots.yay.toInt + ballots.nay.toInt + ballots.pass.toInt) * 10000 / size.toInt := by
  have hema : Centiles 0 := ⟨le_refl _, by decide⟩
  obtain ⟨hexact, -, -⟩ := approval_exact hnonneg htotal hpositive hsmall hema
  rw [hexact.supermajority, hexact.eightfold, hexact.participation, hexact.ratio, hexact.scaled,
    hexact.all_votes, hexact.casted_votes]
  exact ⟨rfl, rfl⟩

/-- Truncation makes a difference exactly for the votes that are nearly approved. -/
theorem approval_iff {quorum size yay nay pass : ℤ} (hpositive : 0 < size) :
    (quorum ≤ (yay + nay + pass) * 10000 / size ∧ 8 * (yay + nay) / 10 ≤ yay ↔
      Approved quorum size yay nay pass) ↔ ¬ Nearly_approved quorum size yay nay pass := by
  have hsize : (0 : ℚ) < size := Int.cast_pos.mpr hpositive
  have hquorum : (quorum : ℚ) ≤ 10000 * (yay + nay + pass) / size ↔
      quorum ≤ (yay + nay + pass) * 10000 / size := by
    rw [Int.le_ediv_iff_mul_le hpositive, le_div_iff₀ hsize, mul_comm (10000 : ℚ)]
    exact_mod_cast Iff.rfl
  have hmajority : (8 / 10 : ℚ) * (yay + nay) ≤ yay ↔ 8 * (yay + nay) ≤ 10 * yay := by
    rw [← @Int.cast_le ℚ]
    push_cast
    constructor <;> intro h <;> linarith
  have hshort : (8 / 10 : ℚ) * (yay + nay) < yay + 1 ↔ 8 * (yay + nay) < 10 * (yay + 1) := by
    rw [← @Int.cast_lt ℚ]
    push_cast
    constructor <;> intro h <;> linarith
  unfold Approved Nearly_approved
  rw [hquorum, ← not_le, hmajority, hshort]
  by_cases h : quorum ≤ (yay + nay + pass) * 10000 / size
  · simp only [h, true_and]
    omega
  · simp only [h, false_and, not_false_iff]

/-- The rule is computed with a supermajority that is rounded down. -/
theorem approval_exact_iff (hlisted : Listed c.votes size)
    (hsize : c.votes.listings_size = some size) (hsmall : 8 * size.toInt < 2 ^ 31)
    (hema : c.votes.participation_ema = some ema) :
    (size = 0 → check_approval_and_update_participation_ema c = .raise .Division_by_zero) ∧
    (size ≠ 0 → ∃ ctxt outcome, check_approval_and_update_participation_ema c = .ok (ctxt, outcome) ∧
      ((outcome = true ↔ Approved (quorum c.constants ema).toInt size.toInt
          (votes_for c.votes .Yay) (votes_for c.votes .Nay) (votes_for c.votes .Pass)) ↔
        ¬ Nearly_approved (quorum c.constants ema).toInt size.toInt
          (votes_for c.votes .Yay) (votes_for c.votes .Nay) (votes_for c.votes .Pass))) := by
  obtain ⟨_, hballots, hnonneg, htotal, hof⟩ := hlisted.get_ballots_exact
  rw [check_approval_eq hballots hsize hema]
  refine ⟨fun hzero => if_pos hzero, fun hne => ?_⟩
  have hpositive : 0 < size.toInt := by
    have hle : 0 ≤ size.toInt := by
      rw [hlisted.size_eq]
      exact Finset.sum_nonneg fun d _ => hlisted.weight_nonneg d
    exact hle.lt_of_ne' fun heq => hne (toInt_inj.mp heq)
  obtain ⟨hsupermajority, hparticipation⟩ := votes_exact hnonneg htotal hpositive hsmall
  rw [if_neg hne]
  refine ⟨_, _, rfl, ?_⟩
  unfold votes_for
  rw [← approval_iff hpositive, ← hof, ← hof, ← hof, Bool.and_eq_true, decide_eq_true_eq,
    decide_eq_true_eq, le_iff_toInt_le, le_iff_toInt_le, hsupermajority,
    hparticipation]
  rfl

/-- One delegate with one roll votes. -/
def single_vote (ballot : Ballot) : Context :=
  let c := raw_context.prepare_first_block default_parameters.constants_mainnet 1 0 0
  c.with_votes { c.votes with
    participation_ema := some 0
    listings_size := some 1
    listings := Store.empty.put (.Ed25519 0) (some 1)
    ballots := Store.empty.put (.Ed25519 0) (some ballot) }

theorem single_vote_listed (ballot : Ballot) : Listed (single_vote ballot).votes 1 where
  nonneg d w hw := by
    change (Store.empty.put _ (some 1)).lookup d = some w at hw
    rw [Store.lookup_put] at hw
    split at hw
    · cases hw
      decide
    · cases hw
  size_eq := by cases ballot <;> decide
  voters d hd := by
    change ((Store.empty.put _ (some ballot)).lookup d).isSome at hd
    change ((Store.empty.put _ (some 1)).lookup d).isSome
    rw [Store.lookup_put] at hd ⊢
    split at hd <;> simp_all

theorem single_yay : ∃ ctxt outcome,
    check_approval_and_update_participation_ema (single_vote .Yay) = .ok (ctxt, outcome) ∧
      (outcome = true ↔ Approved 2000 1 (votes_for (single_vote .Yay).votes .Yay)
        (votes_for (single_vote .Yay).votes .Nay) (votes_for (single_vote .Yay).votes .Pass)) := by
  obtain ⟨ctxt, outcome, hcheck, hiff⟩ :=
    (approval_exact_iff (single_vote_listed .Yay) rfl (by decide) rfl).2 (by decide)
  refine ⟨ctxt, outcome, hcheck, hiff.mpr ?_⟩
  rintro ⟨-, hshort, -⟩
  have hyay : votes_for (single_vote .Yay).votes .Yay = 1 := by decide +kernel
  have hnay : votes_for (single_vote .Yay).votes .Nay = 0 := by decide +kernel
  norm_num [hyay, hnay] at hshort

/-- Rounded down, eight tenths of one vote are none. -/
theorem single_nay : ∃ ctxt,
    check_approval_and_update_participation_ema (single_vote .Nay) = .ok (ctxt, true) ∧
      votes_for (single_vote .Nay).votes .Yay = 0 ∧ votes_for (single_vote .Nay).votes .Nay = 1 := by
  have hreturns : (check_approval_and_update_participation_ema (single_vote .Nay)).returns
      (·.2) = true := by
    decide +kernel
  obtain ⟨⟨ctxt, _⟩, hcheck, rfl⟩ := Result.returns_iff.mp hreturns
  exact ⟨ctxt, hcheck, by decide +kernel, by decide +kernel⟩

end amendment

namespace main

open amendment vote_storage

variable [Environment] {c c' : Context}

/-- No operation changes the size of the listings or the average. -/
theorem operation_listings_size {contents : Contents_list} {result : Contents_result_list}
    (hstep : apply.Operation_step c c' contents result) :
    c'.votes.listings_size = c.votes.listings_size ∧
      c'.votes.participation_ema = c.votes.participation_ema := by
  refine operation_votes (P := fun votes => votes.listings_size = c.votes.listings_size ∧
    votes.participation_ema = c.votes.participation_ema) hstep ?_ ?_ ⟨rfl, rfl⟩
  · intro c0 c1 source proposals hrecord h
    obtain ⟨hsize, hema⟩ := record_proposals_votes hrecord
    exact ⟨hsize.trans h.1, hema.trans h.2⟩
  · intro c0 c1 source proposal ballot hrecord h
    obtain ⟨_, _, rfl⟩ := record_ballot_spec.of_ok hrecord
    exact h

/-- The listings of the voting period, if there are any, are neither empty nor
too large for the arithmetic of votes. -/
def Sized (c : Context) : Prop :=
  ∀ size, c.votes.listings_size = some size → 0 < size.toInt ∧ 8 * size.toInt < 2 ^ 31

/-- What the next vote starts from. -/
structure Polled (param : Parameters) (c : Context) : Prop where
  amendment : ∃ kind, Amendment kind c.votes
  grounded : Grounded param c
  participation_ema : ∃ ema, c.votes.participation_ema = some ema ∧ Centiles ema

omit [Environment] in
/-- In the periods of a vote the listings are weighed exactly. -/
theorem Amendment.listed_exact {kind : Voting_period_kind} (h : Amendment kind v)
    (hsize : v.listings_size = some size) (hpositive : 0 < size.toInt) : Listed v size := by
  have hnonneg : 0 ≤ size := by
    rw [le_iff_toInt_le]
    exact hpositive.le
  obtain ⟨hweights, hsum⟩ := (h.weighed size hsize).exact hnonneg
  exact ⟨hweights, hsum, h.voters⟩

variable {param : Parameters}

omit [Environment] in
/-- The vote that ends a period. -/
theorem Polled.check_approval (h : Polled param c) (hsized : Sized c)
    (hsize : c.votes.listings_size = some size) (hema : c.votes.participation_ema = some ema) :
    ∃ ballots, get_ballots c = .ok ballots ∧
      (∀ choice, (ballots.of choice).toInt =
        ∑ d ∈ c.votes.ballots.keys, weight_for c.votes choice d) ∧
      ballots.total ≤ size.toInt ∧ Approval_exact ballots size ema ∧
      Centiles (participation ballots size) ∧
      ∃ ctxt approved, check_approval_and_update_participation_ema c = .ok (ctxt, approved) ∧
        ctxt.votes.participation_ema =
          some (new_participation_ema ema (participation ballots size)) ∧
        Centiles (new_participation_ema ema (participation ballots size)) := by
  obtain ⟨_, hkind⟩ := h.amendment
  obtain ⟨_, hema', hcentiles⟩ := h.participation_ema
  rw [hema] at hema'
  cases hema'
  obtain ⟨hpositive, hsmall⟩ := hsized size hsize
  have hne : size ≠ 0 := by
    rintro rfl
    exact absurd hpositive (by decide)
  obtain ⟨ballots, hballots, hnonneg, htotal, hof⟩ :=
    (Amendment.listed_exact hkind hsize hpositive).get_ballots_exact
  obtain ⟨hexact, hparticipation, hnew⟩ := approval_exact hnonneg htotal hpositive hsmall hcentiles
  exact ⟨ballots, hballots, hof, htotal, hexact, hparticipation, _, _,
    (check_approval_eq hballots hsize hema).trans (if_neg hne), rfl, hnew⟩

/-- The end of a block keeps the range of the average. -/
theorem Polled.finalized (h : Polled param c) (hsized : Sized c) (hfinalized : Finalized c c') :
    Polled param c' := by
  obtain ⟨kind, hkind⟩ := h.amendment
  refine ⟨finalized_amendment hfinalized hkind, hfinalized.grounded h.grounded, ?_⟩
  obtain ⟨_, _, _, _, _, hfinalize⟩ := hfinalized.finalize
  obtain ⟨c1, hsame, hperiod⟩ := apply.finalize_application_votes hfinalize
  have hgrounded : Grounded param c1 :=
    h.grounded.of_same_votes hsame
  obtain ⟨ema, hema, hcentiles⟩ := h.participation_ema
  unfold Sized at hsized
  rw [← hsame.votes] at hkind hema hsized
  have h1 : Polled param c1 := ⟨⟨kind, hkind⟩, hgrounded, ema, hema, hcentiles⟩
  have hvote {c2 : Context} {approved : Bool} (hlisted : kind ≠ .Testing)
      (hcheck : check_approval_and_update_participation_ema c1 = .ok (c2, approved)) : ∃ ema,
      c2.votes.participation_ema = some ema ∧ Centiles ema := by
    obtain ⟨_, hsize⟩ := Option.isSome_iff_exists.mp (hkind.listed.mpr hlisted)
    obtain ⟨_, _, _, _, _, _, c3, _, hcheck', hnew, hrange⟩ := h1.check_approval hsized hsize hema
    rw [hcheck] at hcheck'
    cases hcheck'
    exact ⟨_, hnew, hrange⟩
  unfold may_start_new_voting_period at hperiod
  split at hperiod
  · have hkind_of : ∀ {k}, c1.votes.current_period_kind = some k → kind = k :=
      fun hk => Option.some.inj (hkind.kind_eq.symm.trans hk)
    obtain ⟨v, rfl, hstep⟩ := start_new_voting_period_success hperiod
    rw [Context.with_votes_votes]
    cases hstep fun hk => hkind.unlisted (hkind_of hk) with
    | no_winner _ _ => exact ⟨ema, hema, hcentiles⟩
    | winner _ _ => exact ⟨ema, hema, hcentiles⟩
    | approved hk hcheck => exact hvote (by rw [hkind_of hk]; simp) hcheck
    | tested _ _ => exact ⟨ema, hema, hcentiles⟩
    | concluded hk hcheck _ =>
      refine hvote ?_ hcheck
      rcases hk with hk | hk <;> rw [hkind_of hk] <;> simp
  · cases hperiod
    exact ⟨ema, hema, hcentiles⟩

omit [Environment] in
theorem Grounded.quorum_eq (h : Grounded param c) :
    c.constants.quorum_min = param.constants.quorum_min ∧
      c.constants.quorum_max = param.constants.quorum_max :=
  ⟨congrArg (·.quorum_min) h.fixed, congrArg (·.quorum_max) h.fixed⟩

/-- The first average is in range. -/
theorem genesis_polled (henv : Lawful_environment) (hbounds : Quorum_bounds param.constants)
    {level : Raw_level} {timestamp fitness : Int64}
    (h : (init_storage.prepare_first_block param level timestamp fitness).outcome = .ok c) :
    Polled param c := by
  have hgrounded := (genesis_grounded henv h).1
  obtain ⟨_, _, _, hvotes⟩ := genesis_votes henv h
  refine ⟨⟨_, genesis_amendment henv h⟩, hgrounded, param.constants.quorum_max, ?_, ?_⟩
  · rw [hvotes, hgrounded.quorum_eq.2]
  · exact ⟨hbounds.nonneg.trans hbounds.ordered, hbounds.centiles⟩

/-- So is that of every reached state. -/
theorem reached_polled (henv : Lawful_environment) (hbounds : Quorum_bounds param.constants)
    (h : Reached_where Sized param c) : Sized c ∧ Polled param c := by
  have hreached := h.induction henv (P := Polled param) (Q := fun c => Sized c ∧ Polled param c)
    ?_ ?_ ?_ ?_
  · exact or_self_iff.mp hreached
  · exact fun c _ _ _ hgenesis => genesis_polled henv hbounds hgenesis
  · intro c c1 hsized hbegun hc
    unfold Sized
    rw [hbegun.votes]
    refine ⟨hsized, ?_, hbegun.grounded hc.grounded, ?_⟩ <;> rw [hbegun.votes]
    · exact hc.amendment
    · exact hc.participation_ema
  · rintro c1 c2 _ _ _ hstep ⟨hsized, ⟨kind, hkind⟩, hgrounded, hema⟩
    obtain ⟨hsize_eq, hema_eq⟩ := operation_listings_size hstep
    unfold Sized
    rw [hsize_eq]
    refine ⟨hsized, ⟨kind, operation_amendment hstep hkind⟩, operation_grounded hstep hgrounded, ?_⟩
    rw [hema_eq]
    exact hema
  · rintro c1 c2 _ hfinalized ⟨hsized, hc⟩
    exact hc.finalized hsized hfinalized

/-- In a chain whose listings always have a positive size that leaves room for a
factor of eight, the participation and its average are hundredths of a percent,
the quorum stays between its bounds, there are no more votes than the listings
allow, and nothing wraps. -/
theorem quorum_arithmetic (henv : Lawful_environment) (param : Parameters)
    (hbounds : Quorum_bounds param.constants) (c : Context) (h : Reached_where Sized param c) :
    ∃ ema, c.votes.participation_ema = some ema ∧ Centiles ema ∧
      get_current_quorum c = .ok (quorum c.constants ema) ∧ Quorum_exact c.constants ema ∧
      param.constants.quorum_min.toInt ≤ (quorum c.constants ema).toInt ∧
      (quorum c.constants ema).toInt ≤ param.constants.quorum_max.toInt ∧
      ∀ size, c.votes.listings_size = some size →
        size.toInt = (c.votes.listings.sum fun _ weight => weight.toInt) ∧
        (∀ k, ∃ ballots,
          ((in_path_order c.votes.ballots.keys).take k).foldlM (count_round c) ⟨0, 0, 0⟩ =
            .ok ballots ∧
          ∀ choice, (ballots.of choice).toInt =
            (((in_path_order c.votes.ballots.keys).take k).map (weight_for c.votes choice)).sum) ∧
        ∃ ballots, get_ballots c = .ok ballots ∧
          (∀ choice, (ballots.of choice).toInt =
            ∑ d ∈ c.votes.ballots.keys, weight_for c.votes choice d) ∧
          ballots.yay.toInt + ballots.nay.toInt + ballots.pass.toInt ≤ size.toInt ∧
          Approval_exact ballots size ema ∧ Centiles (participation ballots size) ∧
          ∃ ctxt approved, check_approval_and_update_participation_ema c = .ok (ctxt, approved) ∧
            ctxt.votes.participation_ema =
              some (new_participation_ema ema (participation ballots size)) ∧
            Centiles (new_participation_ema ema (participation ballots size)) := by
  obtain ⟨hsized, hpolled⟩ := reached_polled henv hbounds h
  obtain ⟨ema, hema, hcentiles⟩ := hpolled.participation_ema
  obtain ⟨hmin, hmax⟩ := hpolled.grounded.quorum_eq
  obtain ⟨hnonneg, hordered, hcentile⟩ := hbounds
  rw [← hmin] at hnonneg hordered ⊢
  rw [← hmax] at hordered hcentile ⊢
  obtain ⟨hexact, hlow, hhigh⟩ :=
    (⟨hnonneg, hordered, hcentile⟩ : Quorum_bounds c.constants).exact hcentiles
  refine ⟨ema, hema, hcentiles, get_current_quorum_eq hema, hexact, hlow, hhigh, ?_⟩
  intro size hsize
  obtain ⟨_, hkind⟩ := hpolled.amendment
  have hlisted := Amendment.listed_exact hkind hsize (hsized size hsize).1
  refine ⟨hlisted.size_eq, ?_, hpolled.check_approval hsized hsize hema⟩
  intro k
  obtain ⟨ballots, hfold, _, _, hof⟩ := hlisted.partial_count k
  exact ⟨ballots, hfold, hof⟩

omit [Environment] in
/-- After the ballot of the only delegate. -/
theorem quorum_arithmetic_ballot :
    let _ := unscripted_environment
    ∃ c, Reached_where Sized two_blocks_per_period c ∧
      c.votes.ballots.lookup (.Ed25519 0) = some .Yay ∧ c.votes.listings_size = some 2 ∧
      ∃ ballots, get_ballots c = .ok ballots ∧
        ballots.yay.toInt + ballots.nay.toInt + ballots.pass.toInt ≤ 2 ∧
        Centiles (participation ballots 2) := by
  intro _
  have hreturns : (do
      let c ← baked two_blocks_per_period (fun c => decide (c.votes.listings_size = some 2))
        voting_block 2
      pure (decide (c.votes.ballots.lookup (.Ed25519 0) = some .Yay)) :
        Carbonated Bool).outcome.returns id = true := by
    decide +kernel
  simp only [Traced.returns_bind_iff, Traced.returns_pure, id_eq, decide_eq_true_eq] at hreturns
  obtain ⟨c, hbaked, hballot⟩ := hreturns
  have hsized c (hsize : decide (c.votes.listings_size = some 2) = true) : Sized c := by
    intro size hsome
    rw [of_decide_eq_true hsize] at hsome
    cases hsome
    decide
  have hsize := (baked_chain (fun _ => of_decide_eq_true) hbaked).condition
  have hreached : Reached_where Sized two_blocks_per_period c := .chain (baked_chain hsized hbaked)
  have hbounds : Quorum_bounds two_blocks_per_period.constants :=
    ⟨by decide, by decide, by decide⟩
  obtain ⟨ema, _, _, _, _, _, _, hballots⟩ :=
    quorum_arithmetic unscripted_environment_lawful _ hbounds c hreached
  obtain ⟨_, _, ballots, hget, _, hle, _, hcentiles, _⟩ := hballots 2 hsize
  exact ⟨c, hreached, hballot, hsize, ballots, hget, hle, hcentiles⟩

end main

end plexus
