import Plexus.Shell.SkipPointers
import Plexus.Lib.FixedWidth

/-! Sparse descriptions of a chain (`block_locator.ml`): the hashes met on a walk
down from the head, by steps whose lengths both ends draw from the same seed. -/

namespace plexus.block_locator

open Ancestry state List Nat
export state (Block_hash Block_header Tzresult)

abbrev Peer_id := Nat

structure Seed where
  sender_id : Peer_id
  receiver_id : Peer_id
deriving DecidableEq, Repr

/-- The hash of a sequence of buffers, and what is hashed. -/
class Locator_env where
  sha256 : List Bytes → Bytes
  peer_id_to_bytes : Peer_id → Bytes
  block_hash_to_bytes : Block_hash → Bytes

variable [Chain_env] [Locator_env]

/-! Random generator for locator steps: steps are drawn by sequences of 10, the
first of length 1. -/

namespace Step

structure State where
  step : Int32
  counter : Nat
  seed : Bytes
deriving DecidableEq, Repr

def init (seed : Seed) (head : Block_hash) : State where
  step := 1
  counter := 9
  seed := Locator_env.sha256
    [Locator_env.peer_id_to_bytes seed.sender_id, Locator_env.peer_id_to_bytes seed.receiver_id,
      Locator_env.block_hash_to_bytes head]

/-- `TzEndian.get_int32` at the start of a buffer. -/
def get_int32 (b : Bytes) : Int32 :=
  ((b.take 4).foldl (fun (acc : UInt32) byte => acc <<< 8 ||| byte.toUInt32) 0).toInt32

def draw (seed : Bytes) (n : Int32) : Int32 × Bytes :=
  (get_int32 seed % n, Locator_env.sha256 [seed])

def next (state : State) : Int × State :=
  let (random_gap, seed) :=
    if state.step ≤ 1 then (0, state.seed) else draw state.seed (state.step / 2 + 1)
  let new_state :=
    if state.counter = 0 then { step := state.step * 2, counter := 9, seed }
    else { step := state.step, counter := state.counter - 1, seed }
  ((state.step - random_gap).toInt, new_state)

end Step

abbrev Locator := Block_header × List Block_hash

def fold.loop {α : Type} (f : α → Block_hash → Block_hash → Int → Bool → α) (state : Step.State)
    (acc : α) : List Block_hash → α
  | block :: pred :: rem =>
    let (step, state) := Step.next state
    loop f state (f acc block pred step (rem ≠ [])) (pred :: rem)
  | _ => acc

def fold {α : Type} (f : α → Block_hash → Block_hash → Int → Bool → α) (init : α)
    (locator : Locator) (seed : Seed) : α :=
  let head := Chain_env.hash locator.1
  fold.loop f (Step.init seed head) init (head :: locator.2)

/-- Two consecutive hashes of a locator, and the distance between them, or a
bound for it when the step is not strict. -/
structure Link where
  block : Block_hash
  predecessor : Block_hash
  step : Int
  strict_step : Bool
deriving DecidableEq, Repr

/-- All the steps of a locator, the oldest one first. -/
def to_steps (seed : Seed) (locator : Locator) : List Link :=
  fold (fun acc block predecessor step strict_step =>
    { block, predecessor, step, strict_step } :: acc) [] locator seed

/-- Collects at most `size` hashes on the way down to the caboose. -/
def compute.loop (get_predecessor : Block_hash → Int → Tzresult (Option Block_hash))
    (caboose : Block_hash) (acc : List Block_hash) :
    (size : Nat) → Step.State → Block_hash → Tzresult (List Block_hash)
  | 0, _, _ => .ok acc
  | size + 1, state, current_block_hash => do
    match ← get_predecessor current_block_hash (Step.next state).1 with
    | none => if caboose = current_block_hash then return acc else return caboose :: acc
    | some predecessor =>
      loop get_predecessor caboose (predecessor :: acc) size (Step.next state).2 predecessor

def compute (get_predecessor : Block_hash → Int → Tzresult (Option Block_hash))
    (caboose : Block_hash) (size : Int) (block_hash : Block_hash) (header : Block_header)
    (seed : Seed) : Tzresult Locator :=
  if size ≤ 0 then .ok (header, [])
  else do
    let hist ← compute.loop get_predecessor caboose [] size.toNat (Step.init seed block_hash)
      block_hash
    return (header, hist.reverse)

/-- `State.compute_locator_from_hash` -/
def compute_locator_from_hash (chain_state : Chain_state) (size : Int) (head_hash : Block_hash)
    (seed : Seed) : Tzresult Locator := do
  let header ← unopt_assert (Header.read_opt chain_state.block_store head_hash)
  compute (predecessor_n true chain_state.block_store) chain_state.data.caboose.2 size head_hash
    header seed

/-! The lengths of the steps. -/

/-- What is taken off the next step. -/
def Step.gap (state : Step.State) : Int32 :=
  if state.step ≤ 1 then 0 else (Step.draw state.seed (state.step / 2 + 1)).1

/-- The signed word at the start of the seed once it has been hashed `n` times. -/
def Step.word (seed : Seed) (head : Block_hash) (n : Nat) : Int32 :=
  Step.get_int32 ((fun bytes => Locator_env.sha256 [bytes])^[n] (Step.init seed head).seed)

/-- The generator after some steps. -/
def Step.after (seed : Seed) (head : Block_hash) : Nat → Step.State
  | 0 => Step.init seed head
  | k + 1 => (Step.next (after seed head k)).2

/-- The state of the generator after `k` steps. -/
structure Drawn (k : Nat) (state : Step.State) : Prop where
  step : state.step.toInt = 2 ^ (k / 10)
  counter : state.counter + k % 10 = 9

section Steps

omit [Chain_env]

theorem drawn_init (seed : Seed) (head : Block_hash) : Drawn 0 (Step.init seed head) := ⟨rfl, rfl⟩

/-- A gap is at most half a step, on either side. -/
theorem draw_gap {step : Int32} (hpos : 0 ≤ step.toInt) (hle : step.toInt ≤ 2 ^ 30) (seed : Bytes) :
    2 * (Step.draw seed (step / 2 + 1)).1.toInt.natAbs ≤ step.toInt := by
  have hone : (1 : Int32).toInt = 1 := rfl
  have hhalf : (step / 2).toInt = step.toInt / 2 := Int32.toInt_div_exact hpos (by decide)
  have hbound : (step / 2 + 1).toInt = step.toInt / 2 + 1 := by
    rw [Int32.toInt_add_exact (by omega) (by omega), hhalf, hone]
  unfold Step.draw
  dsimp only
  rw [Int32.toInt_mod, hbound, Int.natAbs_tmod]
  have hlt : (Step.get_int32 seed).toInt.natAbs % (step.toInt / 2 + 1).natAbs <
      (step.toInt / 2 + 1).natAbs := mod_lt _ (by omega)
  omega

section Next

variable {k : Nat} {state : Step.State} (h : Drawn k state)
include h

omit [Locator_env] in
theorem Drawn.step_bounds (hk : k < 310) :
    1 ≤ state.step.toInt ∧ state.step.toInt ≤ 2 ^ 30 := by
  rw [h.step]
  constructor
  · exact_mod_cast Nat.one_le_two_pow
  · exact_mod_cast Nat.pow_le_pow_right (by decide) (show k / 10 ≤ 30 by omega)

/-- In the first 31 sequences nothing overflows. -/
theorem Drawn.next_step (hk : k < 310) :
    (Step.next state).1 = 2 ^ (k / 10) - (Step.gap state).toInt ∧
      2 * (Step.gap state).toInt.natAbs ≤ (2 ^ (k / 10) : Int) := by
  obtain ⟨hpos, hle⟩ := h.step_bounds hk
  have hnext : (Step.next state).1 = (state.step - Step.gap state).toInt := by
    unfold Step.next Step.gap
    dsimp only
    rw [apply_ite Prod.fst]
  have hgap : 2 * (Step.gap state).toInt.natAbs ≤ state.step.toInt := by
    unfold Step.gap
    split
    next => exact Int.le_of_lt hpos
    next => exact draw_gap (by omega) hle state.seed
  rw [hnext, ← h.step, Int32.toInt_sub_exact (by omega) (by omega)]
  exact ⟨rfl, hgap⟩

theorem Drawn.next_pos (hk : k < 310) : 1 ≤ (Step.next state).1 := by
  obtain ⟨_, _⟩ := h.next_step hk
  obtain ⟨_, -⟩ := h.step_bounds hk
  have hstep := h.step
  omega

theorem Drawn.next (hk : k < 309) : Drawn (k + 1) (Step.next state).2 := by
  have hcounter := h.counter
  unfold Step.next
  dsimp only
  split
  next hzero =>
    have hk1 : (k + 1) / 10 = k / 10 + 1 := by omega
    have hle : state.step.toInt ≤ 2 ^ 29 := by
      rw [h.step]
      exact_mod_cast Nat.pow_le_pow_right (by decide) (show k / 10 ≤ 29 by omega)
    obtain ⟨_, -⟩ := h.step_bounds (by omega)
    have htwo : (2 : Int32).toInt = 2 := rfl
    have hdouble : (state.step * 2).toInt = state.step.toInt * 2 :=
      Int32.toInt_mul_exact (by rw [htwo]; omega) (by rw [htwo]; omega)
    exact ⟨by rw [hdouble, h.step, hk1, pow_succ], by dsimp only; omega⟩
  next hne =>
    have hk1 : (k + 1) / 10 = k / 10 := by omega
    exact ⟨by rw [h.step, hk1], by dsimp only; omega⟩

end Next

theorem drawn_after (seed : Seed) (head : Block_hash) {k : Nat} (hk : k < 310) :
    Drawn k (Step.after seed head k) := by
  induction k with
  | zero => exact drawn_init seed head
  | succ k ih => exact (ih (by omega)).next (by omega)

theorem Step.seed_next (state : Step.State) :
    (Step.next state).2.seed =
      if state.step ≤ 1 then state.seed else Locator_env.sha256 [state.seed] := by
  unfold Step.next
  by_cases hstep : state.step ≤ 1 <;> by_cases hcounter : state.counter = 0 <;>
    simp [hstep, hcounter, Step.draw]

/-- The first sequence leaves the seed alone, and every later step hashes it. -/
theorem seed_after (seed : Seed) (head : Block_hash) {k : Nat} (hk : k < 310) :
    (Step.after seed head k).seed =
      (fun bytes => Locator_env.sha256 [bytes])^[k - 10] (Step.init seed head).seed := by
  induction k with
  | zero => rfl
  | succ k ih =>
    have hstep : (Step.after seed head k).step.toInt = 2 ^ (k / 10) :=
      (drawn_after seed head (by omega)).step
    have hone : (1 : Int32).toInt = 1 := rfl
    rw [Step.after, Step.seed_next, ih (by omega)]
    rcases lt_or_ge k 10 with hlt | hge
    · rw [Nat.div_eq_of_lt hlt, pow_zero] at hstep
      rw [if_pos (by rw [Int32.le_iff_toInt_le]; omega), Nat.sub_eq_zero_of_le hlt.le,
        Nat.sub_eq_zero_of_le hlt]
    · have htwo : (2 ^ 1 : Int) ≤ 2 ^ (k / 10) :=
        pow_le_pow_right₀ (by decide) (by omega)
      rw [if_neg (by rw [Int32.le_iff_toInt_le]; omega), Nat.succ_sub hge,
        Function.iterate_succ_apply']

/-- The gap of a step is not negative unless the word is and leaves a remainder. -/
theorem gap_nonneg_iff {k : Nat} (hk : k < 300) {state : Step.State} (h : Drawn (10 + k) state) :
    0 ≤ (Step.gap state).toInt ↔ 0 ≤ (Step.get_int32 state.seed).toInt ∨
      (2 ^ (k / 10) + 1 : Int) ∣ (Step.get_int32 state.seed).toInt := by
  have hone : (1 : Int32).toInt = 1 := rfl
  obtain ⟨-, hle⟩ := h.step_bounds (by omega)
  have hstep : state.step.toInt = 2 ^ (k / 10) * 2 := by
    rw [h.step, ← pow_succ]
    congr 1
    omega
  have hpos : (0 : Int) < 2 ^ (k / 10) := by positivity
  have hhalf : (state.step / 2).toInt = 2 ^ (k / 10) := by
    rw [Int32.toInt_div_exact (by omega) (by decide), hstep]
    exact Int.mul_ediv_cancel _ (by decide)
  have hbound : (state.step / 2 + 1).toInt = 2 ^ (k / 10) + 1 := by
    rw [Int32.toInt_add_exact (by omega) (by omega), hhalf, hone]
  unfold Step.gap Step.draw
  rw [if_neg (by rw [Int32.le_iff_toInt_le]; omega), Int32.toInt_mod, hbound]
  constructor
  · intro hgap
    by_contra! hword
    obtain ⟨hneg, hrem⟩ := hword
    rw [Int.dvd_iff_tmod_eq_zero] at hrem
    have hle : 0 ≤ (-(Step.get_int32 state.seed).toInt).tmod (2 ^ (k / 10) + 1) :=
      Int.tmod_nonneg _ (by omega)
    rw [Int.neg_tmod] at hle
    omega
  · rintro (hword | hword)
    · exact Int.tmod_nonneg _ hword
    · rw [Int.dvd_iff_tmod_eq_zero.mp hword]

/-- The steps of the first sequence are 1, and all are positive. Those of the sequence after `k`
others are at least half of `2 ^ k`, and at most `2 ^ k` exactly where the word drawn for them is
not negative or a multiple of what it is reduced by. -/
theorem locator_steps_bounded_iff (seed : Seed) (head : Block_hash) {k i : Nat} (hk : k ≤ 30)
    (hi : i < 10) :
    let step := (Step.next (Step.after seed head (10 * k + i))).1
    let word := (Step.word seed head (10 * (k - 1) + i)).toInt
    (k = 0 → step = 1) ∧ 1 ≤ step ∧
      (1 ≤ k → 2 ^ (k - 1) ≤ step ∧
        (step ≤ 2 ^ k ↔ 0 ≤ word ∨ (2 ^ (k - 1) + 1 : Int) ∣ word)) := by
  intro step word
  have hdrawn : Drawn (10 * k + i) (Step.after seed head (10 * k + i)) :=
    drawn_after seed head (by omega)
  have hgroup : (10 * k + i) / 10 = k := by omega
  obtain ⟨hnext, hgap⟩ := hdrawn.next_step (by omega)
  rw [hgroup] at hnext hgap
  refine ⟨?_, hdrawn.next_pos (by omega), ?_⟩
  · rintro rfl
    rw [pow_zero] at hnext hgap
    omega
  · intro hpos
    obtain ⟨j, rfl⟩ := Nat.exists_eq_add_of_le' hpos
    have hword : Step.word seed head (10 * j + i) =
        Step.get_int32 (Step.after seed head (10 * (j + 1) + i)).seed := by
      rw [seed_after seed head (by omega), show 10 * (j + 1) + i - 10 = 10 * j + i by omega]
      rfl
    have hiff := gap_nonneg_iff (k := 10 * j + i) (by omega)
      (show Drawn (10 + (10 * j + i)) (Step.after seed head (10 * (j + 1) + i)) by
        rw [show 10 + (10 * j + i) = 10 * (j + 1) + i by omega]; exact hdrawn)
    rw [← hword, show (10 * j + i) / 10 = j by omega] at hiff
    change 2 ^ j ≤ step ∧ (step ≤ 2 ^ (j + 1) ↔
      0 ≤ (Step.word seed head (10 * j + i)).toInt ∨
        (2 ^ j + 1 : Int) ∣ (Step.word seed head (10 * j + i)).toInt)
    rw [← hiff]
    rw [pow_succ] at hnext hgap ⊢
    constructor <;> omega

/-- Hashes that all start with one word. -/
@[reducible] def constant_word (bytes : Bytes) : Locator_env where
  sha256 _ := bytes
  peer_id_to_bytes _ := []
  block_hash_to_bytes _ := []

omit [Locator_env] in
/-- A step of the third sequence, where the word 1 is drawn. -/
theorem locator_steps_bounded_third :
    let _ := constant_word [0, 0, 0, 1]
    let step := (Step.next (Step.after ⟨0, 1⟩ 0 23)).1
    2 ≤ step ∧ step ≤ 4 := by
  intro _
  have h := (locator_steps_bounded_iff ⟨0, 1⟩ 0 (k := 2) (i := 3) (by decide) (by decide)).2.2
    (by decide)
  exact ⟨h.1, h.2.mpr (.inl (by decide +kernel))⟩

omit [Locator_env] in
/-- The eleventh step is 3, where 2 is the bound. -/
theorem locator_step_above_bound :
    let _ := constant_word [255, 255, 255, 255]
    (Step.next (Step.after ⟨0, 1⟩ 0 10)).1 = 3 := by
  decide +kernel

end Steps

/-! The walk. -/

/-- What is met on a walk of at most `size` steps from a block: the ancestors at
the distances drawn, and the caboose when the next one would be below it. -/
inductive Walk (prev : Block_hash → Option Block_hash) (caboose : Block_hash) :
    (size : Nat) → Step.State → Block_hash → List Block_hash → Prop where
  | full {state : Step.State} {current : Block_hash} : Walk prev caboose 0 state current []
  | arrived {size : Nat} {state : Step.State} : Walk prev caboose (size + 1) state caboose []
  | last {size : Nat} {state : Step.State} {current : Block_hash} (d : Nat) (hpos : 1 ≤ d)
      (hlt : (d : Int) < (Step.next state).1) (hclimb : climb prev d current = some caboose) :
      Walk prev caboose (size + 1) state current [caboose]
  | step {size : Nat} {state : Step.State} {current p : Block_hash} {hist : List Block_hash}
      (hpos : 1 ≤ (Step.next state).1)
      (hclimb : climb prev (Step.next state).1.toNat current = some p)
      (hrest : Walk prev caboose size (Step.next state).2 p hist) :
      Walk prev caboose (size + 1) state current (p :: hist)

/-- The predecessors down to the caboose are found, and no others. -/
structure Exact_history (prev : Block_hash → Option Block_hash) (head caboose : Block_hash)
    (get_predecessor : Block_hash → Int → Tzresult (Option Block_hash)) : Prop where
  reached : Ancestor prev caboose head
  found : ∀ b (n : Nat), Ancestor prev b head → Ancestor prev caboose b →
    ∃ r, get_predecessor b n = .ok r ∧
      ∀ a, r = some a ↔ climb prev n b = some a ∧ Ancestor prev caboose a

variable {prev : Block_hash → Option Block_hash} {head caboose : Block_hash}
  {get_predecessor : Block_hash → Int → Tzresult (Option Block_hash)}

omit [Chain_env] in
theorem compute.loop_spec (hexact : Exact_history prev head caboose get_predecessor) {size k : Nat}
    (hk : k + size ≤ 300) {state : Step.State} (hstate : Drawn k state) {current : Block_hash}
    (hcaboose : Ancestor prev caboose current) (hhead : Ancestor prev current head)
    (acc : List Block_hash) :
    ∃ hist, compute.loop get_predecessor caboose acc size state current =
        .ok (hist.reverse ++ acc) ∧ Walk prev caboose size state current hist := by
  induction size generalizing k state current acc with
  | zero => exact ⟨[], rfl, .full⟩
  | succ size ih =>
    have hpos := hstate.next_pos (by omega)
    have hnext := hstate.next (by omega)
    have hcast : ((Step.next state).1.toNat : Int) = (Step.next state).1 :=
      Int.toNat_of_nonneg (by omega)
    obtain ⟨r, hget, hfound⟩ := hexact.found current (Step.next state).1.toNat hhead hcaboose
    rw [hcast] at hget
    rw [compute.loop, hget, Result.bind_ok]
    cases r with
    | some p =>
      obtain ⟨hclimb, hp⟩ := (hfound p).mp rfl
      obtain ⟨hist, hloop, hwalk⟩ := ih (by omega) hnext hp
        (Ancestor.trans ⟨_, hclimb⟩ hhead) (p :: acc)
      refine ⟨p :: hist, ?_, .step hpos hclimb hwalk⟩
      rw [reverse_cons, append_assoc]
      exact hloop
    | none =>
      dsimp only
      split
      next heq =>
        subst heq
        exact ⟨[], rfl, .arrived⟩
      next hne =>
        obtain ⟨d, hd⟩ := hcaboose
        refine ⟨[caboose], rfl, .last d ?_ ?_ hd⟩
        · by_contra hzero
          obtain rfl : d = 0 := by omega
          exact hne (Option.some.inj hd).symm
        · by_contra hge
          obtain ⟨a, ha, hrest⟩ := exists_climb_of_le (m := (Step.next state).1.toNat) hd (by omega)
          cases (hfound a).mpr ⟨ha, _, hrest⟩

/-- The steps of a locator, the newest one first. -/
def links (state : Step.State) : List Block_hash → List Link
  | block :: predecessor :: rem =>
    { block, predecessor, step := (Step.next state).1, strict_step := rem ≠ [] } ::
      links (Step.next state).2 (predecessor :: rem)
  | _ => []

omit [Chain_env] in
theorem fold.loop_eq (state : Step.State) (acc : List Link) (hist : List Block_hash) :
    fold.loop (fun acc block predecessor step strict_step =>
      { block, predecessor, step, strict_step } :: acc) state acc hist =
        (links state hist).reverse ++ acc := by
  fun_induction links state hist generalizing acc with
  | case1 state block predecessor rem ih =>
    rw [fold.loop, reverse_cons, append_assoc]
    exact ih _
  | case2 state hist hshort =>
    unfold fold.loop
    split
    next => exact absurd rfl (hshort _ _ _)
    next => rfl

/-- The steps, from the newest one on, go down from a block without gap. All but
the oldest one are strict. -/
inductive Covers (prev : Block_hash → Option Block_hash) : Block_hash → List Link → Prop where
  | nil {block : Block_hash} : Covers prev block []
  | oldest (link : Link) (hstrict : link.strict_step = false) (d : Nat) (hpos : 1 ≤ d)
      (hle : (d : Int) ≤ link.step) (hclimb : climb prev d link.block = some link.predecessor) :
      Covers prev link.block [link]
  | cons (link : Link) {older : List Link} (hstrict : link.strict_step = true)
      (hpos : 1 ≤ link.step) (hclimb : climb prev link.step.toNat link.block = some link.predecessor)
      (hne : older ≠ []) (holder : Covers prev link.predecessor older) :
      Covers prev link.block (link :: older)

section Walk

variable {size : Nat} {state : Step.State} {current : Block_hash} {hist : List Block_hash}

section

variable (h : Walk prev caboose size state current hist)

include h

omit [Chain_env]

theorem Walk.covers :
    Covers prev current (links state (current :: hist)) := by
  induction h with
  | full => exact .nil
  | arrived => exact .nil
  | last d hpos hlt hclimb => exact .oldest ⟨_, _, _, _⟩ rfl d hpos hlt.le hclimb
  | @step size state current p hist hpos hclimb hrest ih =>
    cases hist with
    | nil =>
      exact .oldest ⟨_, _, _, _⟩ rfl (Step.next state).1.toNat (by omega)
        (Int.toNat_of_nonneg (by omega)).le hclimb
    | cons q hist => exact .cons ⟨_, _, _, _⟩ rfl hpos hclimb (by simp [links]) ih

theorem Walk.length_le : hist.length ≤ size := by
  induction h with
  | full => exact le_refl 0
  | arrived => exact zero_le _
  | last => exact succ_le_succ (zero_le _)
  | step _ _ _ ih => exact succ_le_succ ih

/-- A walk that has steps left ends at the caboose. -/
theorem Walk.ends (hlt : hist.length < size) :
    (current :: hist).getLast? = some caboose := by
  induction h with
  | full => omega
  | arrived => rfl
  | last => rfl
  | step _ _ _ ih => rw [getLast?_cons_cons, ih (lt_of_succ_lt_succ hlt)]

end

omit [Chain_env] in
theorem map_predecessor_links (state : Step.State) (block : Block_hash) (hist : List Block_hash) :
    (links state (block :: hist)).map Link.predecessor = hist := by
  induction hist generalizing state block with
  | nil => rfl
  | cons p hist ih => rw [links, map_cons, ih]

end Walk

/-- What a locator is to say of the chain below a block. -/
structure Describes (prev : Block_hash → Option Block_hash) (head caboose : Block_hash) (size : Int)
    (seed : Seed) (locator : Locator) : Prop where
  length_le : locator.2.length ≤ size.toNat
  steps : ∃ newest_first, to_steps seed locator = newest_first.reverse ∧
    newest_first.map Link.predecessor = locator.2 ∧ Covers prev head newest_first
  ends : locator.2.length < size.toNat → (head :: locator.2).getLast? = some caboose

theorem compute_spec (hexact : Exact_history prev head caboose get_predecessor) {size : Int}
    (hsize : size ≤ 300) {header : Block_header}
    (hhead : Chain_env.hash header = head ∨ prev head = none) (seed : Seed) :
    ∃ hist, compute get_predecessor caboose size head header seed = .ok (header, hist) ∧
      Describes prev head caboose size seed (header, hist) := by
  have hle : 0 + size.toNat ≤ 300 := by omega
  obtain ⟨hist, hloop, hwalk⟩ := compute.loop_spec hexact hle (drawn_init seed head)
    hexact.reached (.refl head) []
  have hsteps : to_steps seed (header, hist) =
      (links (Step.init seed (Chain_env.hash header)) (Chain_env.hash header :: hist)).reverse := by
    refine (fold.loop_eq _ _ _).trans ?_
    rw [append_nil]
  refine ⟨hist, ?_, hwalk.length_le, ⟨links (Step.init seed head) (head :: hist), ?_,
    map_predecessor_links _ _ _, hwalk.covers⟩, hwalk.ends⟩
  · unfold compute
    split
    next hzero =>
      have hnil : hist = [] := by
        have hle := hwalk.length_le
        rw [Int.toNat_of_nonpos hzero] at hle
        exact eq_nil_of_length_eq_zero (le_zero.mp hle)
      rw [hnil]
    next =>
      rw [hloop, Result.bind_ok, append_nil, reverse_reverse]
      rfl
  · rw [hsteps]
    obtain rfl | hnone := hhead
    · rfl
    · have hstop n p (hn : 1 ≤ n) : climb prev n head ≠ some p := by
        intro hclimb
        obtain ⟨m, rfl⟩ := Nat.exists_eq_add_of_le' hn
        rw [climb_succ, hnone] at hclimb
        cases hclimb
      generalize size.toNat = n at hwalk
      cases hwalk with
      | full => rfl
      | arrived => rfl
      | last d hpos _ hclimb => exact absurd hclimb (hstop d _ hpos)
      | step hpos hclimb => exact absurd hclimb (hstop _ _ (by omega))

omit [Locator_env] in
/-- The pointers of a store find every predecessor down to the first block. -/
theorem exact_history_of_grown {store : Block_store} (hgrown : Grown store) {header : Block_header}
    (hhead : Header.read_opt store head = some header) :
    Exact_history (parent (Header.read_opt store)) head Chain_env.genesis.block
      (predecessor_n true store) := by
  refine ⟨hgrown.tree.rooted head header hhead, fun b n hb _ => ?_⟩
  obtain ⟨_, hbheader⟩ := hgrown.tree.ancestor_mem hb ⟨header, hhead⟩
  refine ⟨climb (parent (Header.read_opt store)) n b, ?_, fun a => ?_⟩
  · unfold predecessor_n
    rw [hgrown.predecessor_n_raw_eq hbheader, Result.bind_ok]
    cases hclimb : climb (parent (Header.read_opt store)) n b with
    | none => rfl
    | some a =>
      have hknown := Header.known_iff.mpr (hgrown.tree.ancestor_mem ⟨n, hclimb⟩ ⟨_, hbheader⟩)
      simp [hknown]
  · constructor
    · intro hclimb
      obtain ⟨aheader, haheader⟩ := hgrown.tree.ancestor_mem ⟨n, hclimb⟩ ⟨_, hbheader⟩
      exact ⟨hclimb, hgrown.tree.rooted a aheader haheader⟩
    · exact And.left

/-- Locators describe the chain: for an exact history in general, and for the
chains in a store that only grew. -/
theorem locator_describes_chain :
    (∀ (prev : Block_hash → Option Block_hash) (head caboose : Block_hash)
      (get_predecessor : Block_hash → Int → Tzresult (Option Block_hash)) (size : Int)
      (header : Block_header) (seed : Seed), Exact_history prev head caboose get_predecessor →
      size ≤ 300 → (Chain_env.hash header = head ∨ prev head = none) →
      ∃ hist, compute get_predecessor caboose size head header seed = .ok (header, hist) ∧
        Describes prev head caboose size seed (header, hist)) ∧
    ∀ (s : Chain_state) (size : Int) (head : Block_hash) (header : Block_header) (seed : Seed),
      Grown s.block_store → s.data.caboose.2 = Chain_env.genesis.block →
      Header.read_opt s.block_store head = some header → size ≤ 300 →
      (Chain_env.hash header = head ∨ head = Chain_env.genesis.block) →
      ∃ hist, compute_locator_from_hash s size head seed = .ok (header, hist) ∧
        Describes (parent (Header.read_opt s.block_store)) head Chain_env.genesis.block size seed
          (header, hist) := by
  constructor
  · intro prev head caboose get_predecessor size header seed hexact hsize hhead
    exact compute_spec hexact hsize hhead seed
  · intro s size head header seed hgrown hcaboose hread hsize hhead
    unfold compute_locator_from_hash
    rw [hread, hcaboose]
    refine compute_spec (exact_history_of_grown hgrown hread) hsize (hhead.imp id ?_) seed
    rintro rfl
    exact hgrown.tree.parent_genesis

omit [Chain_env] [Locator_env] in
/-- A chain of 21 blocks above the first one, with room for 300 hashes. -/
theorem locator_describes_short_chain :
    let _ := Chain_env.numbered
    let _ := constant_word [0, 0, 0, 1]
    let header : Block_header :=
      { Locked_block.genesis_header with
        shell := { Locked_block.genesis_header.shell with predecessor := 20 } }
    let prev := fun h => if h = 421 then some 20 else if h = 0 then none else some (h - 1)
    ∃ hist, compute (fun b n => .ok (climb prev n.toNat b)) 0 300 421 header ⟨0, 1⟩ =
        .ok (header, hist) ∧ Describes prev 421 0 300 ⟨0, 1⟩ (header, hist) := by
  intro _ _ header prev
  have hnone : prev 0 = none := rfl
  have hhash : Chain_env.hash header = 421 := by decide +kernel
  refine locator_describes_chain.1 prev 421 0 _ 300 header ⟨0, 1⟩ ⟨⟨21, by decide +kernel⟩, ?_⟩
    (by decide) (.inl hhash)
  intro b n _ hcaboose
  refine ⟨climb prev n b, rfl, fun a => ⟨fun ha => ⟨ha, ?_⟩, And.left⟩⟩
  obtain hanc | hanc := hcaboose.total ⟨n, ha⟩
  · exact hanc
  · rw [hanc.eq_of_parent_eq_none hnone]
    exact .refl _

end plexus.block_locator
