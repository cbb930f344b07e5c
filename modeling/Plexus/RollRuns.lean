import Plexus.Lib.Run
import Plexus.RollAccounts

namespace plexus.roll_storage

open Result Qty Int32 Nat

variable {c c' : Context} {d : Public_key_hash} {a : Roll_lists}

/-! Following the links of a represented list. -/

variable {l : List Roll}

/-- The loop follows the successors to the end of the list. -/
theorem traverse_rolls_loop_eq {acc : List Roll} {roll : Roll} {fuel : Nat}
    (h : Follows c.rolls.successor.lookup (c.rolls.successor.lookup roll) l)
    (hfuel : l.length < fuel) : traverse_rolls_loop c fuel acc roll = .ok (acc.reverse ++ l) := by
  induction l generalizing acc roll fuel with
  | nil =>
    obtain ⟨fuel, rfl⟩ := exists_eq_succ_of_ne_zero (ne_of_gt hfuel)
    have hnone : c.rolls.successor.lookup roll = none := h.head_eq
    simp [traverse_rolls_loop, hnone]
  | cons next l ih =>
    obtain ⟨fuel, rfl⟩ := exists_eq_succ_of_ne_zero (ne_of_gt (zero_lt_of_lt hfuel))
    have hsome : c.rolls.successor.lookup roll = some next := h.head_eq
    rw [hsome, Follows.some_iff] at h
    obtain ⟨t, ht, hl⟩ := h
    obtain ⟨_, rfl⟩ := List.cons.inj ht
    rw [List.length_cons] at hfuel
    simp only [traverse_rolls_loop, Indexed_data_storage.get_option, Storage.Roll.Successor_store,
      hsome]
    rw [ih hl (by omega)]
    simp

/-- The rolls are counted as they would be listed. -/
theorem count_rolls_loop_eq (fuel : Nat) (acc : List Roll) (roll : Roll) :
    count_rolls_loop c fuel acc.length roll =
      List.length <$> traverse_rolls_loop c fuel acc roll := by
  induction fuel generalizing acc roll with
  | zero => rfl
  | succ fuel ih =>
    unfold count_rolls_loop traverse_rolls_loop
    split
    · exact congrArg Result.ok List.length_reverse.symm
    · next next _ => exact ih (next :: acc) next

/-- The fuel of the two loops covers every list that ends. -/
theorem length_lt_fuel {head : Roll}
    (h : Follows c.rolls.successor.lookup (some head) (head :: l)) :
    l.length < c.rolls.successor.keys.card + 1 := by
  have hlength := h.length_le c.rolls.successor.keys
    fun r hr => (c.rolls.successor.mem_keys r).mpr hr
  rw [List.length_cons] at hlength
  omega

/-- The rolls of a delegate are those of its list. -/
theorem get_rolls_eq (hrep : c.rolls.Represents a) (d : Public_key_hash) :
    get_rolls c d = .ok (a.lists d) := by
  have hlist := hrep.lists d
  simp only [get_rolls, Indexed_data_storage.get_option, Storage.Roll.Delegate_roll_list_store]
  cases hhead : c.rolls.delegate_roll_list.lookup d with
  | none =>
    rw [hhead, Follows.none_iff] at hlist
    rw [hlist]
  | some head =>
    rw [hhead] at hlist
    obtain ⟨l, hl, hfollows⟩ := Follows.some_iff.mp hlist
    rw [hl] at hlist ⊢
    dsimp only
    rw [traverse_rolls, traverse_rolls_loop_eq hfollows (length_lt_fuel hlist)]
    simp

/-- Counting the rolls of a delegate. -/
theorem count_rolls_eq (hrep : c.rolls.Represents a) (d : Public_key_hash) :
    count_rolls c d = .ok (a.lists d).length := by
  have hcount : count_rolls c d = List.length <$> get_rolls c d := by
    unfold count_rolls get_rolls
    split
    · rfl
    · next head _ => exact count_rolls_loop_eq _ [head] head
  rw [hcount, get_rolls_eq hrep]
  rfl

/-! Runs of the functions that move rolls. -/

/-- One successful call. A roll is created with the key the delegate has
revealed: both callers of `create_roll_in_delegate` read it there. -/
inductive Roll_step (c c' : Context) : Prop where
  | create_roll_in_delegate (delegate : Public_key_hash) (delegate_pk : Public_key)
      (hpk : delegate_pubkey c delegate = .ok delegate_pk)
      (h : Delegate.create_roll_in_delegate c delegate delegate_pk = .ok c')
  | pop_roll_from_delegate (delegate : Public_key_hash) (roll : Roll)
      (h : Delegate.pop_roll_from_delegate c delegate = .ok (roll, c'))
  | add_amount (delegate : Public_key_hash) (amount : Mine)
      (h : Delegate.add_amount c delegate amount = .ok c')
  | remove_amount (delegate : Public_key_hash) (amount : Mine)
      (h : Delegate.remove_amount c delegate amount = .ok c')
  | set_inactive (delegate : Public_key_hash) (h : Delegate.set_inactive c delegate = .ok c')
  | set_active (delegate : Public_key_hash) (h : Delegate.set_active c delegate = .ok c')

/-- Every call books some amount to some delegate. -/
theorem Roll_step.booked (h : Roll_step c c') : ∃ d δ, Delegate.Booked d δ c c' := by
  cases h with
  | create_roll_in_delegate delegate delegate_pk hpk h =>
    exact ⟨delegate, _, Delegate.create_roll_in_delegate_booked hpk h⟩
  | pop_roll_from_delegate delegate roll h =>
    exact ⟨delegate, _, Delegate.pop_roll_from_delegate_booked h⟩
  | add_amount delegate amount h => exact ⟨delegate, _, Delegate.add_amount_spec.of_ok h⟩
  | remove_amount delegate amount h => exact ⟨delegate, _, Delegate.remove_amount_spec.of_ok h⟩
  | set_inactive delegate h => exact ⟨delegate, _, Delegate.set_inactive_booked h⟩
  | set_active delegate h => exact ⟨delegate, _, Delegate.set_active_spec.of_ok h⟩

/-- The stores represent some lists, and each roll of a list is owned by the
key of its delegate. -/
def Lists_owned (c : Context) : Prop :=
  ∃ a, c.rolls.Represents a ∧ c.rolls.Keyed (Delegate.delegate_key c) a

/-- A step keeps the lists. -/
theorem Roll_step.lists_owned (h : Roll_step c c') (hlists : Lists_owned c) : Lists_owned c' := by
  obtain ⟨d, δ, hbooked⟩ := h.booked
  obtain ⟨a, hrep, hkeyed⟩ := hlists
  obtain ⟨a', hrep', _, _, hkeyed'⟩ := hbooked.represents a hrep
  refine ⟨a', hrep', ?_⟩
  have hkey : Delegate.delegate_key c' = Delegate.delegate_key c := by
    rw [hbooked.with_rolls]
    rfl
  rw [hkey]
  exact hkeyed' hkeyed

/-- The lists of the first block are empty. -/
theorem init_lists_owned (hempty : c.rolls = Rolls.empty) (h : init c = .ok c') :
    Lists_owned c' := by
  unfold init at h
  rw [Single_data_storage.init_eq_ok_iff] at h
  obtain ⟨_, rfl⟩ := h
  refine ⟨Roll_lists.empty, ?_, ?_⟩
  · simp only [Storage.Roll.Next_update, Context.with_rolls_rolls, hempty]
    exact Rolls.Represents.initial
  · intro d r hr
    simp [Roll_lists.empty] at hr

/-- The representation of the roll lists: `allocated` numbers have been handed
out, `limbo` and `lists` are found by following successors. -/
structure Well_formed (c : Context) (allocated : Nat) (limbo : List Roll)
    (lists : Public_key_hash → List Roll) : Prop where
  allocated_le : allocated ≤ 2 ^ 32
  next : c.rolls.next = some (Int32.ofNat allocated)
  limbo_follows : Follows c.rolls.successor.lookup c.rolls.limbo limbo
  lists_follow : ∀ d,
    Follows c.rolls.successor.lookup (c.rolls.delegate_roll_list.lookup d) (lists d)
  acyclic : limbo.Nodup ∧ ∀ d, (lists d).Nodup
  /-- an allocated roll is in the limbo and in no delegate's list, or in the
  list of exactly one delegate and not in the limbo -/
  exactly_one : ∀ i < allocated,
    Int32.ofNat i ∈ limbo ∧ (∀ d, Int32.ofNat i ∉ lists d) ∨
      Int32.ofNat i ∉ limbo ∧ ∃! d, Int32.ofNat i ∈ lists d
  only_allocated : ∀ r, (r ∈ limbo ∨ ∃ d, r ∈ lists d) → ∃ i < allocated, r = Int32.ofNat i
  owner_defined_iff : ∀ r, (∃ pk, c.rolls.owner.lookup r = some pk) ↔ ∃ d, r ∈ lists d
  owner_key : ∀ d, ∀ r ∈ lists d, ∃ pk,
    c.rolls.owner.lookup r = some pk ∧ delegate_pubkey c d = .ok pk
  limbo_unowned : ∀ r ∈ limbo, c.rolls.owner.lookup r = none
  traversed : ∀ d, get_rolls c d = .ok (lists d) ∧ count_rolls c d = .ok (lists d).length
  /-- until the numbers wrap, the allocated rolls are those from the first to
  the next one -/
  below_next : allocated < 2 ^ 31 → ∀ r : Roll,
    (∃ i < allocated, r = Int32.ofNat i) ↔ roll_repr.first ≤ r ∧ r < Int32.ofNat allocated

theorem toInt_ofNat_of_lt {n : Nat} (h : n < 2 ^ 31) : (Int32.ofNat n).toInt = n := by
  have hsize : Int32.size = 2 ^ 32 := rfl
  rw [toInt_ofNat', hsize]
  exact Int.bmod_eq_of_le (by omega) (by omega)

/-- Rolls are allocated in the order of their numbers. -/
theorem allocated_iff_below_next {n : Nat} (hn : n < 2 ^ 31) (r : Roll) :
    (∃ i < n, r = Int32.ofNat i) ↔ roll_repr.first ≤ r ∧ r < Int32.ofNat n := by
  rw [le_iff_toInt_le, lt_iff_toInt_lt, toInt_ofNat_of_lt hn]
  constructor
  · rintro ⟨i, hi, rfl⟩
    rw [toInt_ofNat_of_lt (by omega)]
    exact ⟨by simp [roll_repr.first], by omega⟩
  · rintro ⟨hfirst, hlt⟩
    have hnonneg : 0 ≤ r.toInt := by simpa [roll_repr.first] using hfirst
    refine ⟨r.toInt.toNat, by omega, ?_⟩
    rw [← toInt_inj, toInt_ofNat_of_lt (by omega)]
    omega

/-- Lists of owned rolls are well formed. -/
theorem Lists_owned.well_formed (h : Lists_owned c) :
    ∃ allocated limbo lists, Well_formed c allocated limbo lists := by
  obtain ⟨a, hrep, hkeyed⟩ := h
  refine ⟨a.allocated, a.limbo, a.lists, ?_⟩
  have howner r : (∃ pk, c.rolls.owner.lookup r = some pk) ↔ ∃ d, r ∈ a.lists d := by
    rw [← hrep.owner r, Option.isSome_iff_exists]
  constructor
  · exact a.allocated_le
  · exact hrep.next
  · exact hrep.limbo
  · exact hrep.lists
  · exact ⟨a.limbo_nodup, a.lists_nodup⟩
  · intro i hi
    rcases (a.cover (Int32.ofNat i)).mp ⟨i, hi, rfl⟩ with hlimbo | ⟨d, hd⟩
    · exact .inl ⟨hlimbo, fun d => a.limbo_disjoint d _ hlimbo⟩
    · refine .inr ⟨fun hlimbo => a.limbo_disjoint d _ hlimbo hd, d, hd, ?_⟩
      intro d' hd'
      exact a.lists_disjoint d' d _ hd' hd
  · intro r hr
    exact (a.cover r).mpr hr
  · exact howner
  · intro d r hr
    obtain ⟨pk, hpk⟩ := (howner r).mpr ⟨d, hr⟩
    refine ⟨pk, hpk, Delegate.delegate_pubkey_eq_ok_iff.mpr ?_⟩
    rw [← hkeyed d r hr, hpk]
  · intro r hr
    rw [← Option.not_isSome_iff_eq_none, hrep.owner r]
    rintro ⟨d, hd⟩
    exact a.limbo_disjoint d r hr hd
  · intro d
    exact ⟨get_rolls_eq hrep d, count_rolls_eq hrep d⟩
  · intro hlt r
    exact allocated_iff_below_next hlt r

/-- In every state reached from `Roll_storage.init` by successful calls the
roll stores hold a limbo and one list per delegate that share no roll and lose
none. -/
theorem roll_lists_well_formed {c0 c1 c : Context} (hempty : c0.rolls = Rolls.empty)
    (hinit : init c0 = .ok c1) (hrun : Relation.ReflTransGen Roll_step c1 c) :
    ∃ allocated limbo lists, Well_formed c allocated limbo lists := by
  apply Lists_owned.well_formed
  apply hrun.preserves (fun _ _ hstep => hstep.lists_owned)
  exact init_lists_owned hempty hinit

/-- A delegate with a revealed key, and rolls of the smallest size. -/
def smallest_rolls : Context :=
  let genesis := raw_context.prepare_first_block
    { default_parameters.constants_mainnet with mine_tokens_per_roll := ⟨1, by decide⟩ } 2 0 0
  genesis.with_contracts { genesis.contracts with
    manager := Store.empty.put (.Implicit (.Ed25519 0)) (some (.Public_key (.Ed25519 0))) }

theorem roll_lists_well_formed_three_rolls :
    ∃ c1 c, init smallest_rolls = .ok c1 ∧
      Delegate.add_amount c1 (.Ed25519 0) ⟨3, by decide⟩ = .ok c ∧
      count_rolls c (.Ed25519 0) = .ok 3 ∧
      ∃ allocated limbo lists, Well_formed c allocated limbo lists := by
  refine ⟨_, _, rfl, rfl, rfl, ?_⟩
  have hempty : smallest_rolls.rolls = Rolls.empty := rfl
  exact roll_lists_well_formed hempty rfl
    (.single (.add_amount (.Ed25519 0) ⟨3, by decide⟩ rfl))

/-! Roll numbers are 32-bit: the comparison with the next one fails once they
have wrapped. -/

/-- With an empty limbo and a number left, a delegate that can pay gets a fresh
roll. -/
theorem create_roll_in_delegate_fresh (d : Public_key_hash) (pk : Public_key)
    {change new_change : Mine} (hrep : c.rolls.Represents a) (hlimbo : a.limbo = [])
    (hlt : a.allocated < 2 ^ 32) (hchange : c.rolls.delegate_change.lookup d = some change)
    (hsub : change.sub c.constants.mine_tokens_per_roll = .ok new_change) :
    ∃ c', Delegate.create_roll_in_delegate c d pk = .ok c' ∧
      (∃ a', c'.rolls.Represents a' ∧ a'.limbo = [] ∧ a'.allocated = a.allocated + 1) ∧
      c'.rolls.delegate_change.lookup d = some new_change ∧ c'.constants = c.constants := by
  have hnone : c.rolls.limbo = none := by
    have hhead := hrep.limbo.head_eq
    rwa [hlimbo] at hhead
  have howner : c.rolls.owner.lookup (Int32.ofNat a.allocated) = none := by
    rw [← Option.not_isSome_iff_eq_none, hrep.owner]
    rintro ⟨d', hd'⟩
    obtain ⟨i, hi, heq⟩ := (a.cover _).mpr (.inr ⟨d', hd'⟩)
    have := Roll_lists.ofNat_injective hlt (by omega) heq
    omega
  have hcreate : Delegate.create_roll_in_delegate c d pk = .ok (c.with_rolls
      (c.rolls.created d pk (Int32.ofNat a.allocated)
        (some (roll_repr.succ (Int32.ofNat a.allocated))) new_change)) := by
    simp [Delegate.create_roll_in_delegate, Delegate.consume_roll_change, Delegate.get_limbo_roll,
      Delegate.fresh_roll, constants_storage.mine_tokens_per_roll, Indexed_data_storage.get,
      Indexed_data_storage.set, Indexed_data_storage.init, Single_data_storage.get,
      Single_data_storage.set, Single_data_storage.init, hchange, hsub, trace, hnone, hrep.next,
      howner, Rolls.created]
  refine ⟨_, hcreate, ?_, Store.lookup_put_self _ _ _, rfl⟩
  obtain ⟨_, _, hfresh⟩ := hrep.fresh hnone hrep.next howner
  obtain ⟨l, hhead, hrep'⟩ := hfresh.created d pk rfl new_change
  refine ⟨_, hrep', ?_, rfl⟩
  have hl : Int32.ofNat a.allocated :: [] = Int32.ofNat a.allocated :: l := hhead
  exact (List.cons.inj hl).2.symm

/-- With rolls of the smallest size, the whole change is turned into fresh
rolls as long as there are numbers left. -/
theorem create_rolls_loop_fresh (d : Public_key_hash) (pk : Public_key) (fuel : Nat) {change : Mine}
    (hone : c.constants.mine_tokens_per_roll.amount = 1) (hrep : c.rolls.Represents a)
    (hlimbo : a.limbo = []) (hchange : c.rolls.delegate_change.lookup d = some change)
    (hlt : a.allocated + change.amount ≤ 2 ^ 32) (hfuel : change.amount < fuel) :
    ∃ c', Delegate.create_rolls_loop c.constants.mine_tokens_per_roll d pk fuel c change = .ok c' ∧
      ∃ a', c'.rolls.Represents a' ∧ a'.limbo = [] ∧
        (a'.allocated : ℤ) = a.allocated + change.amount := by
  induction fuel generalizing c change a with
  | zero =>
    have hnonneg := change.amount_nonneg
    omega
  | succ fuel ih =>
    have hnonneg := change.amount_nonneg
    unfold Delegate.create_rolls_loop
    split
    · next hsmall =>
      rw [lt_iff_amount_lt, hone] at hsmall
      exact ⟨c, rfl, a, hrep, hlimbo, by omega⟩
    · next hlarge =>
      rw [lt_iff_amount_lt, hone] at hlarge
      rcases sub_cases change c.constants.mine_tokens_per_roll with ⟨_, new_change, hsub⟩ |
        ⟨hless, _⟩
      · have hnew := Qty.sub_eq_ok_iff.mp hsub
        obtain ⟨c1, hcreate, ⟨a1, hrep1, hlimbo1, _⟩, hchange1, hconstants1⟩ :=
          create_roll_in_delegate_fresh d pk hrep hlimbo (by omega) hchange hsub
        have hone1 : c1.constants.mine_tokens_per_roll.amount = 1 := by rw [hconstants1, hone]
        obtain ⟨c2, hloop, a2, hrep2, hlimbo2, _⟩ :=
          ih hone1 hrep1 hlimbo1 hchange1 (by omega) (by omega)
        refine ⟨c2, ?_, a2, hrep2, hlimbo2, by omega⟩
        rw [hsub, bind_ok, hcreate, bind_ok, ← hconstants1]
        exact hloop
      · omega

/-- After `2 ^ 31` rolls the next number is the smallest 32-bit integer: all
rolls of the delegate are above it. -/
theorem roll_list_above_next :
    ∃ c1 c d l r next, smallest_rolls.rolls = Rolls.empty ∧ init smallest_rolls = .ok c1 ∧
      Relation.ReflTransGen Roll_step c1 c ∧ c.rolls.next = some next ∧
      Follows c.rolls.successor.lookup (c.rolls.delegate_roll_list.lookup d) l ∧
      r ∈ l ∧ roll_repr.first ≤ r ∧ next ≤ r := by
  have hinit : init smallest_rolls =
      .ok (Storage.Roll.Next.update smallest_rolls (some roll_repr.first)) := rfl
  obtain ⟨c1, hc1⟩ : ∃ c1, c1 = Storage.Roll.Next.update smallest_rolls (some roll_repr.first) :=
    ⟨_, rfl⟩
  rw [← hc1] at hinit
  have hrep : c1.rolls.Represents Roll_lists.empty := by
    subst hc1
    exact Rolls.Represents.initial
  obtain ⟨amount, hamount⟩ : ∃ amount : Mine, amount.amount = 2 ^ 31 :=
    ⟨⟨2147483648, by decide⟩, rfl⟩
  have hone : (Delegate.with_change c1 (.Ed25519 0) amount).constants.mine_tokens_per_roll.amount =
      1 := by
    subst hc1
    rfl
  obtain ⟨c2, hloop, a2, hrep2, hlimbo2, halloc2⟩ :=
    create_rolls_loop_fresh (.Ed25519 0) (.Ed25519 0) Delegate.create_rolls_fuel hone
      (hrep.congr rfl rfl rfl rfl rfl) rfl (Store.lookup_put_self _ _ _)
      (by rw [hamount]; decide) (by rw [hamount]; decide)
  have hadd : Delegate.add_amount c1 (.Ed25519 0) amount =
      .ok (Delegate.add_to_active_delegates_with_rolls c2 (.Ed25519 0)) := by
    have hzero : amount.add (get_change c1 (.Ed25519 0)) = .ok amount := by
      rw [add_eq_ok_iff, hc1]
      exact (add_zero _).symm
    have hpk : delegate_pubkey c1 (.Ed25519 0) = .ok (.Ed25519 0) := by
      rw [hc1]
      rfl
    have hactive : Delegate.is_inactive c1 (.Ed25519 0) = false := by
      rw [hc1]
      rfl
    rw [Delegate.add_amount_eq, hzero, bind_ok, hpk, bind_ok, hactive,
      if_neg Bool.false_ne_true]
    rw [show c1.constants.mine_tokens_per_roll =
      (Delegate.with_change c1 (.Ed25519 0) amount).constants.mine_tokens_per_roll from rfl, hloop]
    rfl
  have halloc : a2.allocated = 2 ^ 31 := by
    rw [hamount] at halloc2
    simp only [Roll_lists.empty] at halloc2
    omega
  obtain ⟨d, hd⟩ : ∃ d, (0 : Roll) ∈ a2.lists d := by
    have hcover := (a2.cover 0).mp ⟨0, by omega, rfl⟩
    rw [hlimbo2] at hcover
    exact hcover.elim (by simp) id
  have hrep3 := Delegate.add_to_active_delegates_with_rolls_represents (d := .Ed25519 0) hrep2
  refine ⟨c1, _, d, a2.lists d, 0, _, rfl, hinit, .single (.add_amount _ _ hadd), hrep3.next,
    hrep3.lists d, hd, by decide, ?_⟩
  rw [halloc]
  decide

end plexus.roll_storage
