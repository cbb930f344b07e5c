import Plexus.RollLists

namespace plexus

open Indexed_data_storage Store List Result Function contract_repr Qty Roll_lists


/-- What a delegate's rolls and change amount to. -/
def Roll_lists.stake (a : Roll_lists) (c : Context) (d : Public_key_hash) : ℤ :=
  (a.lists d).length * c.constants.mine_tokens_per_roll.amount +
    (roll_storage.get_change c d).amount

/-- The owner of every listed roll is the key of its delegate. -/
def Rolls.Keyed (rolls : Rolls) (key : Public_key_hash → Option Public_key) (a : Roll_lists) :
    Prop :=
  ∀ d, ∀ r ∈ a.lists d, rolls.owner.lookup r = key d

namespace roll_storage

theorem get_change_eq {c : Context} {d : Public_key_hash} {change : Mine}
    (h : c.rolls.delegate_change.lookup d = some change) : get_change c d = change := by
  simp [get_change, h]

theorem get_change_congr {c c' : Context} {d : Public_key_hash}
    (h : c'.rolls.delegate_change.lookup d = c.rolls.delegate_change.lookup d) :
    get_change c' d = get_change c d := by
  simp [get_change, h]

end roll_storage

namespace roll_storage.Delegate

variable {c c' : Context} {d : Public_key_hash} {pk : Public_key} {roll : Roll} {a : Roll_lists}

/-- A creation puts one roll, taken from no other delegate, in front of the
delegate's list. -/
theorem create_roll_in_delegate_represents (h : create_roll_in_delegate c d pk = .ok c')
    (hrep : c.rolls.Represents a) :
    ∃ a' r, c'.rolls.Represents a' ∧ a'.lists = Function.update a.lists d (r :: a.lists d) ∧
      (∀ d', r ∉ a.lists d') ∧ c'.rolls.owner = c.rolls.owner.put r (some pk) := by
  obtain ⟨_, new_change, r, _, _, _, hlimbo, howner, rfl⟩ := create_roll_in_delegate_spec.of_ok h
  have hr d' : r ∉ a.lists d' := by
    intro hmem
    have hsome := (hrep.owner r).mpr ⟨d', hmem⟩
    rw [howner] at hsome
    exact Bool.false_ne_true hsome
  rcases hlimbo with ⟨hlimbo, rfl⟩ | ⟨hlimbo, hnext, rfl⟩
  · obtain ⟨l, hhead, hrep'⟩ := hrep.created d pk hlimbo new_change
    exact ⟨_, r, hrep', rfl, hr, rfl⟩
  · obtain ⟨_, hlt, hfresh⟩ := hrep.fresh hlimbo hnext howner
    obtain ⟨l, hhead, hrep'⟩ := hfresh.created d pk rfl new_change
    exact ⟨_, r, hrep', rfl, hr, rfl⟩

/-! What is booked to a delegate. -/

/-- The key a delegate has revealed. -/
def delegate_key (c : Context) (d : Public_key_hash) : Option Public_key :=
  match c.contracts.manager.lookup (contract_repr.implicit_contract d) with
  | some (.Public_key pk) => some pk
  | _ => none

theorem total_delegate_pubkey (c : Context) (d : Public_key_hash) :
    (delegate_pubkey c d).Total := by
  unfold delegate_pubkey
  split
  · exact total_fail _
  · exact total_fail _
  · exact total_ok _

theorem delegate_pubkey_eq_ok_iff : delegate_pubkey c d = .ok pk ↔ delegate_key c d = some pk := by
  simp only [delegate_pubkey, delegate_key, get_option, Storage.Contract.Manager_store]
  cases c.contracts.manager.lookup (implicit_contract d) with
  | none => simp
  | some m => cases m <;> simp

/-- Only roll stores change between the two contexts; the delegate's rolls and
change amount to `δ` more, those of the others are as before, and the lists
stay well formed. -/
structure Booked (d : Public_key_hash) (δ : ℤ) (c c' : Context) : Prop where
  with_rolls : c' = c.with_rolls c'.rolls
  change_ne : ∀ d', d' ≠ d →
    c'.rolls.delegate_change.lookup d' = c.rolls.delegate_change.lookup d'
  represents : ∀ a, c.rolls.Represents a → ∃ a', c'.rolls.Represents a' ∧
    (∀ d', d' ≠ d → a'.lists d' = a.lists d') ∧ a'.stake c' d = a.stake c d + δ ∧
    (c.rolls.Keyed (delegate_key c) a → c'.rolls.Keyed (delegate_key c) a')

theorem Booked.trans {c'' : Context} {δ δ' : ℤ} (h : Booked d δ c c') (h' : Booked d δ' c' c'') :
    Booked d (δ + δ') c c'' where
  with_rolls := by
    rw [h'.with_rolls, h.with_rolls]
    rfl
  change_ne d' hd := by
    rw [h'.change_ne d' hd, h.change_ne d' hd]
  represents a hrep := by
    obtain ⟨a1, hrep1, hne1, hstake1, hkeyed1⟩ := h.represents a hrep
    obtain ⟨a2, hrep2, hne2, hstake2, hkeyed2⟩ := h'.represents a1 hrep1
    refine ⟨a2, hrep2, ?_, ?_, ?_⟩
    · intro d' hd
      rw [hne2 d' hd, hne1 d' hd]
    · rw [hstake2, hstake1, add_assoc]
    · intro hkeyed
      have hkey : delegate_key c' = delegate_key c := by
        rw [h.with_rolls]
        rfl
      rw [hkey] at hkeyed2
      exact hkeyed2 (hkeyed1 hkeyed)

/-- A step that books nothing. -/
theorem Booked.next {c'' : Context} {δ : ℤ} (h : Booked d δ c c') (h' : Booked d 0 c' c'') :
    Booked d δ c c'' := by
  have htotal := h.trans h'
  rwa [add_zero] at htotal

/-- Writing the change, the flags or the set of active delegates leaves the
lists as they are. -/
theorem booked_of_lists_eq (hrolls : c' = c.with_rolls c'.rolls) (hchange : ∀ d', d' ≠ d →
      c'.rolls.delegate_change.lookup d' = c.rolls.delegate_change.lookup d')
    (hnext : c'.rolls.next = c.rolls.next) (hlimbo : c'.rolls.limbo = c.rolls.limbo)
    (hsuccessor : c'.rolls.successor = c.rolls.successor) (howner : c'.rolls.owner = c.rolls.owner)
    (hlists : c'.rolls.delegate_roll_list = c.rolls.delegate_roll_list) :
    Booked d ((get_change c' d).amount - (get_change c d).amount) c c' where
  with_rolls := hrolls
  change_ne := hchange
  represents a hrep := by
    refine ⟨a, hrep.congr hnext hlimbo hsuccessor howner hlists, fun _ _ => rfl, ?_, ?_⟩
    · have hconstants : c'.constants = c.constants := by rw [hrolls]; rfl
      simp only [stake, hconstants]
      ring
    · intro hkeyed d' r hr
      rw [howner]
      exact hkeyed d' r hr

/-- Writing the flags or the set of active delegates books nothing. -/
theorem booked_zero (hflags : c' = c.with_rolls { c.rolls with
      active_delegates_with_rolls := c'.rolls.active_delegates_with_rolls
      inactive_delegate := c'.rolls.inactive_delegate
      delegate_desactivation := c'.rolls.delegate_desactivation }) : Booked d 0 c c' := by
  have hrolls := congrArg Context.rolls hflags
  have hchange := congrArg Rolls.delegate_change hrolls
  have hnext := congrArg Rolls.next hrolls
  have hlimbo := congrArg Rolls.limbo hrolls
  have hsuccessor := congrArg Rolls.successor hrolls
  have howner := congrArg Rolls.owner hrolls
  have hlists := congrArg Rolls.delegate_roll_list hrolls
  have hbooked : Booked d _ c c' :=
    booked_of_lists_eq (hflags.trans (congrArg c.with_rolls hrolls.symm))
      (fun d' _ => by rw [hchange]; rfl) hnext hlimbo hsuccessor howner hlists
  have hsame : get_change c' d = get_change c d := get_change_congr (by rw [hchange]; rfl)
  rwa [hsame, sub_self] at hbooked

/-- A new list and a new change of the delegate that amount to as much. -/
theorem booked_of_update {rolls : Rolls} {change new_change : Mine}
    (hchange : c.rolls.delegate_change.lookup d = some change)
    (hput : rolls.delegate_change = c.rolls.delegate_change.put d (some new_change))
    (h : ∀ a, c.rolls.Represents a → ∃ a' l, rolls.Represents a' ∧ a'.lists = update a.lists d l ∧
      new_change.amount = change.amount + ((a.lists d).length - l.length) *
        c.constants.mine_tokens_per_roll.amount ∧
      (c.rolls.Keyed (delegate_key c) a → rolls.Keyed (delegate_key c) a')) :
    Booked d 0 c (c.with_rolls rolls) := by
  refine ⟨rfl, ?_, ?_⟩
  · intro d' hd'
    rw [Context.with_rolls_rolls, hput, lookup_put_ne _ hd']
  · intro a hrep
    obtain ⟨a', l, hrep', hlists, hnew, hkeyed⟩ := h a hrep
    refine ⟨a', hrep', ?_, ?_, hkeyed⟩
    · intro d' hd'
      rw [hlists, update_of_ne hd']
    · have hchange' : (c.with_rolls rolls).rolls.delegate_change.lookup d = some new_change := by
        rw [Context.with_rolls_rolls, hput, lookup_put_self]
      simp only [stake, hlists, update_self, get_change_eq hchange', hnew, get_change_eq hchange,
        Context.with_rolls_constants]
      ring

/-- A popped roll becomes change. -/
theorem pop_roll_from_delegate_booked (h : pop_roll_from_delegate c d = .ok (roll, c')) :
    Booked d 0 c c' := by
  obtain ⟨_, _, _, hchange, hnew, hhead, _, ⟨⟩⟩ := pop_roll_from_delegate_spec.of_ok h
  refine booked_of_update hchange rfl fun a hrep => ?_
  obtain ⟨l, hlist, hrep'⟩ := hrep.popped hhead _
  have hlists : (a.pop d hlist).lists = update a.lists d l := rfl
  refine ⟨_, l, hrep', hlists, ?_, ?_⟩
  · rw [hnew, hlist, length_cons]
    push_cast
    ring
  · intro hkeyed d' r hr
    have hr' : r ∈ a.lists d' := by
      rw [hlists, mem_update] at hr
      split at hr
      · next e => rw [e, hlist]; exact mem_cons_of_mem roll hr
      · exact hr
    have hne : r ≠ roll := by
      rintro rfl
      have hd : d' = d := a.lists_disjoint d' d r hr' (by simp [hlist])
      have hnodup := a.lists_nodup d
      rw [hlist, nodup_cons] at hnodup
      rw [hlists, hd, update_self] at hr
      exact hnodup.1 hr
    exact (lookup_put_ne _ hne _).trans (hkeyed d' r hr')

/-- A roll is made from the change, for the key that the delegate has revealed. -/
theorem create_roll_in_delegate_booked (hpk : delegate_pubkey c d = .ok pk)
    (h : create_roll_in_delegate c d pk = .ok c') : Booked d 0 c c' := by
  obtain ⟨_, _, _, _, hchange, hnew, _, _, rfl⟩ := create_roll_in_delegate_spec.of_ok h
  refine booked_of_update hchange rfl fun a hrep => ?_
  obtain ⟨a', _, hrep', hlists, hroll, howner⟩ := create_roll_in_delegate_represents h hrep
  refine ⟨a', _, hrep', hlists, ?_, ?_⟩
  · rw [hnew, length_cons]
    push_cast
    ring
  · intro hkeyed d' r hr
    rw [Context.with_rolls_rolls] at howner
    rw [howner]
    by_cases hr' : r ∈ a.lists d'
    · rw [lookup_put_ne _ (ne_of_mem_of_not_mem hr' (hroll d'))]
      exact hkeyed d' r hr'
    · rw [hlists, mem_update] at hr
      split at hr
      · next e =>
        rw [e] at hr' ⊢
        rcases mem_cons.mp hr with rfl | hr
        · rw [lookup_put_self, delegate_pubkey_eq_ok_iff.mp hpk]
        · exact absurd hr hr'
      · exact absurd hr hr'

/-! The loops. -/

variable {amount change change' : Mine} {fuel : Nat}

/-- There are not more roll numbers than 32-bit integers. -/
theorem card_keys_le {V : Type} (s : Store Roll V) : s.keys.card ≤ 2 ^ 32 := by
  have hmaps : Set.MapsTo (fun r : Roll => r.toBitVec.toNat) s.keys (Finset.range (2 ^ 32)) := by
    intro r _
    simpa using r.toBitVec.isLt
  have hinj : Set.InjOn (fun r : Roll => r.toBitVec.toNat) s.keys := by
    intro r _ r' _ h
    exact Int32.toBitVec_inj.mp (BitVec.eq_of_toNat_eq h)
  simpa using Finset.card_le_card_of_injOn _ hmaps hinj

/-- The loop stops: every round gives an owner to a roll that had none. -/
theorem create_rolls_loop_spec {tokens_per_roll : Mine} (hpk : delegate_pubkey c d = .ok pk)
    (hfuel : 2 ^ 32 < fuel + c.rolls.owner.keys.card) :
    (create_rolls_loop tokens_per_roll d pk fuel c change).Meets (Booked d 0 c) := by
  induction fuel generalizing c change with
  | zero =>
    have hcard := card_keys_le c.rolls.owner
    omega
  | succ fuel ih =>
    unfold create_rolls_loop
    split
    · exact meets_ok (booked_zero rfl)
    · refine .bind sub_spec fun change1 _ => ?_
      refine .bind create_roll_in_delegate_spec.total.meets fun c1 hcreate => ?_
      have hround := create_roll_in_delegate_booked hpk hcreate
      obtain ⟨_, _, _, _, _, _, _, howner, rfl⟩ := create_roll_in_delegate_spec.of_ok hcreate
      refine (ih ?_ ?_).imp fun _ => hround.next
      · exact hpk
      · have hcard := c.rolls.owner.card_keys_put_some howner pk
        simp only [Context.with_rolls_rolls, Rolls.created]
        omega

section

variable (hchange : c.rolls.delegate_change.lookup d = some change)

include hchange

/-- The loops that pop keep track of the change that is stored. -/
theorem pop_change {change1 : Mine} (hpop : pop_roll_from_delegate c d = .ok (roll, c'))
    (hadd : change.add c.constants.mine_tokens_per_roll = .ok change1) :
    c'.rolls.delegate_change.lookup d = some change1 ∧ c'.constants = c.constants := by
  obtain ⟨_, new_change, _, hstored, hnew, _, _, ⟨⟩⟩ := pop_roll_from_delegate_spec.of_ok hpop
  have heq : change1 = new_change := by
    rw [hchange] at hstored
    cases hstored
    rw [← amount_inj, add_eq_ok_iff.mp hadd, hnew]
  rw [heq]
  exact ⟨lookup_put_self _ _ _, rfl⟩

/-- The loop of `remove_amount` pops rolls until the change covers the amount.
It stops: every round takes the owner of a roll away. -/
theorem remove_amount_loop_spec (hfuel : c.rolls.owner.keys.card < fuel) :
    (remove_amount_loop c.constants.mine_tokens_per_roll d amount fuel c change).Meets fun r =>
      Booked d 0 c r.1 ∧ r.1.rolls.delegate_change.lookup d = some r.2 := by
  induction fuel generalizing c change with
  | zero => omega
  | succ fuel ih =>
    unfold remove_amount_loop
    split
    · exact meets_ok ⟨booked_zero rfl, hchange⟩
    · refine .bind pop_roll_from_delegate_spec.total.meets ?_
      rintro ⟨_, c1⟩ hpop
      refine .bind add_spec.total.meets fun change1 hadd => ?_
      obtain ⟨hchange1, _⟩ := pop_change hchange hpop hadd
      have hround := pop_roll_from_delegate_booked hpop
      obtain ⟨_, _, _, _, _, _, ⟨pk, howner⟩, ⟨⟩⟩ := pop_roll_from_delegate_spec.of_ok hpop
      refine (ih hchange1 ?_).imp fun r hrest => ⟨hround.next hrest.1, hrest.2⟩
      have hcard := c.rolls.owner.card_keys_put_none howner
      simp only [Context.with_rolls_rolls, Rolls.popped]
      omega

/-- The loop of `set_inactive` pops rolls until there is none. -/
theorem set_inactive_loop_booked
    (h : set_inactive_loop c.constants.mine_tokens_per_roll d fuel c change = .ok (c', change')) :
    Booked d 0 c c' ∧ c'.rolls.delegate_change.lookup d = some change' := by
  induction fuel generalizing c change with
  | zero => cases h
  | succ fuel ih =>
    unfold set_inactive_loop at h
    split at h
    · cases h
      exact ⟨booked_zero rfl, hchange⟩
    · obtain ⟨⟨_, c1⟩, hpop, h⟩ := bind_inv h
      obtain ⟨_, hadd, h⟩ := bind_inv h
      obtain ⟨hchange1, hconstants⟩ := pop_change hchange hpop hadd
      rw [← hconstants] at h
      obtain ⟨hbooked, hfinal⟩ := ih hchange1 h
      exact ⟨(pop_roll_from_delegate_booked hpop).next hbooked, hfinal⟩

end

/-! The functions of `Delegate`. -/

/-- Replace the change of a delegate. -/
def with_change (c : Context) (d : Public_key_hash) (change : Mine) : Context :=
  c.with_rolls { c.rolls with delegate_change := c.rolls.delegate_change.put d (some change) }

theorem ensure_inited_eq (c : Context) (d : Public_key_hash) :
    ensure_inited c d = .ok (with_change c d (get_change c d)) := by
  unfold ensure_inited
  simp only [mem, Storage.Roll.Delegate_change_store]
  cases hchange : c.rolls.delegate_change.lookup d with
  | some change =>
    simp only [Option.isSome_some, if_true, pure_eq]
    rw [with_change, get_change_eq hchange, ← hchange, put_lookup]
    rfl
  | none =>
    simp only [Option.isSome_none, Bool.false_eq_true, if_false]
    rw [init_eq_ok_iff]
    refine ⟨hchange, ?_⟩
    simp [with_change, get_change, hchange]

@[simp] theorem with_change_lookup (c : Context) (d : Public_key_hash) (change : Mine) :
    (with_change c d change).rolls.delegate_change.lookup d = some change :=
  lookup_put_self _ _ _

/-- `add_amount` without the reads and writes that cannot fail. -/
theorem add_amount_eq (c : Context) (d : Public_key_hash) (amount : Mine) :
    add_amount c d amount = (do
      let change ← amount.add (get_change c d)
      let pk ← delegate_pubkey c d
      if is_inactive c d then pure (with_change c d change)
      else do
        let c1 ← create_rolls_loop c.constants.mine_tokens_per_roll d pk create_rolls_fuel
          (with_change c d change) change
        pure (add_to_active_delegates_with_rolls c1 d)) := by
  have hget : Storage.Roll.Delegate_change.get (with_change c d (get_change c d)) d =
      .ok (get_change c d) :=
    (get_eq_ok_iff _).mpr (with_change_lookup _ _ _)
  unfold add_amount
  rw [ensure_inited_eq, bind_ok]
  rw [hget, bind_ok]
  congr 1
  funext change
  have hset : Storage.Roll.Delegate_change.set (with_change c d (get_change c d)) d change =
      .ok (with_change c d change) := by
    rw [set_eq_ok_iff]
    refine ⟨⟨_, with_change_lookup _ _ _⟩, ?_⟩
    simp [with_change]
  rw [hset, bind_ok]
  rfl

theorem with_change_booked (c : Context) (d : Public_key_hash) (change : Mine) :
    Booked d (change.amount - (get_change c d).amount) c (with_change c d change) := by
  have hbooked : Booked d _ c (with_change c d change) :=
    booked_of_lists_eq rfl (fun d' hd => lookup_put_ne _ hd _) rfl rfl rfl rfl rfl
  rwa [get_change_eq (with_change_lookup c d change)] at hbooked

theorem ensure_inited_booked (h : ensure_inited c d = .ok c') : Booked d 0 c c' := by
  rw [ensure_inited_eq] at h
  cases h
  have hbooked := with_change_booked c d (get_change c d)
  rwa [sub_self] at hbooked

theorem add_to_active_delegates_with_rolls_represents {a : Roll_lists} (h : c.rolls.Represents a) :
    (add_to_active_delegates_with_rolls c d).rolls.Represents a := by
  unfold add_to_active_delegates_with_rolls
  split
  · exact h
  · exact h.congr rfl rfl rfl rfl rfl

theorem add_to_active_delegates_with_rolls_booked (c : Context) (d : Public_key_hash) :
    Booked d 0 c (add_to_active_delegates_with_rolls c d) := by
  unfold add_to_active_delegates_with_rolls
  split
  · exact booked_zero rfl
  · exact booked_zero rfl

/-- `add_amount` needs the revealed key of the delegate, even when it is
inactive and no roll is created. -/
theorem add_amount_spec : (add_amount c d amount).Meets (Booked d amount.amount c) := by
  rw [add_amount_eq]
  refine .bind add_spec fun change hadd => ?_
  refine .bind (total_delegate_pubkey c d).meets fun pk hpk => ?_
  have hstart := with_change_booked c d change
  have hamount : change.amount - (get_change c d).amount = amount.amount := by
    rw [hadd, add_sub_cancel_right]
  rw [hamount] at hstart
  split
  · exact meets_ok hstart
  · refine .bind (create_rolls_loop_spec hpk ?_) fun c1 hloop => ?_
    · simp only [create_rolls_fuel]
      omega
    · exact meets_ok ((hstart.next hloop).next (add_to_active_delegates_with_rolls_booked c1 d))

/-- `remove_amount` takes the amount from the change, after it has turned as
many rolls as needed into change. -/
theorem remove_amount_spec : (remove_amount c d amount).Meets (Booked d (-amount.amount) c) := by
  refine .bind get_spec fun change0 hget => ?_
  refine .bind (Q := fun r => Booked d 0 c r.1 ∧ r.1.rolls.delegate_change.lookup d = some r.2) ?_ ?_
  · split
    · exact meets_ok ⟨booked_zero rfl, hget⟩
    · refine .bind (remove_amount_loop_spec hget (Nat.lt_succ_self _)) ?_
      rintro ⟨c1, _⟩ ⟨hbooked, hchange2⟩
      dsimp only
      split
      · exact meets_ok ⟨hbooked.next (booked_zero rfl), hchange2⟩
      · exact meets_ok ⟨hbooked, hchange2⟩
  · rintro ⟨c2, _⟩ ⟨hbooked, hchange1⟩
    refine .bind sub_spec fun change hsub => ?_
    have htotal := hbooked.trans (with_change_booked c2 d change)
    have hamount : 0 + (change.amount - (get_change c2 d).amount) = -amount.amount := by
      rw [get_change_eq hchange1, hsub]
      ring
    rw [hamount] at htotal
    refine set_spec.imp ?_
    rintro _ rfl
    exact htotal

theorem set_inactive_booked (h : set_inactive c d = .ok c') : Booked d 0 c c' := by
  obtain ⟨c0, hinited, h⟩ := bind_inv h
  obtain ⟨_, hget, h⟩ := bind_inv h
  rw [get_eq_ok_iff] at hget
  obtain ⟨⟨c1, change⟩, hloop, hset⟩ := bind_inv h
  rw [set_eq_ok_iff] at hset
  obtain ⟨_, rfl⟩ := hset
  have hflag : Booked d 0 c0 (Storage.Active_delegates_with_rolls.del
      (Storage.Contract.Inactive_delegate.add c0 (implicit_contract d)) d) :=
    booked_zero rfl
  obtain ⟨hbooked, hchange⟩ := set_inactive_loop_booked (c := Storage.Active_delegates_with_rolls.del
    (Storage.Contract.Inactive_delegate.add c0 (implicit_contract d)) d) hget hloop
  have hend := with_change_booked c1 d change
  rw [get_change_eq hchange, sub_self] at hend
  exact (((ensure_inited_booked hinited).next hflag).next hbooked).next hend

theorem set_active_spec : (set_active c d).Meets (Booked d 0 c) := by
  unfold set_active
  have hflag : Booked d 0 c (Storage.Contract.Delegate_desactivation.init_set c
      (implicit_contract d) (expiration c d (is_inactive c d))) := booked_zero rfl
  dsimp only
  split
  · exact meets_ok hflag
  · rw [ensure_inited_eq, bind_ok]
    refine .bind get_spec fun change _ => ?_
    refine .bind (total_delegate_pubkey _ d).meets fun pk hpk => ?_
    refine .bind (create_rolls_loop_spec hpk ?_) fun c1 hloop => ?_
    · simp only [create_rolls_fuel]
      omega
    · have hinited := hflag.next (ensure_inited_booked (ensure_inited_eq _ d))
      exact meets_ok (((hinited.next (booked_zero rfl)).next hloop).next
        (add_to_active_delegates_with_rolls_booked c1 d))

end roll_storage.Delegate

namespace roll_storage.Contract

/-- An amount is booked for the delegate of an account, if it has one. -/
def Booked (contract : plexus.Contract) (δ : ℤ) (c c' : Context) : Prop :=
  c.contracts.delegate.lookup contract = none ∧ c' = c ∨
    ∃ d, c.contracts.delegate.lookup contract = some d ∧ Delegate.Booked d δ c c'

variable {c c' : Context} {contract : plexus.Contract} {amount : Mine}

theorem Booked.with_rolls {δ : ℤ} (h : Booked contract δ c c') : c' = c.with_rolls c'.rolls := by
  rcases h with ⟨_, rfl⟩ | ⟨_, _, hbooked⟩
  · rfl
  · exact hbooked.with_rolls

theorem add_amount_spec :
    (add_amount c contract amount).Meets (Booked contract amount.amount c) := by
  unfold add_amount
  split
  · next hnone => exact meets_ok (.inl ⟨hnone, rfl⟩)
  · next d hsome => exact Delegate.add_amount_spec.imp fun _ h => .inr ⟨d, hsome, h⟩

theorem remove_amount_spec :
    (remove_amount c contract amount).Meets (Booked contract (-amount.amount) c) := by
  unfold remove_amount
  split
  · next hnone => exact meets_ok (.inl ⟨hnone, rfl⟩)
  · next d hsome => exact Delegate.remove_amount_spec.imp fun _ h => .inr ⟨d, hsome, h⟩

end roll_storage.Contract

end plexus
