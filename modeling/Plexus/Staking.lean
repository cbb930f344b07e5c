import Plexus.EnvironmentLaws
import Plexus.RollRuns

/-! The rolls and the change of a delegate amount to the MINE of the accounts
delegated to it, together with its frozen deposits and fees. -/

namespace plexus

open delegate_storage contract_storage roll_storage Context Option Store

open contract_repr (implicit_contract)

namespace staking

variable {c c' : Context} {d : Public_key_hash} {contract : Contract} (o : Option Public_key_hash)

/-- An amount that counts for one delegate only, if for any. -/
def at_delegate (δ : ℤ) : Public_key_hash → ℤ :=
  fun d => if o = some d then δ else 0

theorem at_delegate_none (δ : ℤ) : at_delegate none δ = 0 := by
  funext d
  simp [at_delegate]

theorem at_delegate_zero : at_delegate o 0 = 0 := by
  funext d
  simp [at_delegate]

theorem at_delegate_add (δ δ' : ℤ) :
    at_delegate o (δ + δ') = at_delegate o δ + at_delegate o δ' := by
  funext d
  simp only [at_delegate, Pi.add_apply]
  split <;> simp

theorem at_delegate_neg (δ : ℤ) :
    at_delegate o (-δ) = -at_delegate o δ := by
  funext d
  simp only [at_delegate, Pi.neg_apply]
  split <;> simp

/-! What is staked with a delegate. -/

/-- The MINE of the accounts delegated to a delegate. -/
def delegated_mine (contracts : Contracts) (d : Public_key_hash) : ℤ :=
  contracts.mine_balance.sum fun contract balance =>
    if contracts.delegate.lookup contract = some d then balance.amount else 0

/-- What a delegate has in one of the frozen stores, over all cycles. -/
def frozen_mine (store : Store (Contract × Cycle) Mine) (d : Public_key_hash) : ℤ :=
  store.sum fun k amount => if k.1 = implicit_contract d then amount.amount else 0

def staked (c : Context) (d : Public_key_hash) : ℤ :=
  delegated_mine c.contracts d + frozen_mine c.freezer.frozen_deposits d +
    frozen_mine c.freezer.frozen_fees d

/-- The amount in an entry that may be missing. -/
def amount_of (o : Option Mine) : ℤ := o.elim 0 Qty.amount

/-- A new frozen amount changes what its delegate has frozen by the difference.
-/
theorem frozen_mine_put (store : Store (Contract × Cycle) Mine) (cycle : Cycle) (o : Option Mine) :
    frozen_mine (store.put (implicit_contract d, cycle) o) =
      frozen_mine store + at_delegate (some d)
        (amount_of o - amount_of (store.lookup (implicit_contract d, cycle))) := by
  funext d'
  simp only [frozen_mine, sum_put, Pi.add_apply, at_delegate, Option.some.injEq,
    contract_repr.implicit_contract_inj]
  by_cases hd : d = d'
  · simp only [hd, if_true]
    rfl
  · simp only [hd, if_false]
    cases o <;> cases store.lookup (implicit_contract d, cycle) <;> rfl

/-- Another MINE balance counts for the delegate of the account. -/
theorem delegated_mine_put_balance (contracts : Contracts) (contract : Contract) (o : Option Mine) :
    delegated_mine { contracts with mine_balance := contracts.mine_balance.put contract o } =
      delegated_mine contracts + at_delegate (contracts.delegate.lookup contract)
        (amount_of o - amount_of (contracts.mine_balance.lookup contract)) := by
  funext d
  simp only [delegated_mine, sum_put, Pi.add_apply, at_delegate]
  split
  · rfl
  · cases o <;> cases contracts.mine_balance.lookup contract <;> rfl

/-- Another delegate gets the whole MINE balance of the account. -/
theorem delegated_mine_put_delegate (contracts : Contracts) (contract : Contract)
    (o : Option Public_key_hash) :
    delegated_mine { contracts with delegate := contracts.delegate.put contract o } =
      delegated_mine contracts +
        at_delegate o (amount_of (contracts.mine_balance.lookup contract)) -
        at_delegate (contracts.delegate.lookup contract)
          (amount_of (contracts.mine_balance.lookup contract)) := by
  funext d
  simp only [delegated_mine, Pi.add_apply, Pi.sub_apply, at_delegate]
  rw [sum_eq_add_sub (g := fun contract balance =>
      if contracts.delegate.lookup contract = some d then balance.amount else 0) contract]
  · simp only [lookup_put_self]
    cases contracts.mine_balance.lookup contract with
    | none => simp [amount_of]
    | some balance =>
      simp only [elim_some, amount_of]
      omega
  · intro contract' hne
    simp only [lookup_put_ne _ hne]

/-! Rolls and change. -/

/-- The rolls of the context are well formed, and `f` says what the rolls and
the change of each delegate amount to. -/
def Books (c : Context) (f : Public_key_hash → ℤ) : Prop :=
  ∃ a, c.rolls.Represents a ∧ ∀ d, a.stake c d = f d

variable {f : Public_key_hash → ℤ} {δ : ℤ}

/-- The books are in the rolls and the size of a roll. -/
theorem Books.congr (h : Books c f) (hrolls : c'.rolls = c.rolls)
    (htokens : c'.constants.mine_tokens_per_roll = c.constants.mine_tokens_per_roll) :
    Books c' f := by
  obtain ⟨a, hrep, hstake⟩ := h
  refine ⟨a, hrolls ▸ hrep, fun d => ?_⟩
  rw [← hstake d]
  unfold Roll_lists.stake
  have hchange : get_change c' d = get_change c d := get_change_congr (by rw [hrolls])
  rw [htokens, hchange]

/-- What is booked for a delegate is added to its books. -/
theorem Books.booked (h : Books c f) (hbooked : Delegate.Booked d δ c c') :
    Books c' (f + at_delegate (some d) δ) := by
  obtain ⟨a, hrep, hstake⟩ := h
  obtain ⟨a', hrep', hlists, hstake', _⟩ := hbooked.represents a hrep
  refine ⟨a', hrep', fun d' => ?_⟩
  by_cases hd : d' = d
  · subst hd
    rw [hstake', hstake]
    simp [at_delegate]
  · have hother : a'.stake c' d' = a.stake c d' := by
      unfold Roll_lists.stake
      rw [hlists d' hd, get_change_congr (hbooked.change_ne d' hd)]
      rw [constants_of_eq_with_rolls hbooked.with_rolls]
    rw [hother, hstake]
    have hne : ¬ d = d' := fun h => hd h.symm
    simp [at_delegate, hne]

theorem Books.eq {g : Public_key_hash → ℤ} (h : Books c f) (heq : f = g) : Books c g := heq ▸ h

variable {amount : Mine}

/-! The invariant. -/

/-- The rolls and the change of every delegate amount to what is staked with
it, and accounts with a delegate have a MINE balance. -/
structure Accounted (c : Context) : Prop where
  books : Books c (staked c)
  balances : ∀ contract d, c.contracts.delegate.lookup contract = some d →
    (c.contracts.mine_balance.lookup contract).isSome

/-- A new MINE balance leaves no delegated account without one. -/
theorem balances_put {contracts : Contracts} (h : ∀ contract d,
      contracts.delegate.lookup contract = some d → (contracts.mine_balance.lookup contract).isSome)
    (contract : Contract) (balance : Mine) (contract' : Contract) (d : Public_key_hash)
    (hd : contracts.delegate.lookup contract' = some d) :
    ((contracts.mine_balance.put contract (some balance)).lookup contract').isSome := by
  rw [lookup_put]
  split
  · rfl
  · exact h contract' d hd

theorem staked_eq (c : Context) :
    staked c = delegated_mine c.contracts + frozen_mine c.freezer.frozen_deposits +
      frozen_mine c.freezer.frozen_fees := rfl

/-- The stake is read from four stores. -/
theorem staked_congr (hmine : c'.contracts.mine_balance = c.contracts.mine_balance)
    (hdelegate : c'.contracts.delegate = c.contracts.delegate)
    (hdeposits : c'.freezer.frozen_deposits = c.freezer.frozen_deposits)
    (hfees : c'.freezer.frozen_fees = c.freezer.frozen_fees) : staked c' = staked c := by
  funext d
  simp only [staked, delegated_mine, hmine, hdelegate, hdeposits, hfees]

/-- The invariant reads rolls, MINE balances, delegates and the freezer. -/
theorem Accounted.congr (h : Accounted c) (hrolls : c'.rolls = c.rolls)
    (htokens : c'.constants.mine_tokens_per_roll = c.constants.mine_tokens_per_roll)
    (hmine : c'.contracts.mine_balance = c.contracts.mine_balance)
    (hdelegate : c'.contracts.delegate = c.contracts.delegate)
    (hdeposits : c'.freezer.frozen_deposits = c.freezer.frozen_deposits)
    (hfees : c'.freezer.frozen_fees = c.freezer.frozen_fees) : Accounted c' where
  books := by
    rw [staked_congr hmine hdelegate hdeposits hfees]
    exact h.books.congr hrolls htokens
  balances := by
    rw [hmine, hdelegate]
    exact h.balances

/-- The invariant is about the accounts. -/
theorem Accounted.same (h : Accounted c) (hsame : Same_accounts c c') : Accounted c' :=
  h.congr hsame.rolls (congrArg (·.mine_tokens_per_roll) hsame.constants) (by rw [hsame.contracts])
    (by rw [hsame.contracts]) (by rw [hsame.freezer]) (by rw [hsame.freezer])

theorem Accounted.of_ledger_eq (h : Accounted c) (hledger : c'.ledger = c.ledger) : Accounted c' :=
  h.same (.of_ledger_eq hledger)

/-- What has no MINE balance has no delegate. -/
theorem Accounted.delegate_eq_none (h : Accounted c)
    (hmine : c.contracts.mine_balance.lookup contract = none) :
    c.contracts.delegate.lookup contract = none := by
  cases hdelegate : c.contracts.delegate.lookup contract with
  | none => rfl
  | some d =>
    have hsome := h.balances contract d hdelegate
    rw [hmine] at hsome
    cases hsome

/-- A new balance changes the stake of the delegate of the contract. -/
theorem staked_with_mine_balance (c : Context) (contract : Contract) (balance : Mine) :
    staked (with_mine_balance c contract balance) =
      staked c + at_delegate (c.contracts.delegate.lookup contract)
        (balance.amount - amount_of (c.contracts.mine_balance.lookup contract)) := by
  have hput := delegated_mine_put_balance c.contracts contract (some balance)
  rw [staked_eq, staked_eq c]
  change delegated_mine { c.contracts with
    mine_balance := c.contracts.mine_balance.put contract (some balance) } + _ + _ = _
  rw [hput]
  change _ = delegated_mine c.contracts + _ + _ +
    at_delegate _ (amount_of (some balance) - amount_of _)
  abel

/-! Books that are ahead of the stakes while an operation runs. -/

/-- The rolls and the change amount to what is staked and to `δ` more for one
delegate, if for any. -/
structure Ahead (o : Option Public_key_hash) (δ : ℤ) (c : Context) : Prop where
  books : Books c (staked c + at_delegate o δ)
  balances : ∀ contract d, c.contracts.delegate.lookup contract = some d →
    (c.contracts.mine_balance.lookup contract).isSome

/-- Before a booking the books are even. -/
theorem Accounted.ahead (h : Accounted c) (o : Option Public_key_hash) : Ahead o 0 c where
  books := h.books.eq (by rw [at_delegate_zero, add_zero])
  balances := h.balances

namespace Ahead

variable {o : Option Public_key_hash} (h : Ahead o δ c)
include h

/-- Books that are even again are accounted for. -/
theorem accounted (hδ : δ = 0) : Accounted c where
  books := h.books.eq (by rw [hδ, at_delegate_zero, add_zero])
  balances := h.balances

/-- A booking brings the books ahead of the stake. -/
theorem booked {δ' : ℤ} (ho : o = some d) (hbooked : Delegate.Booked d δ' c c') :
    Ahead o (δ + δ') c' := by
  subst ho
  have hcontracts : c'.contracts = c.contracts := contracts_of_eq_with_rolls hbooked.with_rolls
  have hfreezer : c'.freezer = c.freezer := freezer_of_eq_with_rolls hbooked.with_rolls
  have hstaked : staked c' = staked c :=
    staked_congr (by rw [hcontracts]) (by rw [hcontracts]) (by rw [hfreezer]) (by rw [hfreezer])
  refine ⟨(h.books.booked hbooked).eq ?_, by rw [hcontracts]; exact h.balances⟩
  rw [hstaked, at_delegate_add, add_assoc]

/-- So does one for the delegate of a contract. -/
theorem booked_for {δ' : ℤ} (ho : c.contracts.delegate.lookup contract = o)
    (hbooked : Contract.Booked contract δ' c c') : Ahead o (δ + δ') c' := by
  subst ho
  rcases hbooked with ⟨hnone, rfl⟩ | ⟨d, hsome, hbooked⟩
  · rw [hnone] at h ⊢
    exact ⟨h.books.eq (by rw [at_delegate_none, at_delegate_none]), h.balances⟩
  · exact h.booked hsome hbooked

/-- A new balance brings the stake back in step. -/
theorem mine_balance {old : Mine} (new : Mine) (ho : c.contracts.delegate.lookup contract = o)
    (hold : c.contracts.mine_balance.lookup contract = some old) :
    Ahead o (δ + (old.amount - new.amount)) (with_mine_balance c contract new) where
  books := by
    apply (h.books.congr rfl rfl).eq
    rw [staked_with_mine_balance, ho, hold, add_assoc, ← at_delegate_add]
    congr 2
    change δ = new.amount - old.amount + (δ + (old.amount - new.amount))
    omega
  balances := balances_put h.balances contract new

end Ahead

/-- Roll operations that book nothing keep the invariant. -/
theorem Accounted.booked_zero (h : Accounted c) (hbooked : Delegate.Booked d 0 c c') :
    Accounted c' :=
  ((h.ahead _).booked rfl hbooked).accounted (add_zero 0)

/-! Accounts. -/

/-- Without a delegate an account is no stake. -/
theorem staked_deleted (hdelegate : c.contracts.delegate.lookup contract = none) :
    staked (deleted c contract) = staked c := by
  by_cases hgate : constants_repr.removing_empty_address ≤ c.level.level
  · have hput := delegated_mine_put_balance c.contracts contract none
    rw [hdelegate, at_delegate_none, add_zero] at hput
    have hmine : staked (deleted c contract) = delegated_mine { c.contracts with
          mine_balance := c.contracts.mine_balance.put contract none } +
        frozen_mine c.freezer.frozen_deposits + frozen_mine c.freezer.frozen_fees := by
      funext d
      simp [staked, delegated_mine, deleted, deleted_account, hgate]
    rw [hmine, hput, staked_eq]
  · refine staked_congr ?_ rfl rfl rfl
    simp [deleted, deleted_account, hgate]

/-- A new account has no delegate yet. -/
theorem created_accounted {balance : Tez} {mine_balance : Mine} {manager : Option Public_key_hash}
    (h : Accounted c) (hmine : c.contracts.mine_balance.lookup contract = none) :
    Accounted (created c contract balance mine_balance manager) where
  books := by
    have hstaked := staked_with_mine_balance c contract mine_balance
    rw [h.delegate_eq_none hmine, at_delegate_none, add_zero] at hstaked
    exact (h.books.congr rfl rfl).eq (hstaked.symm.trans (staked_congr rfl rfl rfl rfl))
  balances := balances_put h.balances contract mine_balance

/-- Deleting an account without delegate keeps the invariant. -/
theorem deleted_accounted (h : Accounted c)
    (hdelegate : c.contracts.delegate.lookup contract = none) :
    Accounted (deleted c contract) where
  books := by
    rw [staked_deleted hdelegate]
    exact h.books.congr rfl rfl
  balances contract' d hd := by
    have hne : contract' ≠ contract := by
      rintro rfl
      have hd' : c.contracts.delegate.lookup contract' = some d := hd
      rw [hdelegate] at hd'
      cases hd'
    have hbalance := h.balances contract' d hd
    simp only [deleted, deleted_account, with_code_contracts, with_contracts_contracts]
    split
    · rw [lookup_put_ne _ hne]
      exact hbalance
    · exact hbalance

/-- Tez are no stake, but an account that is emptied is deleted. -/
theorem spend_accounted {amount : Tez} (h : Accounted c)
    (hspend : (spend c contract amount).outcome = .ok c') : Accounted c' := by
  obtain ⟨_, new_balance, _, _, _, _, hcase⟩ := spend_spec.of_ok hspend
  have hspent : Accounted (with_balance c contract new_balance) := h.congr rfl rfl rfl rfl rfl rfl
  rcases hcase with rfl | ⟨_, _, _, hdelegate, hledger⟩
  · exact hspent
  · exact (deleted_accounted hspent hdelegate).of_ledger_eq hledger

/-- Spending MINE books it out and lowers the balance. -/
theorem mine_spend_accounted (h : Accounted c)
    (hspend : (mine_spend c contract amount).outcome = .ok c') : Accounted c' := by
  obtain ⟨_, _, new_balance, c1, _, hmine, hnew, hbooked, hcase⟩ := mine_spend_spec.of_ok hspend
  have hspent : Accounted c1 :=
    (((h.ahead _).mine_balance new_balance rfl hmine).booked_for rfl hbooked).accounted (by omega)
  rcases hcase with rfl | ⟨_, _, _, hdelegate, hledger⟩
  · exact hspent
  · exact (deleted_accounted hspent hdelegate).of_ledger_eq hledger

/-- A credit books the MINE in and raises the balance. -/
theorem credit_account_accounted {amount : Tez} {mine_amount mine_balance : Mine} (h : Accounted c)
    (hmine : c.contracts.mine_balance.lookup contract = some mine_balance)
    (hcredit : credit_account c contract amount mine_amount mine_balance = .ok c') :
    Accounted c' := by
  obtain ⟨_, new_balance, new_mine_balance, _, _, hnew, hbooked⟩ :=
    credit_account_spec.of_ok hcredit
  have hbalance : Accounted (with_balance c contract new_balance) := h.congr rfl rfl rfl rfl rfl rfl
  exact (((hbalance.ahead _).mine_balance new_mine_balance rfl hmine).booked_for rfl
    hbooked).accounted (by omega)

/-- The same where the account is created by the credit. -/
theorem credit_accounted [Environment] {amount : Tez} {mine_amount : Mine} (h : Accounted c)
    (hcredit : (credit c contract amount mine_amount).outcome = .ok c') :
    Accounted c' := by
  obtain ⟨c1, hledger, hcase⟩ := credit_spec.of_ok hcredit
  have h1 : Accounted c1 := h.of_ledger_eq hledger
  rcases hcase with ⟨manager, _, hcreate⟩ | ⟨mine_balance, hmine, haccount⟩
  · obtain ⟨_, hnone, _, ⟨_, rfl⟩ | ⟨d, hd, _⟩⟩ := create_account_spec.of_ok hcreate
    · exact created_accounted h1 hnone
    · cases hd
  · rw [← contracts_eq_of_ledger_eq hledger] at hmine
    exact credit_account_accounted h1 hmine haccount

/-! Delegation. -/

/-- Unlinking books the balance out, and leaves the books behind. -/
theorem unlink_ahead (h : Accounted c) (hunlink : unlink c contract = .ok c') :
    ∃ balance, c'.contracts.mine_balance.lookup contract = some balance ∧
      Ahead (c'.contracts.delegate.lookup contract) (-balance.amount) c' := by
  obtain ⟨balance, hbalance, ⟨hnone, rfl⟩ | ⟨d, c1, hdelegate, hbooked, rfl⟩⟩ :=
    unlink_spec.of_ok hunlink
  · refine ⟨balance, hbalance, h.books.eq ?_, h.balances⟩
    rw [hnone, at_delegate_none, add_zero]
  · have hcontracts : c1.contracts = c.contracts := contracts_of_eq_with_rolls hbooked.with_rolls
    rw [← hcontracts] at hbalance hdelegate
    have h1 : Ahead (some d) (0 + -balance.amount) c1 := (h.ahead _).booked rfl hbooked
    rw [zero_add, ← hdelegate] at h1
    exact ⟨balance, hbalance, (h1.books.congr rfl rfl).eq rfl, h1.balances⟩

/-- Linking books the balance in again. -/
theorem link_accounted {balance : Mine} (h : Ahead (some d) (-balance.amount) c)
    (hbalance : c.contracts.mine_balance.lookup contract = some balance)
    (hlink : link c contract d = .ok c') : Accounted c' := by
  obtain ⟨balance', c1, hbalance', hbooked, rfl⟩ := link_spec.of_ok hlink
  rw [hbalance'] at hbalance
  cases hbalance
  have h1 : Accounted c1 := (h.booked rfl hbooked).accounted (by omega)
  exact h1.congr rfl rfl rfl rfl rfl rfl

/-- A new delegate takes the stake over from the old one. -/
theorem staked_with_delegate (c : Context) (contract : Contract) (o : Option Public_key_hash) :
    staked (with_delegate c contract o) =
      staked c + at_delegate o (amount_of (c.contracts.mine_balance.lookup contract)) -
        at_delegate (c.contracts.delegate.lookup contract)
          (amount_of (c.contracts.mine_balance.lookup contract)) := by
  have hput := delegated_mine_put_delegate c.contracts contract o
  rw [staked_eq, staked_eq c]
  change delegated_mine { c.contracts with
    delegate := c.contracts.delegate.put contract o } + _ + _ = _
  rw [hput]
  change delegated_mine c.contracts + _ - _ + frozen_mine c.freezer.frozen_deposits +
    frozen_mine c.freezer.frozen_fees = _
  abel

/-- The MINE of an account, taken from its delegate, is for another one, if for
any. -/
theorem Ahead.with_delegate {balance : Mine} (o : Option Public_key_hash)
    (h : Ahead (c.contracts.delegate.lookup contract) (-balance.amount) c)
    (hbalance : c.contracts.mine_balance.lookup contract = some balance) :
    Ahead o (-balance.amount) (with_delegate c contract o) where
  books := by
    apply (h.books.congr rfl rfl).eq
    rw [staked_with_delegate, hbalance, at_delegate_neg, at_delegate_neg]
    change _ = staked c + at_delegate o balance.amount -
      at_delegate (c.contracts.delegate.lookup contract) balance.amount + _
    abel
  balances contract' d' hd' := by
    change (c.contracts.delegate.put contract o).lookup contract' = some d' at hd'
    change ((c.contracts.mine_balance.lookup contract').isSome : Prop)
    rw [lookup_put] at hd'
    split at hd'
    · next heq => rw [heq, hbalance, isSome_some]
    · exact h.balances contract' d' hd'

/-- A new delegate for an account that has none. -/
theorem delegate_init_accounted (h : Accounted c) (hinit : init c contract d = .ok c') :
    Accounted c' := by
  obtain ⟨_, _, hnone, hlink⟩ := init_spec.of_ok hinit
  obtain ⟨balance, _, hbalance, _⟩ := link_spec.of_ok hlink
  have hfree : Ahead (c.contracts.delegate.lookup contract) (-balance.amount) c :=
    ⟨h.books.eq (by rw [hnone, at_delegate_none, add_zero]), h.balances⟩
  exact link_accounted (hfree.with_delegate (some d) hbalance) hbalance hlink

/-- Unlinking, the new delegate and linking together keep the invariant. -/
theorem delegate_set_accounted {o : Option Public_key_hash} (h : Accounted c)
    (hset : set c contract o = .ok c') : Accounted c' := by
  cases o with
  | none =>
    obtain ⟨_, c1, hunlink, rfl⟩ := set_none_spec.of_ok hset
    obtain ⟨balance, hbalance, h1⟩ := unlink_ahead h hunlink
    have hfree := h1.with_delegate none hbalance
    exact ⟨hfree.books.eq (by rw [at_delegate_none, add_zero]), hfree.balances⟩
  | some d =>
    obtain ⟨_, _, _, _, c1, c2, hunlink, hlink, hcase⟩ := set_some_spec.of_ok hset
    obtain ⟨balance, hbalance, h1⟩ := unlink_ahead h hunlink
    have h2 : Accounted c2 := link_accounted (h1.with_delegate (some d) hbalance) hbalance hlink
    rcases hcase with ⟨_, rfl⟩ | ⟨_, hactive⟩
    · exact h2
    · have h3 : Accounted (Storage.Delegates.add c2 d) := h2.congr rfl rfl rfl rfl rfl rfl
      exact h3.booked_zero hactive

/-- An origination creates the account and links it. -/
theorem originate_accounted [Environment] {prepaid : Bool} {balance : Tez}
    {script : Script × Option Big_map_diff} {delegate : Option Public_key_hash} (h : Accounted c)
    (horiginate : (originate c prepaid contract balance script delegate).outcome =
      .ok c') : Accounted c' := by
  obtain ⟨c1, code, hcreate, hledger⟩ := originate_spec.of_ok horiginate
  obtain ⟨_, hnone, _, hcase⟩ := create_account_spec.of_ok hcreate
  have hcreated : Accounted (created c contract balance Qty.zero none) := created_accounted h hnone
  have h1 : Accounted c1 := by
    rcases hcase with ⟨_, rfl⟩ | ⟨d, _, hinit⟩
    · exact hcreated
    · exact delegate_init_accounted hcreated hinit
  have hcode : Accounted (c1.with_code contract (some code)) := h1.congr rfl rfl rfl rfl rfl rfl
  exact hcode.of_ledger_eq hledger

/-! The freezer. -/

theorem get_frozen_deposit_amount (c : Context) (cycle : Cycle) :
    (get_frozen_deposit c contract cycle).amount =
      amount_of (c.freezer.frozen_deposits.lookup (contract, cycle)) := by
  simp only [get_frozen_deposit, Indexed_data_storage.get_option,
    Storage.Contract.Frozen_deposits_store]
  cases c.freezer.frozen_deposits.lookup (contract, cycle) <;> rfl

theorem get_frozen_fees_amount (c : Context) (cycle : Cycle) :
    (get_frozen_fees c contract cycle).amount =
      amount_of (c.freezer.frozen_fees.lookup (contract, cycle)) := by
  simp only [get_frozen_fees, Indexed_data_storage.get_option, Storage.Contract.Frozen_fees_store]
  cases c.freezer.frozen_fees.lookup (contract, cycle) <;> rfl

namespace Ahead

variable (h : Ahead (some d) δ c) (cycle : Cycle) (new : Option Mine)
include h

/-- Freezing a deposit brings the stake back in step. -/
theorem frozen_deposits :
    Ahead (some d) (δ + ((get_frozen_deposit c (implicit_contract d) cycle).amount - amount_of new))
      (with_frozen_deposits c (implicit_contract d, cycle) new) where
  books := by
    apply (h.books.congr rfl rfl).eq
    rw [get_frozen_deposit_amount, at_delegate_add, staked_eq c]
    change _ = delegated_mine c.contracts + frozen_mine (c.freezer.frozen_deposits.put _ new) +
      frozen_mine c.freezer.frozen_fees + _
    rw [frozen_mine_put, ← neg_sub, at_delegate_neg]
    abel
  balances := h.balances

/-- Freezing fees brings the stake back in step. -/
theorem frozen_fees :
    Ahead (some d) (δ + ((get_frozen_fees c (implicit_contract d) cycle).amount - amount_of new))
      (with_frozen_fees c (implicit_contract d, cycle) new) where
  books := by
    apply (h.books.congr rfl rfl).eq
    rw [get_frozen_fees_amount, at_delegate_add, staked_eq c]
    change _ = delegated_mine c.contracts + frozen_mine c.freezer.frozen_deposits +
      frozen_mine (c.freezer.frozen_fees.put _ new) + _
    rw [frozen_mine_put, ← neg_sub, at_delegate_neg]
    abel
  balances := h.balances

end Ahead

/-- A deposit leaves the MINE balance of a registered delegate and stays staked
with it: the rolls do not move. -/
theorem freeze_deposit_accounted (h : Accounted c) (hregistered : registered c d = true)
    (hfreeze : freeze_deposit c d amount = .ok c') : Accounted c' := by
  obtain ⟨c1, c2, balance, new_balance, hbooked, hbalance, _, hset, hcredit⟩ :=
    freeze_deposit_spec.of_ok hfreeze
  have hdelegate : c1.contracts.delegate.lookup (implicit_contract d) = some d := by
    rw [contracts_of_eq_with_rolls hbooked.with_rolls]
    exact registered_iff.mp hregistered
  have hset' : c2 = with_mine_balance c1 (implicit_contract d) new_balance := hset
  obtain ⟨new_amount, _, _, rfl⟩ := credit_frozen_deposit_spec.of_ok hcredit
  subst hset'
  have h1 := (h.booked_zero hbooked).ahead (some d)
  have h2 := h1.mine_balance new_balance hdelegate hbalance
  refine ((h2.frozen_deposits c.level.cycle (some new_amount)).accounted ?_).congr rfl rfl rfl rfl rfl rfl
  simp only [amount_of, elim_some]
  omega

/-- Fees are staked with the delegate that earns them. -/
theorem freeze_fees_accounted (h : Accounted c) (hfreeze : freeze_fees c d amount = .ok c') :
    Accounted c' := by
  obtain ⟨c1, hadd, hcredit⟩ := freeze_fees_spec.of_ok hfreeze
  obtain ⟨new_amount, _, _, rfl⟩ := credit_frozen_fees_spec.of_ok hcredit
  have h1 := (h.ahead _).booked rfl hadd
  refine ((h1.frozen_fees c.level.cycle (some new_amount)).accounted ?_).congr rfl rfl rfl rfl rfl rfl
  simp only [amount_of, elim_some]
  omega

variable {cycle : Cycle}

/-- Burnt fees are booked out of the rolls. -/
theorem burn_fees_accounted (h : Accounted c) (hburn : burn_fees c d cycle amount = .ok c') :
    Accounted c' := by
  obtain ⟨_, new_amount, c1, _, hbooked, rfl⟩ := burn_fees_spec.of_ok hburn
  have h1 := (h.ahead _).booked rfl hbooked
  refine (h1.frozen_fees cycle (some new_amount)).accounted ?_
  rw [get_frozen_fees_amount, freezer_of_eq_with_rolls hbooked.with_rolls, ← get_frozen_fees_amount]
  simp only [amount_of, elim_some]
  omega

/-- Rewards are tez and not staked. -/
theorem freeze_rewards_accounted {amount : Tez} (h : Accounted c)
    (hfreeze : freeze_rewards c d amount = .ok c') : Accounted c' := by
  obtain ⟨_, _, _, rfl⟩ := credit_frozen_rewards_spec.of_ok hfreeze
  exact h.congr rfl rfl rfl rfl rfl rfl

/-- A registered delegate gets back what it had frozen, and it stays staked
with it. -/
theorem unfreeze_accounted {balance_updates : Balance_updates} (h : Accounted c)
    (hregistered : registered c d = true)
    (hunfreeze : unfreeze c d cycle = .ok (c', balance_updates)) :
    Accounted c' := by
  obtain ⟨balance, new_balance, mine_balance, new_mine_balance, _, hmine, _, _, rfl⟩ :=
    unfreeze_spec.of_ok hunfreeze
  rw [registered_iff] at hregistered
  have h1 := (h.ahead _).mine_balance new_mine_balance hregistered hmine
  have h2 := (h1.frozen_deposits cycle none).frozen_fees cycle none
  refine (h2.accounted ?_).congr rfl rfl rfl rfl rfl rfl
  change 0 + (mine_balance.amount - new_mine_balance.amount) +
    ((get_frozen_deposit c (implicit_contract d) cycle).amount - 0) +
    ((get_frozen_fees c (implicit_contract d) cycle).amount - 0) = 0
  omega

/-- What is taken from a punished delegate is no longer staked with it. -/
theorem punish_accounted {frozen : Frozen_balance} (h : Accounted c)
    (hpunish : punish c d cycle = .ok (c', frozen)) : Accounted c' := by
  obtain ⟨c2, hbooked, rfl⟩ := punish_spec.of_ok hpunish
  have hfreezer : c2.freezer = c.freezer := freezer_of_eq_with_rolls hbooked.with_rolls
  have h1 := ((h.ahead _).booked rfl hbooked).frozen_deposits cycle none
  refine ((h1.frozen_fees cycle none).accounted ?_).congr rfl rfl rfl rfl rfl rfl
  change _ + ((get_frozen_deposit c2 (implicit_contract d) cycle).amount - 0) +
    ((get_frozen_fees c2 (implicit_contract d) cycle).amount - 0) = 0
  simp only [get_frozen_deposit_amount, get_frozen_fees_amount, hfreezer]
  omega

end staking

end plexus
