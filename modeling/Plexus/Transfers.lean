import Mathlib.Algebra.Group.Pi.Lemmas
import Plexus.LedgerSteps

/-! What the calls of a manager operation do to the two balances of every
contract. -/

namespace plexus

open Context Store Qty constants_repr

namespace Context

variable {c c' : Context} (ctxt : Context)

/-- The context without accounts and rolls: what the functions that move tokens
between accounts leave alone. -/
@[simps] def rest : Context :=
  { ctxt.ledger with contracts := Contracts.empty, rolls := Rolls.empty, scripts := Scripts.empty }

/-- The ledger without what belongs to the operation that is applied: the
storage it has to pay for and its nonces. -/
@[simps] def books : Context :=
  { ctxt.ledger with
    storage_space_to_pay := none
    allocated_contracts := none
    origination_nonce := none
    temporary_big_map := -1
    internal_nonce := 0
    internal_nonces_used := ∅ }

@[simp] theorem rest_with_contracts (contracts : Contracts) :
    (ctxt.with_contracts contracts).rest = ctxt.rest := rfl

@[simp] theorem rest_with_code (contract : Contract) (code : Option MBytes) :
    (ctxt.with_code contract code).rest = ctxt.rest := rfl

/-- Rolls are no part of the rest. -/
theorem rest_eq_of_eq_with_rolls {rolls : Rolls} (h : c' = c.with_rolls rolls) :
    c'.rest = c.rest := by
  rw [h]
  rfl

/-- The rest is a part of the ledger. -/
theorem rest_eq_of_ledger_eq (h : c'.ledger = c.ledger) : c'.rest = c.rest := by
  have hrest := congrArg rest h
  exact hrest

/-- The books are a part of the ledger. -/
theorem books_eq_of_ledger_eq (h : c'.ledger = c.ledger) : c'.books = c.books := by
  have hbooks := congrArg books h
  exact hbooks

/-- A script cannot write in the books. -/
theorem books_eq_of_script_run (h : Script_run c c') : c'.books = c.books := by
  have hbooks := congrArg books h.ledger
  exact hbooks

end Context

/-- The accounts are in the books. -/
theorem Same_accounts.of_books_eq {c c' : Context} (h : c'.books = c.books) :
    Same_accounts c c' :=
  { of_ledger_eq (congrArg ledger h) with }

/-! What the token functions leave alone. -/

variable {amount : Tez} {delegate : Option Public_key_hash} {balance : Tez} {mine_amount : Mine}

section Rest

variable {c c' : Context} {contract : Contract}

namespace delegate_storage

/-- Changing a delegate moves rolls and leaves the rest. -/
theorem Redelegated.rest (h : Redelegated c c') : c'.rest = c.rest := by
  rw [h.frame]
  rfl

end delegate_storage

namespace contract_storage

@[simp] theorem rest_with_balance (c : Context) (contract : Contract) (balance : Tez) :
    (with_balance c contract balance).rest = c.rest := rest_with_contracts _ _

@[simp] theorem rest_with_mine_balance (c : Context) (contract : Contract) (balance : Mine) :
    (with_mine_balance c contract balance).rest = c.rest := rest_with_contracts _ _

@[simp] theorem rest_created (c : Context) (contract : Contract) (balance : Tez)
    (mine_balance : Mine) (manager : Option Public_key_hash) :
    (created c contract balance mine_balance manager).rest = c.rest :=
  rest_with_contracts _ _

@[simp] theorem rest_deleted (c : Context) (contract : Contract) :
    (deleted c contract).rest = c.rest := by
  rw [deleted, rest_with_code, deleted_account, rest_with_contracts]

/-- Spending changes the account and its rolls only. -/
theorem spend_rest (h : (spend c contract amount).outcome = .ok c') : c'.rest = c.rest := by
  obtain ⟨_, _, _, _, _, _, rfl | ⟨_, _, _, _, hledger⟩⟩ := spend_spec.of_ok h
  · exact rest_with_balance _ _ _
  · rw [rest_eq_of_ledger_eq hledger, rest_deleted, rest_with_balance]

/-- Spending MINE changes the account and its rolls only. -/
theorem mine_spend_rest {amount : Mine} (h : (mine_spend c contract amount).outcome = .ok c') :
    c'.rest = c.rest := by
  obtain ⟨_, _, _, c1, _, _, _, hremove, hcase⟩ := mine_spend_spec.of_ok h
  have hrest : c1.rest = c.rest := by
    rw [rest_eq_of_eq_with_rolls hremove.with_rolls, rest_with_mine_balance]
  rcases hcase with rfl | ⟨_, _, _, _, hledger⟩
  · exact hrest
  · rw [rest_eq_of_ledger_eq hledger, rest_deleted, hrest]

/-- Creating an account changes the accounts only. -/
theorem create_account_rest {mine_balance : Mine} {manager : Option Public_key_hash}
    (h : create_account c contract balance mine_balance manager delegate = .ok c') :
    c'.rest = c.rest := by
  obtain ⟨_, _, _, ⟨_, rfl⟩ | ⟨d, _, hinit⟩⟩ := create_account_spec.of_ok h
  · exact rest_created _ _ _ _ _
  · rw [(delegate_storage.init_undelegated hinit).rest, rest_created]

/-- A credit changes the account and its rolls only. -/
theorem credit_rest [Environment] (h : (credit c contract amount mine_amount).outcome = .ok c') :
    c'.rest = c.rest := by
  obtain ⟨c1, hledger, hcase⟩ := credit_spec.of_ok h
  rw [← rest_eq_of_ledger_eq hledger]
  rcases hcase with ⟨_, _, hcreate⟩ | ⟨mine_balance, _, haccount⟩
  · exact create_account_rest hcreate
  · obtain ⟨_, _, _, _, _, _, hadd⟩ := credit_account_spec.of_ok haccount
    rw [rest_eq_of_eq_with_rolls hadd.with_rolls, rest_with_mine_balance, rest_with_balance]

/-- An origination changes the accounts and the code only. -/
theorem originate_rest [Environment] {prepaid : Bool} {script : Script × Option Big_map_diff}
    (h : (originate c prepaid contract balance script delegate).outcome = .ok c') :
    c'.rest = c.rest := by
  obtain ⟨c1, _, hcreate, hledger⟩ := originate_spec.of_ok h
  rw [rest_eq_of_ledger_eq hledger, rest_with_code, create_account_rest hcreate]

end contract_storage

end Rest

/-! Storage to pay for. -/

/-- The operation has to pay for `size` bytes and `allocated` contracts more. -/
structure Owes (size : ℤ) (allocated : Nat) (c c' : Context) : Prop where
  storage_space_to_pay : c'.storage_space_to_pay = c.storage_space_to_pay.map (· + size)
  allocated_contracts : c'.allocated_contracts = c.allocated_contracts.map (· + allocated)

namespace Owes

variable {size size' : ℤ} {allocated allocated' : Nat} {c c' c'' : Context}

/-- Debts of storage add up. -/
theorem trans (h : Owes size allocated c c') (h' : Owes size' allocated' c' c'') :
    Owes (size + size') (allocated + allocated') c c'' where
  storage_space_to_pay := by
    rw [h'.storage_space_to_pay, h.storage_space_to_pay, Option.map_map]
    congr 1
    funext n
    simp [add_assoc]
  allocated_contracts := by
    rw [h'.allocated_contracts, h.allocated_contracts, Option.map_map]
    congr 1
    funext n
    simp [add_assoc]

/-- Nothing is owed for counters that stay as they are. -/
theorem of_eq (hspace : c'.storage_space_to_pay = c.storage_space_to_pay)
    (hallocated : c'.allocated_contracts = c.allocated_contracts) : Owes 0 0 c c' where
  storage_space_to_pay := by simp [hspace]
  allocated_contracts := by simp [hallocated]

/-- The counters of storage are in the rest. -/
theorem of_rest_eq (h : c'.rest = c.rest) : Owes 0 0 c c' :=
  of_eq (congrArg (·.storage_space_to_pay) h) (congrArg (·.allocated_contracts) h)

/-- The counters of storage are in the ledger. -/
theorem of_ledger_eq (h : c'.ledger = c.ledger) : Owes 0 0 c c' :=
  of_eq (congrArg (·.storage_space_to_pay) h) (congrArg (·.allocated_contracts) h)

/-- A script that runs owes nothing by itself. -/
theorem of_script_run (h : Script_run c c') : Owes 0 0 c c' :=
  of_eq (congrArg (·.storage_space_to_pay) h.ledger) (congrArg (·.allocated_contracts) h.ledger)

end Owes

/-! Balances. -/

/-- The amounts in a store of balances; a missing entry counts as nothing. -/
def amounts {id : Token} (store : Store Contract (Qty id)) : Contract → ℤ :=
  fun contract => (store.lookup contract).elim 0 Qty.amount

def tez_of (c : Context) : Contract → ℤ := amounts c.contracts.balance

def mine_of (c : Context) : Contract → ℤ := amounts c.contracts.mine_balance

variable {id : Token} {contract : Contract} {δ : ℤ}

/-- The amount of a contract that has a balance. -/
theorem amounts_of_lookup {store : Store Contract (Qty id)} {balance : Qty id}
    (h : store.lookup contract = some balance) : amounts store contract = balance.amount := by
  simp [amounts, h]

/-- A new entry changes the amount of its contract. -/
theorem amounts_put_some (store : Store Contract (Qty id)) (contract : Contract) (balance : Qty id)
    (h : balance.amount = amounts store contract + δ) :
    amounts (store.put contract (some balance)) = amounts store + Pi.single contract δ := by
  funext contract'
  simp only [amounts, lookup_put, Pi.add_apply, Pi.single_apply]
  split
  · next heq =>
    rw [heq]
    exact h
  · simp

/-- An entry without amount can be removed. -/
theorem amounts_put_none (store : Store Contract (Qty id)) (contract : Contract)
    (h : 0 = amounts store contract + δ) :
    amounts (store.put contract none) = amounts store + Pi.single contract δ := by
  funext contract'
  simp only [amounts, lookup_put, Pi.add_apply, Pi.single_apply]
  split
  · next heq =>
    rw [heq]
    exact h
  · simp

/-- The two balances of every contract change by the given amounts, and nothing
else a block keeps account of does. -/
structure Moved (tez mine : Contract → ℤ) (c c' : Context) : Prop where
  tez_eq : tez_of c' = tez_of c + tez
  mine_eq : mine_of c' = mine_of c + mine
  freezer : c'.freezer = c.freezer
  mine_fees : c'.mine_fees = c.mine_fees
  level : c'.level = c.level
  constants : c'.constants = c.constants

namespace Moved

variable {tez mine tez' mine' : Contract → ℤ} {c c' c'' : Context}

/-- Movements add up. -/
theorem trans (h : Moved tez mine c c') (h' : Moved tez' mine' c' c'') :
    Moved (tez + tez') (mine + mine') c c'' where
  tez_eq := by rw [h'.tez_eq, h.tez_eq, add_assoc]
  mine_eq := by rw [h'.mine_eq, h.mine_eq, add_assoc]
  freezer := h'.freezer.trans h.freezer
  mine_fees := h'.mine_fees.trans h.mine_fees
  level := h'.level.trans h.level
  constants := h'.constants.trans h.constants

/-- A movement is known from the balances if the rest stays. -/
theorem of_rest_eq (h : c'.rest = c.rest) (htez : tez_of c' = tez_of c + tez)
    (hmine : mine_of c' = mine_of c + mine) : Moved tez mine c c' where
  tez_eq := htez
  mine_eq := hmine
  freezer := congrArg (·.freezer) h
  mine_fees := congrArg (·.mine_fees) h
  level := congrArg (·.level) h
  constants := congrArg (·.constants) h

/-- Rolls move no money. -/
theorem of_with_rolls {rolls : Rolls} (h : c' = c.with_rolls rolls) : Moved 0 0 c c' := by
  subst h
  exact of_rest_eq rfl (add_zero _).symm (add_zero _).symm

/-- Nothing moves while the books stay as they are. -/
theorem of_books_eq (h : c'.books = c.books) : Moved 0 0 c c' where
  tez_eq := by
    have hcontracts : c'.contracts = c.contracts := congrArg (·.contracts) h
    rw [tez_of, hcontracts, add_zero]
    rfl
  mine_eq := by
    have hcontracts : c'.contracts = c.contracts := congrArg (·.contracts) h
    rw [mine_of, hcontracts, add_zero]
    rfl
  freezer := congrArg (·.freezer) h
  mine_fees := congrArg (·.mine_fees) h
  level := congrArg (·.level) h
  constants := congrArg (·.constants) h

/-- Nothing moves while the ledger stays as it is. -/
theorem of_ledger_eq (h : c'.ledger = c.ledger) : Moved 0 0 c c' :=
  of_books_eq (books_eq_of_ledger_eq h)

theorem eq (h : Moved tez mine c c') (htez : tez = tez') (hmine : mine = mine') :
    Moved tez' mine' c c' := htez ▸ hmine ▸ h

end Moved

/-! Totals. -/

/-- All the balances of a store together. -/
def total {id : Token} (store : Store Contract (Qty id)) : ℤ :=
  store.sum fun _ balance => balance.amount

/-- The total changes by what one contract gets. -/
theorem total_eq_of_amounts_eq {store store' : Store Contract (Qty id)}
    (h : amounts store' = amounts store + Pi.single contract δ) :
    total store' = total store + δ := by
  have hcontract := congrFun h contract
  rw [Pi.add_apply, Pi.single_eq_same] at hcontract
  rw [total, total, sum_eq_add_sub (g := fun _ balance => balance.amount) contract]
  · change _ + (amounts store' contract - amounts store contract) = _
    rw [hcontract]
    ring
  · intro contract' hne
    have hcontract' := congrFun h contract'
    rw [Pi.add_apply, Pi.single_eq_of_ne hne, add_zero] at hcontract'
    exact hcontract'

/-- What is added to the total of each token held by contracts, while nothing
is frozen or set free. -/
structure Conserved (tez mine : ℤ) (c c' : Context) : Prop where
  tez_eq : total c'.contracts.balance = total c.contracts.balance + tez
  mine_eq : total c'.contracts.mine_balance = total c.contracts.mine_balance + mine
  freezer : c'.freezer = c.freezer
  mine_fees : c'.mine_fees = c.mine_fees
  level : c'.level = c.level
  constants : c'.constants = c.constants

namespace Conserved

variable {tez mine tez' mine' : ℤ} {c c' c'' : Context} {contract contract' : Contract}

/-- Changes of the totals add up. -/
theorem trans (h : Conserved tez mine c c') (h' : Conserved tez' mine' c' c'') :
    Conserved (tez + tez') (mine + mine') c c'' where
  tez_eq := by rw [h'.tez_eq, h.tez_eq, add_assoc]
  mine_eq := by rw [h'.mine_eq, h.mine_eq, add_assoc]
  freezer := h'.freezer.trans h.freezer
  mine_fees := h'.mine_fees.trans h.mine_fees
  level := h'.level.trans h.level
  constants := h'.constants.trans h.constants

theorem eq (h : Conserved tez mine c c') (htez : tez = tez') (hmine : mine = mine') :
    Conserved tez' mine' c c' := htez ▸ hmine ▸ h

/-- What moves to or from a single contract changes the total by as much. -/
theorem of_moved (h : Moved (Pi.single contract tez) (Pi.single contract' mine) c c') :
    Conserved tez mine c c' where
  tez_eq := total_eq_of_amounts_eq h.tez_eq
  mine_eq := total_eq_of_amounts_eq h.mine_eq
  freezer := h.freezer
  mine_fees := h.mine_fees
  level := h.level
  constants := h.constants

/-- Where nothing moves the totals stay. -/
theorem of_moved_zero (h : Moved 0 0 c c') : Conserved 0 0 c c' := by
  have hsingle : Moved (Pi.single (.Originated ⟨0⟩) 0) (Pi.single (.Originated ⟨0⟩) 0) c c' :=
    h.eq (by simp) (by simp)
  exact of_moved hsingle

/-- The totals are in the books. -/
theorem of_books_eq (h : c'.books = c.books) : Conserved 0 0 c c' := of_moved_zero (.of_books_eq h)

end Conserved

namespace contract_storage

variable {c c' : Context} {contract : Contract}

/-- Deleting an account that has nothing moves nothing. -/
theorem deleted_moved (c : Context) (contract : Contract)
    (hgate : removing_empty_address ≤ c.level.level)
    (htez : tez_of c contract = 0) (hmine : mine_of c contract = 0) :
    Moved 0 0 c (deleted c contract) := by
  have hstores : (deleted c contract).contracts.balance = c.contracts.balance.put contract none ∧
      (deleted c contract).contracts.mine_balance = c.contracts.mine_balance.put contract none := by
    simp [deleted, deleted_account, hgate]
  refine .of_rest_eq (rest_deleted c contract) ?_ ?_
  · rw [tez_of, hstores.1, amounts_put_none _ contract (by rw [add_zero]; exact htez.symm),
      Pi.single_zero]
    rfl
  · rw [mine_of, hstores.2,
      amounts_put_none _ contract (by rw [add_zero]; exact hmine.symm), Pi.single_zero]
    rfl

/-- The amount is taken, and the account is deleted if nothing is left. -/
theorem emptied_moved {tez mine : Contract → ℤ} {c1 : Context} (hspent : Moved tez mine c c1)
    (hgate : removing_empty_address ≤ c.level.level)
    (hledger : c'.ledger = (deleted c1 contract).ledger)
    (htez : tez_of c contract + tez contract = 0)
    (hmine : mine_of c contract + mine contract = 0) : Moved tez mine c c' := by
  have hdeleted : Moved 0 0 c1 (deleted c1 contract) := by
    apply deleted_moved
    · rw [hspent.level]
      exact hgate
    · rw [hspent.tez_eq]
      exact htez
    · rw [hspent.mine_eq]
      exact hmine
  exact ((hspent.trans hdeleted).trans (.of_ledger_eq hledger)).eq (by simp) (by simp)

/-- A new balance is a movement by the difference. -/
theorem with_balance_moved {new : Tez} (h : new.amount = tez_of c contract + δ) :
    Moved (Pi.single contract δ) 0 c (with_balance c contract new) :=
  .of_rest_eq (rest_with_balance _ _ _) (amounts_put_some _ _ _ h) (add_zero _).symm

/-- A new MINE balance is a movement by the difference. -/
theorem with_mine_balance_moved {new : Mine} (h : new.amount = mine_of c contract + δ) :
    Moved 0 (Pi.single contract δ) c (with_mine_balance c contract new) :=
  .of_rest_eq (rest_with_mine_balance _ _ _) (add_zero _).symm (amounts_put_some _ _ _ h)

/-- `spend` takes the amount from the tez balance, also when it deletes the
account. -/
theorem spend_moved (hgate : removing_empty_address ≤ c.level.level)
    (h : (spend c contract amount).outcome = .ok c') :
    Moved (Pi.single contract (-amount.amount)) 0 c c' := by
  obtain ⟨balance, new_balance, mine_balance, hbalance, hmine, hnew, hcase⟩ := spend_spec.of_ok h
  have htez := amounts_of_lookup hbalance
  rw [sub_eq_add_neg, ← htez] at hnew
  have hspent := with_balance_moved hnew
  rcases hcase with rfl | ⟨hzero, hother, _, _, hledger⟩
  · exact hspent
  · refine emptied_moved hspent hgate hledger ?_ ?_
    · rw [Pi.single_eq_same]
      exact hnew.symm.trans (by rw [hzero, amount_zero])
    · rw [mine_of, amounts_of_lookup hmine, hother hgate, amount_zero]
      rfl

/-- Spending MINE takes the amount from the account, whether or not it is
emptied. -/
theorem mine_spend_moved {amount : Mine} (hgate : removing_empty_address ≤ c.level.level)
    (h : (mine_spend c contract amount).outcome = .ok c') :
    Moved 0 (Pi.single contract (-amount.amount)) c c' := by
  obtain ⟨balance, mine_balance, new_balance, c1, hbalance, hmine, hnew, hremove, hcase⟩ :=
    mine_spend_spec.of_ok h
  rw [sub_eq_add_neg, ← amounts_of_lookup hmine] at hnew
  have hspent : Moved 0 (Pi.single contract (-amount.amount)) c c1 :=
    ((with_mine_balance_moved hnew).trans (.of_with_rolls hremove.with_rolls)).eq (add_zero _)
      (add_zero _)
  rcases hcase with rfl | ⟨hzero, hother, _, _, hledger⟩
  · exact hspent
  · refine emptied_moved hspent hgate hledger ?_ ?_
    · rw [tez_of, amounts_of_lookup hbalance, hother (hspent.level ▸ hgate), amount_zero]
      rfl
    · rw [Pi.single_eq_same]
      exact hnew.symm.trans (by rw [hzero, amount_zero])

/-- A new account gets its first balances from nowhere. -/
theorem created_moved (balance : Tez) (mine_balance : Mine) (manager : Option Public_key_hash)
    (hbalance : c.contracts.balance.lookup contract = none)
    (hmine : c.contracts.mine_balance.lookup contract = none) :
    Moved (Pi.single contract balance.amount) (Pi.single contract mine_balance.amount) c
      (created c contract balance mine_balance manager) := by
  refine .of_rest_eq (rest_created _ _ _ _ _) ?_ ?_
  · exact amounts_put_some _ _ _ (by simp [amounts, hbalance])
  · exact amounts_put_some _ _ _ (by simp [amounts, hmine])

/-- Crediting an account that exists adds both amounts to its balances. -/
theorem credit_account_moved {mine_balance : Mine}
    (hmine : c.contracts.mine_balance.lookup contract = some mine_balance)
    (h : credit_account c contract amount mine_amount mine_balance = .ok c') :
    Moved (Pi.single contract amount.amount) (Pi.single contract mine_amount.amount) c c' := by
  obtain ⟨_, _, _, hbalance, hnew, hnew_mine, hadd⟩ := credit_account_spec.of_ok h
  rw [← amounts_of_lookup hbalance] at hnew
  rw [← amounts_of_lookup hmine] at hnew_mine
  exact (((with_balance_moved hnew).trans (with_mine_balance_moved hnew_mine)).trans
    (.of_with_rolls hadd.with_rolls)).eq (by simp) (by simp)

/-- `credit` adds to both balances, also when it creates the account. -/
theorem credit_moved [Environment] (h : (credit c contract amount mine_amount).outcome = .ok c') :
    Moved (Pi.single contract amount.amount) (Pi.single contract mine_amount.amount) c c' := by
  obtain ⟨c1, hledger, hcase⟩ := credit_spec.of_ok h
  have hfirst : Moved 0 0 c c1 := .of_ledger_eq hledger
  have hsecond : Moved (Pi.single contract amount.amount) (Pi.single contract mine_amount.amount)
      c1 c' := by
    rcases hcase with ⟨manager, _, hcreate⟩ | ⟨mine_balance, hmine, haccount⟩
    · obtain ⟨hbalance, hmine, _, ⟨_, rfl⟩ | ⟨d, hd, _⟩⟩ := create_account_spec.of_ok hcreate
      · exact created_moved _ _ _ hbalance hmine
      · cases hd
    · rw [← contracts_eq_of_ledger_eq hledger] at hmine
      exact credit_account_moved hmine haccount
  exact (hfirst.trans hsecond).eq (zero_add _) (zero_add _)

/-- Changing a delegate moves no money. -/
theorem undelegated_moved (h : delegate_storage.Redelegated c c') : Moved 0 0 c c' := by
  have hbalance : c'.contracts.balance = c.contracts.balance := congrArg (·.balance) h.contracts
  have hmine : c'.contracts.mine_balance = c.contracts.mine_balance :=
    congrArg (·.mine_balance) h.contracts
  refine .of_rest_eq h.rest ?_ ?_
  · rw [tez_of, hbalance, add_zero]
    rfl
  · rw [mine_of, hmine, add_zero]
    rfl

/-- A new contract starts with its tez and without MINE. -/
theorem originate_moved [Environment] {prepaid : Bool} {script : Script × Option Big_map_diff}
    (h : (originate c prepaid contract balance script delegate).outcome = .ok c') :
    Moved (Pi.single contract balance.amount) 0 c c' := by
  obtain ⟨c1, code, hcreate, hledger⟩ := originate_spec.of_ok h
  obtain ⟨hbalance, hmine, _, hcase⟩ := create_account_spec.of_ok hcreate
  have hcreated := created_moved balance Qty.zero none hbalance hmine
  have hfirst : Moved (Pi.single contract balance.amount) 0 c c1 := by
    rcases hcase with ⟨_, rfl⟩ | ⟨d, _, hinit⟩
    · exact hcreated.eq rfl (Pi.single_zero contract)
    · have hlinked := undelegated_moved (delegate_storage.init_undelegated hinit)
      exact (hcreated.trans hlinked).eq (by simp) (by simp)
  have hsecond : Moved 0 0 c1 (c1.with_code contract (some code)) :=
    .of_rest_eq (rest_with_code _ _ _) (add_zero _).symm (add_zero _).symm
  exact ((hfirst.trans hsecond).trans (.of_ledger_eq hledger)).eq (by simp) (by simp)

/-- Revealing a key moves no money. -/
theorem reveal_manager_key_moved [Environment] {manager : Public_key_hash} {public_key : Public_key}
    (h : reveal_manager_key c manager public_key = .ok c') : Moved 0 0 c c' := by
  obtain ⟨_, rfl⟩ := reveal_manager_key_spec.of_ok h
  exact .of_rest_eq (rest_with_contracts _ _) (add_zero _).symm (add_zero _).symm

/-- Counting an operation moves no money. -/
theorem increment_counter_moved {manager : Public_key_hash}
    (h : increment_counter c manager = .ok c') : Moved 0 0 c c' := by
  obtain ⟨_, _, _, _, rfl⟩ := increment_counter_spec.of_ok h
  exact .of_rest_eq (rest_with_contracts _ _) (add_zero _).symm (add_zero _).symm

end contract_storage

end plexus
