import Plexus.DelegateSpecs
import Plexus.ScriptMetering

/-! What the functions of `Contract_storage` did to the ledger when they
returned. -/

namespace plexus

open constants_repr Qty

open Result (meets_ok)
open contract_repr (is_implicit implicit_contract)
open Indexed_data_storage (get_spec init_spec set_spec delete_spec)

namespace Context

variable {c c' : Context}

theorem contracts_eq_of_ledger_eq (h : c'.ledger = c.ledger) : c'.contracts = c.contracts :=
  congrArg (·.contracts) h

theorem with_code_ledger_congr (h : c'.ledger = c.ledger) (contract : Contract)
    (code : Option MBytes) :
    (c'.with_code contract code).ledger = (c.with_code contract code).ledger :=
  congrArg (·.with_code contract code) h

end Context

theorem Same_meter.of_eq_with_rolls {c c' : Context} {rolls : Rolls} (h : c' = c.with_rolls rolls) :
    Same_meter c c' := by
  rw [h]
  exact ⟨rfl⟩

theorem delegate_storage.Redelegated.same_meter {c c' : Context} (h : Redelegated c c') :
    Same_meter c c' := by
  rw [h.frame]
  exact ⟨rfl⟩

/-! Scripts. -/

namespace contract_storage

variable [Environment] {c c' : Context} {contract : Contract}

/-- Storing a script records its code, and its size must be new. -/
theorem create_script_spec {prepaid : Bool} {script : Script} {diff : Option Big_map_diff} :
    Charged (· = .Assert_total_size)
      (fun c' => ∃ code, c'.ledger = (c.with_code contract (some code)).ledger) c
      (create_script c prepaid contract script diff) some := by
  refine .bind_fst (Carbonated_map_expr.init_spec c contract (fun _ _ => ⟨rfl⟩) _).weaken ?_
  rintro _ _ ⟨c0, code, hledger0, rfl⟩
  refine .bind_fst (Carbonated_map_expr.init_spec _ contract (fun _ _ => ⟨rfl⟩) _).weaken ?_
  rintro _ _ ⟨c5, _, hledger5, rfl⟩
  refine .bind_fst (update_script_big_map_off_ledger _ diff).weaken fun c3 big_map_size hdiff => ?_
  have hledger3 : c3.ledger = (c.with_code contract (some code)).ledger := by
    have hledger5' := hledger5.trans (Context.with_code_ledger_congr hledger0 contract (some code))
    rw [hdiff c3 rfl]
    simpa using hledger5'
  dsimp only
  split
  · exact .raise rfl
  · refine .bind_context (Off_ledger.init_value fun _ _ => ⟨⟨rfl⟩, rfl⟩).weaken fun c4 hpaid => ?_
    refine ((Off_ledger.init_value fun _ _ => ⟨⟨rfl⟩, rfl⟩).imp fun c' hused => ⟨code, ?_⟩).weaken
    rw [hused c' rfl, hpaid c4 rfl, hledger3]

/-! Creation and deletion. -/

/-- The account made by `create_account`, before it gets a delegate. The
counter of an implicit account starts at the global counter. -/
def created (c : Context) (contract : Contract) (balance : Tez) (mine_balance : Mine)
    (manager : Option Public_key_hash) : Context :=
  c.with_contracts { c.contracts with
    counter :=
      match is_implicit contract with
      | none => c.contracts.counter
      | some _ => c.contracts.counter.put contract c.contracts.global_counter
    balance := c.contracts.balance.put contract (some balance)
    mine_balance := c.contracts.mine_balance.put contract (some mine_balance)
    manager :=
      match manager with
      | none => c.contracts.manager
      | some manager => c.contracts.manager.put contract (some (.Hash manager)) }

variable {balance : Tez} {mine_balance : Mine} {manager delegate : Option Public_key_hash}

omit [Environment] in
/-- A new account has no balances yet, and starts at the global counter if it is
implicit. -/
theorem create_account_spec :
    (create_account c contract balance mine_balance manager delegate).Meets fun c' =>
      c.contracts.balance.lookup contract = none ∧
      c.contracts.mine_balance.lookup contract = none ∧
      (∀ pkh, is_implicit contract = some pkh →
        c.contracts.global_counter.isSome ∧ c.contracts.counter.lookup contract = none) ∧
      (delegate = none ∧ c' = created c contract balance mine_balance manager ∨
        ∃ d, delegate = some d ∧
          delegate_storage.init (created c contract balance mine_balance manager) contract d =
            .ok c') := by
  refine .bind (Q := fun c1 => c1 = c.with_contracts { c.contracts with
      counter :=
        match is_implicit contract with
        | none => c.contracts.counter
        | some _ => c.contracts.counter.put contract c.contracts.global_counter } ∧
      ∀ pkh, is_implicit contract = some pkh →
        c.contracts.global_counter.isSome ∧ c.contracts.counter.lookup contract = none) ?_ ?_
  · cases himplicit : is_implicit contract with
    | none => exact meets_ok ⟨rfl, fun _ h => by cases h⟩
    | some pkh =>
      refine .bind Single_data_storage.get_spec fun counter hglobal => ?_
      refine init_spec.imp ?_
      rintro _ ⟨hnone, rfl⟩
      rw [Storage.Contract.Global_counter_value] at hglobal
      rw [Storage.Contract.Counter_store] at hnone
      simp [hglobal, hnone]
  rintro _ ⟨rfl, hcounters⟩
  refine .bind init_spec ?_
  rintro _ ⟨hbalance, rfl⟩
  refine .bind init_spec ?_
  rintro _ ⟨hmine, rfl⟩
  refine .seq (a := created c contract balance mine_balance manager) ?_ ?_
  · cases manager with
    | none => exact meets_ok (by simp [created])
    | some manager =>
      refine init_spec.imp ?_
      rintro _ ⟨_, rfl⟩
      simp [created]
  have hmine' : c.contracts.mine_balance.lookup contract = none := by simpa using hmine
  cases delegate with
  | none => exact meets_ok ⟨hbalance, hmine', hcounters, .inl ⟨rfl, rfl⟩⟩
  | some d =>
    exact delegate_storage.init_spec.total.meets.imp fun _ hinit =>
      ⟨hbalance, hmine', hcounters, .inr ⟨d, rfl, hinit⟩⟩

omit [Environment] in
theorem create_account_same_meter
    (h : create_account c contract balance mine_balance manager delegate = .ok c') :
    Same_meter c c' := by
  obtain ⟨_, _, _, hcase⟩ := create_account_spec.of_ok h
  have hcreated : Same_meter c (created c contract balance mine_balance manager) := ⟨rfl⟩
  rcases hcase with ⟨_, rfl⟩ | ⟨d, _, hinit⟩
  · exact hcreated
  · exact hcreated.trans (delegate_storage.init_undelegated hinit).same_meter

/-- `originate` creates an account without MINE and with no manager. -/
theorem originate_spec {prepaid : Bool} {script : Script × Option Big_map_diff}
    {delegate : Option Public_key_hash} :
    Charged (· = .Assert_total_size) (fun c' => ∃ c1 code,
      create_account c contract balance zero none delegate = .ok c1 ∧
        c'.ledger = (c1.with_code contract (some code)).ledger) c
      (originate c prepaid contract balance script delegate) some := by
  refine .check_bind create_account_spec.total.meets fun c1 hcreate => ?_
  refine .of_same_meter (create_account_same_meter hcreate) ?_
  exact create_script_spec.imp fun c' ⟨code, hledger⟩ => ⟨c1, code, hcreate, hledger⟩

variable {manager : Public_key_hash}

/-- An implicit account is created with its manager and no delegate. -/
theorem create_implicit_spec : Charged Never (fun c' =>
    create_account c (implicit_contract manager) balance mine_balance (some manager) none = .ok c')
      c (create_implicit c manager balance mine_balance) some := by
  refine .check_bind create_account_spec.total.meets fun c1 hcreate => ?_
  exact .pure_of rfl (create_account_same_meter hcreate) hcreate

/-- The context without an account. Before `removing_empty_address`, the entry
of its MINE balance stays. -/
def deleted_account (c : Context) (contract : Contract) : Context :=
  c.with_contracts { c.contracts with
    balance := c.contracts.balance.put contract none
    mine_balance :=
      if constants_repr.removing_empty_address ≤ c.level.level then
        c.contracts.mine_balance.put contract none
      else c.contracts.mine_balance
    manager := c.contracts.manager.put contract none
    counter := c.contracts.counter.put contract none }

/-- The context without an account and its code. -/
def deleted (c : Context) (contract : Contract) : Context :=
  (deleted_account c contract).with_code contract none

omit [Environment] in
/-- Deleting takes the balances, the counter and the manager. -/
theorem delete_account_spec (hdelegate : c.contracts.delegate.lookup contract = none) :
    (delete_account c contract).Meets (· = deleted_account c contract) := by
  have hremove : (delegate_storage.remove c contract).Meets (· = c) := by
    refine delegate_storage.unlink_spec.imp ?_
    rintro c1 ⟨_, _, ⟨_, rfl⟩ | ⟨d, _, hsome, _⟩⟩
    · rfl
    · cases hdelegate.symm.trans hsome
  refine .seq hremove ?_
  refine .bind delete_spec ?_
  rintro _ ⟨_, rfl⟩
  split
  · next hgate =>
    have hgate' : removing_empty_address ≤ c.level.level := hgate
    refine .bind delete_spec ?_
    rintro _ ⟨_, rfl⟩
    refine .bind delete_spec ?_
    rintro _ ⟨_, rfl⟩
    refine delete_spec.imp ?_
    rintro _ ⟨_, rfl⟩
    simp [deleted_account, hgate']
  · next hgate =>
    have hgate' : ¬ removing_empty_address ≤ c.level.level := hgate
    refine .seq (meets_ok rfl) ?_
    refine .bind delete_spec ?_
    rintro _ ⟨_, rfl⟩
    refine delete_spec.imp ?_
    rintro _ ⟨_, rfl⟩
    simp [deleted_account, hgate']

omit [Environment] in
/-- An account that is deleted has no delegate and, from
`removing_empty_address` on, no tokens. -/
theorem delete_spec (hdelegate : c.contracts.delegate.lookup contract = none)
    (hempty : removing_empty_address ≤ c.level.level →
      c.contracts.balance.lookup contract = some zero ∧
      c.contracts.mine_balance.lookup contract = some zero) :
    Charged Never (fun c' => c'.ledger = (deleted c contract).ledger ∧
      ∃ pkh, is_implicit contract = some pkh) c (delete c contract) some := by
  refine .emit_bind hempty rfl rfl ?_
  cases himplicit : is_implicit contract with
  | none => exact .fail
  | some pkh =>
    refine .check_bind (delete_account_spec hdelegate) ?_
    rintro _ rfl
    have hmeter : Same_meter c (deleted_account c contract) := ⟨rfl⟩
    refine .of_same_meter hmeter ?_
    refine .bind_fst (Carbonated_map_expr.remove_spec _ contract (fun _ _ => ⟨rfl⟩)) ?_
    rintro _ _ ⟨c2, hledger2, rfl⟩
    refine .bind_fst (Carbonated_map_expr.remove_spec _ contract (fun _ _ => ⟨rfl⟩)) ?_
    rintro _ _ ⟨c3, hledger3, rfl⟩
    have hledger : c3.ledger = (deleted c contract).ledger :=
      hledger3.trans (Context.with_code_ledger_congr hledger2 contract none)
    exact .pure_of rfl ⟨rfl⟩ ⟨by simpa using hledger, pkh, rfl⟩

/-- A key is revealed once, in the place of its hash. -/
theorem reveal_manager_key_spec {public_key : Public_key} :
    (reveal_manager_key c manager public_key).Meets fun c' =>
      c.contracts.manager.lookup (implicit_contract manager) =
        some (.Hash (Environment.public_key_hash public_key)) ∧
      c' = c.with_contracts { c.contracts with
        manager := c.contracts.manager.put (implicit_contract manager)
          (some (.Public_key public_key)) } := by
  refine .bind get_spec fun key hkey => ?_
  cases key with
  | Public_key pk => exact meets_fail
  | Hash v =>
    dsimp only
    split
    · next heq =>
      rw [heq]
      exact set_spec.imp fun _ hset => ⟨hkey, hset⟩
    · exact meets_fail

omit [Environment] in
/-- `increment_counter` moves both the counter of the account and the global
one. -/
theorem increment_counter_spec :
    (increment_counter c manager).Meets fun c' => ∃ global_counter counter,
      c.contracts.global_counter = some global_counter ∧
      c.contracts.counter.lookup (implicit_contract manager) = some counter ∧
      c' = c.with_contracts { c.contracts with
        global_counter := some (global_counter + 1)
        counter := c.contracts.counter.put (implicit_contract manager)
          (some (counter + 1)) } := by
  refine .bind Single_data_storage.get_spec fun global_counter hglobal => ?_
  refine .seq Single_data_storage.set_spec ?_
  refine .bind get_spec fun counter hcounter => ?_
  refine set_spec.imp ?_
  rintro _ rfl
  exact ⟨global_counter, counter, hglobal, hcounter, by simp⟩

omit [Environment] in
theorem total_must_exist (c : Context) (contract : Contract) : (must_exist c contract).Total := by
  unfold must_exist
  split
  · exact Result.total_ok _
  · exact total_fail _

/-! Transfers. -/

@[simps! scripts rolls freezer constants level]
def with_balance (c : Context) (contract : Contract) (balance : Tez) : Context :=
  c.with_contracts { c.contracts with
    balance := c.contracts.balance.put contract (some balance) }

@[simps! scripts rolls freezer constants level]
def with_mine_balance (c : Context) (contract : Contract) (mine_balance : Mine) : Context :=
  c.with_contracts { c.contracts with
    mine_balance := c.contracts.mine_balance.put contract (some mine_balance) }

omit [Environment] in
/-- Either nothing happens, or an implicit account without delegate is
deleted. -/
theorem delete_if_empty_spec {holds_other_token : Bool}
    (hempty : removing_empty_address ≤ c.level.level → holds_other_token = false →
      c.contracts.balance.lookup contract = some zero ∧
      c.contracts.mine_balance.lookup contract = some zero) :
    Charged Never (fun c' => c' = c ∨
      (removing_empty_address ≤ c.level.level → holds_other_token = false) ∧
        (∃ pkh, is_implicit contract = some pkh) ∧
        c.contracts.delegate.lookup contract = none ∧
        c'.ledger = (deleted c contract).ledger) c
      (delete_if_empty c contract holds_other_token) some := by
  unfold delete_if_empty
  split
  · exact .pure_of rfl (.refl c) (.inl rfl)
  · next hkept =>
    have hother : removing_empty_address ≤ c.level.level →
        holds_other_token = false := by
      intro hgate
      have hgate' : removing_empty_address ≤
        (raw_context.current_level c).level := hgate
      simpa [hgate'] using hkept
    split
    · exact .pure_of rfl (.refl c) (.inl rfl)
    · split
      · split
        · exact .pure_of rfl (.refl c) (.inl rfl)
        · exact .fail
      · next hdelegate =>
        refine (delete_spec hdelegate fun hgate => hempty hgate (hother hgate)).imp ?_
        rintro c' ⟨hledger, himplicit⟩
        exact .inr ⟨hother, himplicit, hdelegate, hledger⟩

omit [Environment] in
/-- An account that is left with nothing may be deleted. -/
theorem spent_spec {id id' : Token} {new_balance : Qty id} {other : Qty id'}
    (hempty : new_balance = zero → other = zero →
      c.contracts.balance.lookup contract = some zero ∧
      c.contracts.mine_balance.lookup contract = some zero) :
    Charged Never (fun c' => c' = c ∨
      new_balance = zero ∧
      (removing_empty_address ≤ c.level.level → other = zero) ∧
      (∃ pkh, is_implicit contract = some pkh) ∧
      c.contracts.delegate.lookup contract = none ∧
      c'.ledger = (deleted c contract).ledger) c
      (if zero < new_balance then pure c
        else delete_if_empty c contract (decide (zero < other))) some := by
  split
  · exact .pure_of rfl (.refl c) (.inl rfl)
  · next hzero =>
    have hzero := eq_zero_of_not_pos hzero
    have hother_zero : decide (zero < other) = false → other = zero :=
      fun hother => eq_zero_of_not_pos (of_decide_eq_false hother)
    refine (delete_if_empty_spec fun _ hother => hempty hzero (hother_zero hother)).imp ?_
    rintro c' (rfl | ⟨hother, himplicit, hdelegate, hledger⟩)
    · exact .inl rfl
    · exact .inr ⟨hzero, fun hgate => hother_zero (hother hgate), himplicit, hdelegate, hledger⟩

variable {amount : Tez}

omit [Environment] in
/-- Spending lowers the balance. An implicit account that is emptied and has no
delegate is deleted; from a level on only if it has no MINE either. -/
theorem spend_spec : Charged Never (fun c' => ∃ balance new_balance mine_balance,
    c.contracts.balance.lookup contract = some balance ∧
    c.contracts.mine_balance.lookup contract = some mine_balance ∧
    new_balance.amount = balance.amount - amount.amount ∧
    (c' = with_balance c contract new_balance ∨
      new_balance = zero ∧
      (removing_empty_address ≤ c.level.level → mine_balance = zero) ∧
      (∃ pkh, is_implicit contract = some pkh) ∧
      c.contracts.delegate.lookup contract = none ∧
      c'.ledger = (deleted (with_balance c contract new_balance) contract).ledger)) c
      (spend c contract amount) some := by
  refine .check_bind get_spec fun balance hbalance => ?_
  refine .check_bind get_spec fun mine_balance hmine => ?_
  split
  · next new_balance hsub =>
    refine .check_bind set_spec ?_
    rintro _ rfl
    have hmeter : Same_meter c (with_balance c contract new_balance) := ⟨rfl⟩
    refine .of_same_meter hmeter ?_
    have hnew := sub_eq_ok_iff.mp hsub
    refine (spent_spec fun hzero hother => ?_).imp fun c' h =>
      ⟨balance, new_balance, mine_balance, hbalance, hmine, hnew, h⟩
    rw [hother] at hmine
    exact ⟨by simp [with_balance, hzero], hmine⟩
  · exact .fail

omit [Environment] in
/-- Spending MINE lowers the balance and books it out of the rolls. An emptied
account is deleted as before. -/
theorem mine_spend_spec {amount : Mine} :
    Charged Never (fun c' => ∃ balance mine_balance new_balance c1,
    c.contracts.balance.lookup contract = some balance ∧
    c.contracts.mine_balance.lookup contract = some mine_balance ∧
    new_balance.amount = mine_balance.amount - amount.amount ∧
    roll_storage.Contract.Booked contract (-amount.amount)
      (with_mine_balance c contract new_balance) c1 ∧
    (c' = c1 ∨
      new_balance = zero ∧
      (removing_empty_address ≤ c1.level.level → balance = zero) ∧
      (∃ pkh, is_implicit contract = some pkh) ∧
      c1.contracts.delegate.lookup contract = none ∧
      c'.ledger = (deleted c1 contract).ledger)) c (mine_spend c contract amount) some := by
  refine .check_bind get_spec fun mine_balance hmine => ?_
  refine .check_bind get_spec fun balance hbalance => ?_
  split
  · next new_balance hsub =>
    refine .check_bind set_spec ?_
    rintro _ rfl
    have hmeter : Same_meter c (with_mine_balance c contract new_balance) := ⟨rfl⟩
    refine .of_same_meter hmeter ?_
    refine .check_bind roll_storage.Contract.remove_amount_spec fun c1 hbooked => ?_
    have hrolls := hbooked.with_rolls
    refine .of_same_meter (.of_eq_with_rolls hrolls) ?_
    have hnew := sub_eq_ok_iff.mp hsub
    refine (spent_spec fun hzero hother => ?_).imp fun c' h =>
      ⟨balance, mine_balance, new_balance, c1, hbalance, hmine, hnew, hbooked, h⟩
    rw [hother] at hbalance
    rw [Context.contracts_of_eq_with_rolls hrolls]
    exact ⟨hbalance, by simp [hzero]⟩
  · exact .fail

variable {mine_amount : Mine}

omit [Environment] in
/-- A credit raises both balances and books the MINE for the delegate. -/
theorem credit_account_spec :
    (credit_account c contract amount mine_amount mine_balance).Meets fun c' =>
      ∃ balance new_balance new_mine_balance,
        c.contracts.balance.lookup contract = some balance ∧
        new_balance.amount = balance.amount + amount.amount ∧
        new_mine_balance.amount = mine_balance.amount + mine_amount.amount ∧
        roll_storage.Contract.Booked contract mine_amount.amount
          (with_mine_balance (with_balance c contract new_balance) contract new_mine_balance) c' := by
  refine .bind get_spec fun balance hbalance => ?_
  refine .bind add_spec fun new_balance hadd => ?_
  refine .seq set_spec ?_
  refine .bind add_spec fun new_mine_balance hmine_add => ?_
  refine .seq set_spec ?_
  refine roll_storage.Contract.add_amount_spec.imp fun _ hbooked => ?_
  refine ⟨balance, new_balance, new_mine_balance, hbalance, ?_, ?_, hbooked⟩
  · rw [hadd, add_comm]
  · rw [hmine_add, add_comm]

/-- `credit` creates an implicit account that has no MINE balance, and adds to
both balances of an account that has one. -/
theorem credit_spec : Charged Never (fun c' => ∃ c1, c1.ledger = c.ledger ∧
    ((∃ manager, contract = implicit_contract manager ∧
        create_account c1 contract amount mine_amount (some manager) none = .ok c') ∨
      ∃ mine_balance, c.contracts.mine_balance.lookup contract = some mine_balance ∧
        credit_account c1 contract amount mine_amount mine_balance = .ok c')) c
      (credit c contract amount mine_amount) some := by
  refine .bind_context (check_not_empty_transaction_off_ledger c contract amount mine_amount)
    fun c1 hcheck => ?_
  have hledger := hcheck c1 rfl
  split
  · split
    · exact .fail
    · next manager himplicit =>
      rw [contract_repr.is_implicit_eq_some_iff] at himplicit
      subst himplicit
      exact create_implicit_spec.imp fun c' hcreate => ⟨c1, hledger, .inl ⟨manager, rfl, hcreate⟩⟩
  · next mine_balance hmine =>
    have hmine' : c.contracts.mine_balance.lookup contract = some mine_balance := by
      rw [← Context.contracts_eq_of_ledger_eq hledger]
      exact hmine
    refine (Charged.lift credit_account_spec.total.meets ?_).imp fun c' hcredit =>
      ⟨c1, hledger, .inr ⟨mine_balance, hmine', hcredit⟩⟩
    rintro c' _ hcredit ⟨⟩
    obtain ⟨_, new_balance, new_mine_balance, _, _, _, hbooked⟩ := credit_account_spec.of_ok hcredit
    have hset : Same_meter c1
        (with_mine_balance (with_balance c1 contract new_balance) contract new_mine_balance) :=
      ⟨rfl⟩
    exact hset.trans (.of_eq_with_rolls hbooked.with_rolls)

end contract_storage

end plexus
