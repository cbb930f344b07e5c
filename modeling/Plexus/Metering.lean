import Plexus.ContractStorage

/-! Gas, deletions and exceptions along a computation, whatever its outcome. -/

namespace plexus

open List Result Traced raw_context Int

/-- The gas an event took. -/
def Event.gas : Event → ℤ
  | .consume gas => gas
  | .delete _ _ _ => 0
  | .burn _ => 0

/-- The gas taken by a list of events. -/
def consumed (events : List Event) : ℤ := (events.map Event.gas).sum

/-- The MINE an event burned. -/
def Event.burned : Event → ℤ
  | .consume _ => 0
  | .delete _ _ _ => 0
  | .burn amount => amount.amount

/-- The MINE burned by a list of events. -/
def burned (events : List Event) : ℤ := (events.map Event.burned).sum

@[simp] theorem consumed_append (events events' : List Event) :
    consumed (events ++ events') = consumed events + consumed events' := by
  simp [consumed]

@[simp] theorem burned_nil : burned [] = 0 := rfl

@[simp] theorem burned_append (events events' : List Event) :
    burned (events ++ events') = burned events + burned events' := by
  simp [burned]

/-- From `removing_empty_address` on, an account is deleted only when both of
its balances are zero. -/
def Event.Allowed (level : Level) : Event → Prop
  | .consume gas => 0 ≤ gas
  | .delete _ balance mine_balance =>
    constants_repr.removing_empty_address ≤ level.level →
      balance = some Qty.zero ∧ mine_balance = some Qty.zero
  | .burn _ => True

/-- No event gives gas back. -/
theorem Event.Allowed.gas_nonneg {level : Level} {e : Event} (h : e.Allowed level) : 0 ≤ e.gas := by
  cases e with
  | consume gas => exact h
  | delete contract balance mine_balance => exact le_refl 0
  | burn amount => exact le_refl 0

/-- The gas consumed is not negative. -/
theorem consumed_nonneg {α : Type} (level : Level) {m : Carbonated α}
    (h : m.Emits (Event.Allowed level)) : 0 ≤ consumed m.events := by
  apply sum_nonneg
  rw [forall_mem_map]
  exact fun e he => (h e he).gas_nonneg

/-- The first part of a sequence consumed part of the gas. -/
theorem consumed_le_bind {α β : Type} {level : Level} {m : Carbonated α} {f : α → Carbonated β}
    {a : α} (h : (m >>= f).Emits (Event.Allowed level)) (ha : m.outcome = .ok a) :
    consumed m.events ≤ consumed (m >>= f).events := by
  have hevents := events_bind_ok ha f
  have hrest : 0 ≤ consumed (f a).events := by
    apply consumed_nonneg level
    intro e he
    apply h e
    rw [hevents]
    exact mem_append_right _ he
  rw [hevents, consumed_append]
  omega

/-- Gas taken from what an operation has left. -/
def Gas.spend : Gas → ℤ → Gas
  | .Limited remaining, gas => .Limited (remaining - gas)
  | .Unaccounted, _ => .Unaccounted

@[simp] theorem Gas.spend_zero (gas : Gas) : gas.spend 0 = gas := by
  cases gas <;> simp [Gas.spend]

/-- Gas is spent bit by bit. -/
theorem Gas.spend_spend (gas : Gas) (n m : ℤ) : (gas.spend n).spend m = gas.spend (n + m) := by
  cases gas with
  | Limited remaining => simp [Gas.spend, sub_sub]
  | Unaccounted => rfl

/-- What manager operations leave alone: everything but accounts, scripts,
rolls, big maps, gas, fees and the counters of the operation itself. -/
def Context.surroundings (c : Context) : Context :=
  { c with
    mine_fees := Qty.zero
    block_gas := 0
    operation_gas := .Unaccounted
    internal_gas := 0
    storage_space_to_pay := none
    allocated_contracts := none
    origination_nonce := none
    temporary_big_map := 0
    internal_nonce := 0
    internal_nonces_used := ∅
    contracts := Contracts.empty
    scripts := Scripts.empty
    rolls := Rolls.empty
    big_maps := Big_maps.empty }

/-- The part of a context that meters an operation: the gas that is left, and
whether storage fees are being counted for which operation. -/
structure Meter where
  block_gas : ℤ
  operation_gas : Gas
  internal_gas : ℤ
  surroundings : Context
  counts_space : Bool
  counts_contracts : Bool
  operation_hash : Option Operation_hash

def Context.meter (c : Context) : Meter where
  block_gas := c.block_gas
  operation_gas := c.operation_gas
  internal_gas := c.internal_gas
  surroundings := c.surroundings
  counts_space := c.storage_space_to_pay.isSome
  counts_contracts := c.allocated_contracts.isSome
  operation_hash := c.origination_nonce.map (·.operation_hash)

structure Same_meter (c c' : Context) : Prop where
  meter : c'.meter = c.meter

namespace Same_meter

variable {c c' c'' : Context}

theorem refl (c : Context) : Same_meter c c := ⟨rfl⟩

section

variable (h : Same_meter c c')

include h

theorem trans (h' : Same_meter c' c'') : Same_meter c c'' := ⟨h'.meter.trans h.meter⟩

theorem block_gas : c'.block_gas = c.block_gas := congrArg Meter.block_gas h.meter

theorem operation_gas : c'.operation_gas = c.operation_gas := congrArg Meter.operation_gas h.meter

theorem internal_gas : c'.internal_gas = c.internal_gas := congrArg Meter.internal_gas h.meter

theorem surroundings : c'.surroundings = c.surroundings := congrArg Meter.surroundings h.meter

theorem level : c'.level = c.level := congrArg (·.level) h.surroundings

end

end Same_meter

/-- Both contexts belong to the same operation, and the storage fees are counted
in both or in none. -/
structure Same_operation (c c' : Context) : Prop where
  counts_space : c'.storage_space_to_pay.isSome = c.storage_space_to_pay.isSome
  counts_contracts : c'.allocated_contracts.isSome = c.allocated_contracts.isSome
  operation_hash :
    c'.origination_nonce.map (·.operation_hash) = c.origination_nonce.map (·.operation_hash)

variable {c c' : Context}

/-- Parts of the same operation compose. -/
theorem Same_operation.trans {c'' : Context} (h : Same_operation c c')
    (h' : Same_operation c' c'') :
    Same_operation c c'' where
  counts_space := h'.counts_space.trans h.counts_space
  counts_contracts := h'.counts_contracts.trans h.counts_contracts
  operation_hash := h'.operation_hash.trans h.operation_hash

/-- The operation is in the meter. -/
theorem Same_meter.same_operation (h : Same_meter c c') : Same_operation c c' where
  counts_space := congrArg Meter.counts_space h.meter
  counts_contracts := congrArg Meter.counts_contracts h.meter
  operation_hash := congrArg Meter.operation_hash h.meter

/-- A computation is part of the application of one content, or covers several
contents. Within a content there is one gas limit and nothing is burned. -/
inductive Scope where
  | content
  | batch

/-- What a context has left after a computation that consumed `gas`. -/
structure Spent (scope : Scope) (gas : ℤ) (c c' : Context) : Prop where
  block_gas : c'.block_gas = c.block_gas - gas
  operation_gas : scope = .content → c'.operation_gas = c.operation_gas.spend gas
  internal_gas : scope = .content → 0 ≤ c.internal_gas → 0 ≤ c'.internal_gas
  same_operation : scope = .content → Same_operation c c'
  surroundings : c'.surroundings = c.surroundings

variable {scope : Scope}

theorem Spent.level {gas : ℤ} (h : Spent scope gas c c') : c'.level = c.level :=
  congrArg (·.level) h.surroundings

/-- A context with the same meter has spent nothing. -/
theorem Same_meter.spent (h : Same_meter c c') :
    Spent scope 0 c c' where
  block_gas := by simp [h.block_gas]
  operation_gas _ := by simp [h.operation_gas]
  internal_gas _ hc := h.internal_gas ▸ hc
  same_operation _ := h.same_operation
  surroundings := h.surroundings

/-- What is spent adds up. -/
theorem Spent.trans {gas gas' : ℤ} {c'' : Context} (h : Spent scope gas c c')
    (h' : Spent scope gas' c' c'') : Spent scope (gas + gas') c c'' where
  block_gas := by rw [h'.block_gas, h.block_gas, sub_sub]
  operation_gas hscope := by
    rw [h'.operation_gas hscope, h.operation_gas hscope, Gas.spend_spend]
  internal_gas hscope hc := h'.internal_gas hscope (h.internal_gas hscope hc)
  same_operation hscope := (h.same_operation hscope).trans (h'.same_operation hscope)
  surroundings := h'.surroundings.trans h.surroundings

/-- The operation has a gas limit. -/
def Limited_gas (c : Context) : Prop := ∃ remaining, c.operation_gas = .Limited remaining

/-- A limited operation stays limited. -/
theorem Spent.limited_gas {gas : ℤ} (h : Spent .content gas c c') (hlimited : Limited_gas c) :
    Limited_gas c' := by
  obtain ⟨remaining, hremaining⟩ := hlimited
  exact ⟨remaining - gas, by rw [h.operation_gas rfl, hremaining, Gas.spend]⟩

/-- A computation from `c` that is charged correctly. It emits allowed events
only, never consumes more gas than the block has, returns contexts from which
exactly the consumed gas is taken, and raises only exceptions in `R`. Within a
content it ends after finitely many steps if there is a gas limit. `ctxt` selects
the context in a returned value, if there is one. -/
structure Metered {α : Type} (scope : Scope) (R : Exn → Prop) (c : Context) (m : Carbonated α)
    (ctxt : α → Option Context) : Prop where
  events : m.Emits (Event.Allowed c.level)
  block : consumed m.events ≤ max 0 c.block_gas
  unburned : scope = .content → burned m.events = 0
  returned : ∀ a c', m.outcome = .ok a → ctxt a = some c' → Spent scope (consumed m.events) c c'
  not_div : scope = .content → Limited_gas c → m.outcome ≠ .div
  raised : ∀ x, m.outcome = .raise x → R x

namespace Metered

variable {α β : Type} {scope : Scope} {R : Exn → Prop} {c : Context} {ctxt : α → Option Context}
  {a : α}

/-- `pure` of a value with a context in it. -/
theorem pure_of (ha : ctxt a = some c') (h : Same_meter c c') :
    Metered scope R c (pure a : Carbonated α) ctxt where
  events := emits_pure _ a
  block := le_max_left 0 _
  unburned _ := rfl
  returned b c'' hb hc'' := by
    cases hb
    rw [ha] at hc''
    cases hc''
    exact h.spent
  not_div := by simp
  raised := by simp

variable {r : Tzresult α}

/-- A computation without events that may raise. -/
theorem lift_within (hr : r.Within R) (h : ∀ a c', r = .ok a → ctxt a = some c' → Same_meter c c') :
    Metered scope R c (liftM r : Carbonated α) ctxt where
  events := emits_monadLift _ r
  block := le_max_left 0 _
  unburned _ := rfl
  returned a c' ha hc' := (h a c' ha hc').spent
  not_div _ _ := hr.1
  raised := hr.2

/-- A computation without events. -/
theorem lift {Q : α → Prop} (hr : r.Meets Q)
    (h : ∀ a c', Q a → ctxt a = some c' → Same_meter c c') :
    Metered scope R c (liftM r : Carbonated α) ctxt :=
  lift_within hr.total.within fun a c' ha => h a c' (hr.of_ok ha)

theorem fail {e : Error} :
    Metered scope R c (liftM (plexus.fail e : Tzresult α) : Carbonated α) ctxt :=
  lift (meets_fail (Q := fun _ => False)) fun _ _ h => h.elim

variable {ctxt' : β → Option Context} {m : Carbonated α} {f : α → Carbonated β}

/-- A check: nothing is known afterwards but that it returned. -/
theorem check_bind {Q : α → Prop} (hr : r.Meets Q) (hf : ∀ a, Q a → Metered scope R c (f a) ctxt') :
    Metered scope R c (liftM r >>= f) ctxt' := by
  rcases hr.total with ⟨a, rfl⟩ | ⟨e, rfl⟩
  · exact hf a (hr.of_ok rfl)
  · exact lift (meets_error (Q := fun _ => False) e) fun _ _ h => h.elim

/-- The first part of a sequence returns a context from which the second part
goes on. -/
theorem bind (hm : Metered scope R c m ctxt)
    (hf : ∀ a, m.outcome = .ok a → ∃ c', ctxt a = some c' ∧ Metered scope R c' (f a) ctxt') :
    Metered scope R c (m >>= f) ctxt' := by
  cases hout : m.outcome with
  | ok a =>
    obtain ⟨c', hc', hfa⟩ := hf a hout
    have hspent := hm.returned a c' hout hc'
    have hevents := events_bind_ok hout f
    have houtcome : (m >>= f).outcome = (f a).outcome := by
      rw [outcome_bind, hout, bind_ok]
    refine ⟨?_, ?_, ?_, ?_, ?_, ?_⟩
    · intro e he
      rw [hevents, mem_append] at he
      rcases he with he | he
      · exact hm.events e he
      · rw [← hspent.level]
        exact hfa.events e he
    · have hearlier := hm.block
      have hlater := hfa.block
      rw [hspent.block_gas] at hlater
      rw [hevents, consumed_append]
      omega
    · intro hscope
      rw [hevents, burned_append, hm.unburned hscope, hfa.unburned hscope, add_zero]
    · intro b c'' hb hc''
      rw [houtcome] at hb
      rw [hevents, consumed_append]
      exact hspent.trans (hfa.returned b c'' hb hc'')
    · rintro rfl hlimited
      rw [houtcome]
      exact hfa.not_div rfl (hspent.limited_gas hlimited)
    · intro x hx
      rw [houtcome] at hx
      exact hfa.raised x hx
  | error e =>
    have hbind : m >>= f = ⟨m.events, .error e⟩ := by
      change Traced.bind m f = _
      simp only [Traced.bind, hout]
    rw [hbind]
    exact ⟨hm.events, hm.block, hm.unburned, by simp, by simp, by simp⟩
  | raise x =>
    have hbind : m >>= f = ⟨m.events, .raise x⟩ := by
      change Traced.bind m f = _
      simp only [Traced.bind, hout]
    rw [hbind]
    exact ⟨hm.events, hm.block, hm.unburned, by simp, by simp, by
      intro y hy
      cases hy
      exact hm.raised x hout⟩
  | div =>
    have hbind : m >>= f = ⟨m.events, .div⟩ := by
      change Traced.bind m f = _
      simp only [Traced.bind, hout]
    rw [hbind]
    exact ⟨hm.events, hm.block, hm.unburned, by simp,
      fun hscope hlimited => absurd hout (hm.not_div hscope hlimited), by simp⟩

/-- `bind` for a first part that returns a context and nothing else. -/
theorem bind_context {m : Carbonated Context} {f : Context → Carbonated β}
    (hm : Metered scope R c m some)
    (hf : ∀ c', m.outcome = .ok c' → Metered scope R c' (f c') ctxt') :
    Metered scope R c (m >>= f) ctxt' :=
  hm.bind fun c' hc' => ⟨c', rfl, hf c' hc'⟩

theorem trace {e : Error} (hm : Metered scope R c m ctxt) :
    Metered scope R c (trace_carbonated e m) ctxt where
  events := hm.events
  block := hm.block
  unburned := hm.unburned
  returned a c' ha hc' := hm.returned a c' (trace_eq_ok_iff.mp ha) hc'
  not_div hscope hlimited h := hm.not_div hscope hlimited (trace_eq_div_iff.mp h)
  raised x h := hm.raised x (trace_eq_raise_iff.mp h)

/-- After a failure that is handled, nothing is said about contexts. -/
theorem attempt (hm : Metered scope R c m ctxt) :
    Metered scope R c m.attempt fun outcome => outcome.toOption.bind ctxt where
  events := hm.events
  block := hm.block
  unburned := hm.unburned
  returned outcome c' houtcome hc' := by
    cases outcome with
    | ok a => exact hm.returned a c' (attempt_eq_ok_ok_iff.mp houtcome) hc'
    | error e => cases hc'
  not_div hscope hlimited h := hm.not_div hscope hlimited (attempt_eq_div_iff.mp h)
  raised x h := hm.raised x (attempt_eq_raise_iff.mp h)

/-- A sequence may end without a context. -/
theorem bind_end {b : β}
    (hm : Metered scope R c m ctxt) (ha : m.outcome = .ok a) (hf : f a = Pure.pure b)
    (hb : ctxt' b = none) : Metered scope R c (m >>= f) ctxt' := by
  have hbind : m >>= f = ⟨m.events ++ [], .ok b⟩ := by
    change Traced.bind m f = _
    simp only [Traced.bind, ha, hf]
    rfl
  rw [hbind, append_nil]
  refine ⟨hm.events, hm.block, hm.unburned, ?_, by simp, by simp⟩
  intro b' c' hb' hc'
  cases hb'
  rw [hb] at hc'
  cases hc'

/-- A handled failure ends the computation without a context. -/
theorem bind_attempt {f : Except Trace α → Carbonated β}
    (hm : Metered scope R c m ctxt)
    (hok : ∀ a, m.outcome = .ok a → ∃ c', ctxt a = some c' ∧ Metered scope R c' (f (.ok a)) ctxt')
    (herror : ∀ e, m.outcome = .error e → ∃ b, f (.error e) = Pure.pure b ∧ ctxt' b = none) :
    Metered scope R c (m.attempt >>= f) ctxt' := by
  cases hout : m.outcome with
  | error e =>
    obtain ⟨b, hb, hnone⟩ := herror e hout
    have hattempt : m.attempt.outcome = .ok (.error e) := by
      rw [outcome_attempt, hout, attempt_error]
    exact hm.attempt.bind_end hattempt hb hnone
  | ok a =>
    refine hm.attempt.bind ?_
    intro outcome houtcome
    rw [outcome_attempt, hout, attempt_ok, Result.ok.injEq] at houtcome
    subst houtcome
    exact hok a hout
  | raise x =>
    refine hm.attempt.bind ?_
    intro outcome houtcome
    rw [outcome_attempt, hout] at houtcome
    cases houtcome
  | div =>
    refine hm.attempt.bind ?_
    intro outcome houtcome
    rw [outcome_attempt, hout] at houtcome
    cases houtcome

/-- `bind` for a first part that may return without a context, which ends the
computation. -/
theorem bind_option {m : Carbonated (Option Context × α)} {f : Option Context × α → Carbonated β}
    (hm : Metered scope R c m fun r => r.1)
    (hsome : ∀ c' a, m.outcome = .ok (some c', a) → Metered scope R c' (f (some c', a)) ctxt')
    (hnone : ∀ a, m.outcome = .ok (none, a) → ∃ b, f (none, a) = Pure.pure b ∧ ctxt' b = none) :
    Metered scope R c (m >>= f) ctxt' := by
  by_cases hout : ∃ a, m.outcome = .ok (none, a)
  · obtain ⟨a, ha⟩ := hout
    obtain ⟨b, hb, hb_none⟩ := hnone a ha
    exact hm.bind_end ha hb hb_none
  · refine hm.bind ?_
    rintro ⟨_ | c', a⟩ ha
    · exact absurd ⟨a, ha⟩ hout
    · exact ⟨c', rfl, hsome c' a ha⟩

/-- More exceptions may be allowed. -/
theorem mono {R' : Exn → Prop} (hm : Metered scope R c m ctxt)
    (hR : ∀ x, R x → R' x) : Metered scope R' c m ctxt :=
  { hm with raised := fun x hx => hR x (hm.raised x hx) }

/-- A part of a content stays within its operation. -/
theorem same_operation (hm : Metered .content R c m ctxt)
    (h : m.outcome = .ok a) (ha : ctxt a = some c') : Same_operation c c' :=
  (hm.returned a c' h ha).same_operation rfl

/-- What one content does is part of what a batch does. -/
theorem of_content (hm : Metered .content R c m ctxt) :
    Metered scope R c m ctxt where
  events := hm.events
  block := hm.block
  unburned _ := hm.unburned rfl
  returned a c' ha hc' := have hspent := hm.returned a c' ha hc'
    ⟨hspent.block_gas, fun _ => hspent.operation_gas rfl, fun _ => hspent.internal_gas rfl,
      fun _ => hspent.same_operation rfl, hspent.surroundings⟩
  not_div _ := hm.not_div rfl
  raised := hm.raised

/-- The meter of the starting context is all that counts. -/
theorem of_same_meter {c0 : Context} (h : Same_meter c0 c)
    (hm : Metered scope R c m ctxt) : Metered scope R c0 m ctxt where
  events := by
    rw [← h.level]
    exact hm.events
  block := by
    rw [← h.block_gas]
    exact hm.block
  unburned := hm.unburned
  returned a c' ha hc' := by
    have hspent := h.spent.trans (hm.returned a c' ha hc')
    rwa [zero_add] at hspent
  not_div hscope hlimited := hm.not_div hscope (by rwa [Limited_gas, h.operation_gas])
  raised := hm.raised

/-- Between contents, the gas of the block is all that is metered. -/
theorem of_same_block {c0 : Context} (hblock : c.block_gas = c0.block_gas)
    (hsurroundings : c.surroundings = c0.surroundings) (hm : Metered .batch R c m ctxt) :
    Metered .batch R c0 m ctxt where
  events := by
    have hlevel : c.level = c0.level := congrArg (·.level) hsurroundings
    rw [← hlevel]
    exact hm.events
  block := by
    rw [← hblock]
    exact hm.block
  unburned hscope := by cases hscope
  returned a c' ha hc' := by
    have hspent := hm.returned a c' ha hc'
    refine ⟨by rw [hspent.block_gas, hblock], ?_, ?_, ?_, hspent.surroundings.trans hsurroundings⟩ <;>
    · intro hscope
      cases hscope
  not_div := nofun
  raised := hm.raised

/-- An event that takes no gas. -/
theorem emit_bind {e : Event} (he : e.Allowed c.level) (hgas : e.gas = 0)
    (hburned : scope = .content → e.burned = 0) (hm : Metered scope R c m ctxt) :
    Metered scope R c (emit e >>= fun _ => m) ctxt := by
  have hconsumed : consumed [e] = 0 := by simp [consumed, hgas]
  have hemit : Metered scope R c (emit e : Carbonated Unit) fun _ => some c := by
    refine ⟨emits_emit _ e he, ?_, ?_, ?_, by simp, by simp⟩
    · change consumed [e] ≤ _
      rw [hconsumed]
      exact le_max_left 0 _
    · intro hscope
      simp [burned, hburned hscope]
    · intro _ c' _ hc'
      cases hc'
      change Spent scope (consumed [e]) c c
      rw [hconsumed]
      exact (Same_meter.refl c).spent
  exact hemit.bind fun _ _ => ⟨c, rfl, hm⟩

end Metered

/-! Charging gas. -/

namespace gas_limit_repr

/-- All costs are sums of products of numbers that are not negative. -/
structure Cost_nonneg (cost : Cost) : Prop where
  allocations : 0 ≤ cost.allocations
  steps : 0 ≤ cost.steps
  reads : 0 ≤ cost.reads
  writes : 0 ≤ cost.writes
  bytes_read : 0 ≤ cost.bytes_read
  bytes_written : 0 ≤ cost.bytes_written

/-- Costs that are not negative take internal gas. -/
theorem Cost_nonneg.internal_gas {cost : Cost} (h : Cost_nonneg cost) :
    0 ≤ cost_to_internal_gas cost := by
  have h1 := h.allocations
  have h2 := h.steps
  have h3 := h.reads
  have h4 := h.writes
  have h5 := h.bytes_read
  have h6 := h.bytes_written
  simp only [cost_to_internal_gas, allocation_weight, step_weight, read_base_weight,
    write_base_weight, byte_read_weight, byte_written_weight]
  omega

theorem free_nonneg : Cost_nonneg free := by constructor <;> exact le_refl 0

theorem scale_nonneg {z : ℤ} (h : 0 ≤ z) : 0 ≤ scale z := mul_nonneg h (by decide)

/-- Costs are added component by component. -/
theorem add_cost_nonneg {x y : Cost} (hx : Cost_nonneg x) (hy : Cost_nonneg y) :
    Cost_nonneg (add x y) where
  allocations := add_nonneg hx.allocations hy.allocations
  steps := add_nonneg hx.steps hy.steps
  reads := add_nonneg hx.reads hy.reads
  writes := add_nonneg hx.writes hy.writes
  bytes_read := add_nonneg hx.bytes_read hy.bytes_read
  bytes_written := add_nonneg hx.bytes_written hy.bytes_written

theorem mul_cost_nonneg {x : ℤ} {y : Cost} (hx : 0 ≤ x) (hy : Cost_nonneg y) :
    Cost_nonneg (mul x y) where
  allocations := mul_nonneg hx hy.allocations
  steps := mul_nonneg hx hy.steps
  reads := mul_nonneg hx hy.reads
  writes := mul_nonneg hx hy.writes
  bytes_read := mul_nonneg hx hy.bytes_read
  bytes_written := mul_nonneg hx hy.bytes_written

variable {n : ℤ}

theorem alloc_cost_nonneg (h : 0 ≤ n) : Cost_nonneg (alloc_cost n) :=
  { free_nonneg with allocations := scale_nonneg (by omega) }

theorem step_cost_nonneg (h : 0 ≤ n) : Cost_nonneg (step_cost n) :=
  { free_nonneg with steps := scale_nonneg h }

theorem read_bytes_cost_nonneg (h : 0 ≤ n) : Cost_nonneg (read_bytes_cost n) :=
  { free_nonneg with reads := scale_nonneg (by decide), bytes_read := scale_nonneg h }

theorem write_bytes_cost_nonneg (h : 0 ≤ n) : Cost_nonneg (write_bytes_cost n) :=
  { free_nonneg with writes := (by decide : (0 : ℤ) ≤ 1), bytes_written := scale_nonneg h }

theorem alloc_mbytes_cost_nonneg (h : 0 ≤ n) : Cost_nonneg (alloc_mbytes_cost n) := by
  apply add_cost_nonneg (alloc_cost_nonneg (by decide))
  apply alloc_cost_nonneg
  exact Int.tdiv_nonneg (by omega) (by decide)

theorem manager_operation_nonneg : Cost_nonneg manager_operation := step_cost_nonneg (by decide)

end gas_limit_repr

namespace script_repr

open gas_limit_repr

mutual

/-- The size of an expression is not negative, by induction on it. -/
theorem node_size_nonneg (expr : Expr) : 0 ≤ (node_size expr).1 ∧ 0 ≤ (node_size expr).2 := by
  cases expr with
  | Int n =>
    rw [node_size, int_node_size]
    constructor <;> dsimp only <;> omega
  | String s =>
    rw [node_size, string_node_size]
    constructor <;> dsimp only <;> omega
  | Bytes s =>
    rw [node_size, bytes_node_size]
    constructor <;> dsimp only <;> omega
  | Prim prim args annots =>
    rw [node_size]
    apply add_node_sizes_nonneg args
    unfold prim_node_size_nonrec
    dsimp only
    split <;> constructor <;> dsimp only <;> omega
  | Seq args =>
    rw [node_size]
    apply add_node_sizes_nonneg args
    unfold seq_node_size_nonrec
    constructor <;> dsimp only <;> omega

theorem add_node_sizes_nonneg (args : List Expr) {acc : ℤ × ℤ} (h : 0 ≤ acc.1 ∧ 0 ≤ acc.2) :
    0 ≤ (add_node_sizes acc args).1 ∧ 0 ≤ (add_node_sizes acc args).2 := by
  cases args with
  | nil =>
    rw [add_node_sizes]
    exact h
  | cons node rest =>
    have hnode := node_size_nonneg node
    rw [add_node_sizes]
    apply add_node_sizes_nonneg rest
    constructor <;> dsimp only <;> omega

end

/-- Reading an expression costs something. -/
theorem deserialized_cost_nonneg (expr : Expr) : Cost_nonneg (deserialized_cost expr) := by
  have hsize := node_size_nonneg expr
  apply add_cost_nonneg
  · apply add_cost_nonneg
    · exact mul_cost_nonneg (le_max_left 0 _) (alloc_cost_nonneg (le_refl 0))
    · exact alloc_cost_nonneg hsize.2
  · exact step_cost_nonneg hsize.1

theorem traversal_cost_nonneg (expr : Expr) : Cost_nonneg (traversal_cost expr) :=
  step_cost_nonneg (node_size_nonneg expr).1

theorem serialized_cost_nonneg (bytes : MBytes) : Cost_nonneg (serialized_cost bytes) :=
  alloc_mbytes_cost_nonneg (natCast_nonneg _)

end script_repr

namespace gas_limit_repr

variable {block_gas block_gas' internal_gas internal_gas' : ℤ} {gas gas' : Gas} {cost : Cost}

/-- Charging succeeds or fails, and raises nothing. -/
theorem total_consume (block_gas : ℤ) (gas : Gas) (internal_gas : ℤ) (cost : Cost) :
    (consume block_gas gas internal_gas cost).Total := by
  unfold consume
  cases gas with
  | Unaccounted => exact total_ok _
  | Limited remaining =>
    dsimp only
    split
    · split
      · exact total_fail _
      · split
        · exact total_fail _
        · exact total_ok _
    · exact total_ok _

/-- A successful `consume` takes the gas that `gas_consumed` reports. The block
and the operation can afford it. -/
theorem consume_spent (hcost : Cost_nonneg cost)
    (h : consume block_gas gas internal_gas cost = .ok (block_gas', gas', internal_gas')) :
    0 ≤ gas_consumed gas gas' ∧
      block_gas' = block_gas - gas_consumed gas gas' ∧
      gas' = gas.spend (gas_consumed gas gas') ∧
      (gas_consumed gas gas' = 0 ∨ 0 ≤ block_gas') ∧
      (0 ≤ internal_gas → 0 ≤ internal_gas') ∧
      ∀ remaining, gas = .Limited remaining →
        rescale (cost_to_internal_gas cost + internal_gas) ≤ gas_consumed gas gas' ∧
        gas_consumed gas gas' ≤ max 0 remaining := by
  have hnonneg := hcost.internal_gas
  unfold consume internal_gas_to_gas at h
  cases gas with
  | Unaccounted =>
    cases h
    simp [gas_consumed, Gas.spend]
  | Limited remaining =>
    dsimp only at h
    split at h
    · split at h
      · exact absurd h fail_ne_ok
      · split at h
        · exact absurd h fail_ne_ok
        · cases h
          simp only [gas_consumed, Gas.spend, Gas.Limited.injEq, sub_sub_cancel]
          refine ⟨by omega, trivial, trivial, .inr (by omega), fun _ => ?_, ?_⟩
          · exact emod_nonneg _ (by decide)
          · rintro _ rfl
            omega
    · cases h
      simp only [gas_consumed, Gas.spend, Gas.Limited.injEq, sub_self, sub_zero]
      refine ⟨le_refl 0, trivial, trivial, .inl trivial, by omega, ?_⟩
      rintro _ rfl
      omega

/-! Sums of costs. -/

/-- What is left of the block gas, the operation gas and the internal gas is not
negative, with less than a unit of internal gas. -/
structure Solvent (left : ℤ × Gas × ℤ) : Prop where
  block : 0 ≤ left.1
  operation : ∀ remaining, left.2.1 = .Limited remaining → 0 ≤ remaining
  internal : 0 ≤ left.2.2
  rest : left.2.2 < 128

/-- The costs are consumed one after the other. -/
def consume_all (left : ℤ × Gas × ℤ) (costs : List Cost) : Tzresult (ℤ × Gas × ℤ) :=
  costs.foldlM (fun left cost => consume left.1 left.2.1 left.2.2 cost) left

section Sums

variable {left r : ℤ × Gas × ℤ} {block_gas internal_gas remaining : ℤ} {x y : Cost}

/-- Whole units are taken, and the rest is carried. -/
theorem Solvent.consume_iff (h : Solvent (block_gas, .Limited remaining, internal_gas))
    (hx : Cost_nonneg x) {total : ℤ} (htotal : cost_to_internal_gas x + internal_gas = total) :
    consume block_gas (.Limited remaining) internal_gas x = .ok r ↔
      total / 128 ≤ remaining ∧ total / 128 ≤ block_gas ∧
        r = (block_gas - total / 128, .Limited (remaining - total / 128), total % 128) := by
  obtain ⟨hblock, hoperation, hinternal, _⟩ := h
  have hremaining := hoperation remaining rfl
  have hnonneg : 0 ≤ total := htotal ▸ add_nonneg hx.internal_gas hinternal
  have hbits : (2 : ℤ) ^ rescaling_bits = 128 := rfl
  simp only [consume, internal_gas_to_gas, rescale, htotal, hbits]
  split
  · split
    · exact iff_of_false fail_ne_ok (by omega)
    · split
      · exact iff_of_false fail_ne_ok (by omega)
      · rw [Result.ok.injEq, eq_comm]
        exact ⟨fun h => ⟨by omega, by omega, h⟩, fun h => h.2.2⟩
  · have hzero : total / 128 = 0 := by omega
    have hrest : total % 128 = total := by omega
    rw [Result.ok.injEq, eq_comm, hzero, hrest, sub_zero, sub_zero]
    exact ⟨fun h => ⟨hremaining, hblock, h⟩, fun h => h.2.2⟩

/-- After a charge the account is solvent. -/
theorem Solvent.consumed (h : Solvent left) (hx : Cost_nonneg x)
    (hr : consume left.1 left.2.1 left.2.2 x = .ok r) : Solvent r := by
  obtain ⟨_, gas, _⟩ := left
  cases gas with
  | Unaccounted =>
    cases hr
    exact h
  | Limited remaining =>
    obtain ⟨hremaining, hblock, rfl⟩ := (h.consume_iff hx rfl).mp hr
    refine ⟨sub_nonneg.mpr hblock, ?_, emod_nonneg _ (by decide), emod_lt_of_pos _ (by decide)⟩
    rintro _ ⟨⟩
    exact sub_nonneg.mpr hremaining

/-- Two charges succeed together exactly when their sum does. -/
theorem Solvent.consume_add (h : Solvent left) (hx : Cost_nonneg x) (hy : Cost_nonneg y) :
    (∃ l, consume left.1 left.2.1 left.2.2 x = .ok l ∧ consume l.1 l.2.1 l.2.2 y = .ok r) ↔
      consume left.1 left.2.1 left.2.2 (add x y) = .ok r := by
  obtain ⟨_, gas, internal_gas⟩ := left
  cases gas with
  | Unaccounted => simp [consume]
  | Limited remaining =>
    have hsum : cost_to_internal_gas (add x y) + internal_gas =
        cost_to_internal_gas y + (cost_to_internal_gas x + internal_gas) := by
      simp only [cost_to_internal_gas, add]
      ring
    have hpositive := hy.internal_gas
    have hrest := emod_nonneg (cost_to_internal_gas x + internal_gas) (b := 128) (by decide)
    have hunits : (cost_to_internal_gas y + (cost_to_internal_gas x + internal_gas)) / 128 =
        (cost_to_internal_gas x + internal_gas) / 128 +
          (cost_to_internal_gas y + (cost_to_internal_gas x + internal_gas) % 128) / 128 := by
      omega
    rw [h.consume_iff (add_cost_nonneg hx hy) hsum, hunits, ← sub_sub, ← sub_sub]
    constructor
    · rintro ⟨l, hl, hr⟩
      have hsolvent := h.consumed hx hl
      obtain ⟨_, _, rfl⟩ := (h.consume_iff hx rfl).mp hl
      obtain ⟨_, _, rfl⟩ := (hsolvent.consume_iff hy rfl).mp hr
      refine ⟨by omega, by omega, ?_⟩
      rw [add_emod_emod]
    · rintro ⟨_, _, rfl⟩
      have hl := (h.consume_iff hx rfl).mpr ⟨by omega, by omega, rfl⟩
      refine ⟨_, hl, ((h.consumed hx hl).consume_iff hy rfl).mpr ⟨by omega, by omega, ?_⟩⟩
      rw [add_emod_emod]

/-- Consuming costs one after the other is consuming their sum. -/
theorem consume_additive {costs : List Cost} (h : Solvent left)
    (hcosts : ∀ cost ∈ costs, Cost_nonneg cost) :
    (∀ r, consume_all left costs = .ok r ↔
      consume left.1 left.2.1 left.2.2 (costs.foldr add free) = .ok r) ∧
    ∀ r, consume_all left costs = .ok r → Solvent r := by
  have hall : Cost_nonneg (costs.foldr add free) ∧ ∀ r, consume_all left costs = .ok r ↔
      consume left.1 left.2.1 left.2.2 (costs.foldr add free) = .ok r := by
    induction costs generalizing left with
    | nil =>
      refine ⟨free_nonneg, fun r => ?_⟩
      obtain ⟨_, gas, _⟩ := left
      cases gas with
      | Unaccounted => rfl
      | Limited remaining =>
        rw [foldr_nil, h.consume_iff free_nonneg (zero_add _),
          ediv_eq_zero_of_lt h.internal h.rest, emod_eq_of_lt h.internal h.rest, sub_zero,
          sub_zero, eq_comm]
        exact ⟨fun hr => ⟨h.operation remaining rfl, h.block, Result.ok.inj hr⟩,
          fun hr => congrArg Result.ok hr.2.2⟩
    | cons cost costs ih =>
      rw [forall_mem_cons] at hcosts
      have hsum := (ih h hcosts.2).1
      refine ⟨add_cost_nonneg hcosts.1 hsum, fun r => ?_⟩
      rw [consume_all, foldlM_cons, bind_eq_ok_iff, foldr_cons,
        ← h.consume_add hcosts.1 hsum]
      refine exists_congr fun l => and_congr_right fun hl => ?_
      exact (ih (h.consumed hcosts.1 hl) hcosts.2).2 r
  exact ⟨hall.2, fun r hr => h.consumed hall.1 ((hall.2 r).mp hr)⟩

theorem consume_additive_two_steps :
    Solvent (10, .Limited 10, 127) ∧ (∀ cost ∈ [step_cost 2, step_cost 3], Cost_nonneg cost) ∧
      consume 10 (.Limited 10) 127 (add (step_cost 2) (add (step_cost 3) free)) =
        .ok (5, .Limited 5, 127) := by
  have hsolvent : Solvent (10, .Limited 10, 127) :=
    ⟨by decide, by rintro _ ⟨⟩; decide, by decide, by decide⟩
  have hcosts : ∀ cost ∈ [step_cost 2, step_cost 3], Cost_nonneg cost := by
    simp [step_cost_nonneg]
  exact ⟨hsolvent, hcosts, ((consume_additive hsolvent hcosts).1 _).mp rfl⟩

end Sums

end gas_limit_repr

namespace raw_context

/-- A charge changes the three gas counters and nothing else. -/
theorem consume_gas_success {c c' : Context} {cost : Cost}
    (h : (consume_gas c cost).outcome = .ok c') :
    ∃ block_gas operation_gas internal_gas,
      gas_limit_repr.consume c.block_gas c.operation_gas c.internal_gas cost =
        .ok (block_gas, operation_gas, internal_gas) ∧
      c' = c.with_gas block_gas operation_gas internal_gas := by
  simp only [consume_gas, outcome_bind, outcome_monadLift, outcome_emit, outcome_pure, bind_ok] at h
  obtain ⟨⟨block_gas, operation_gas, internal_gas⟩, hconsume, h⟩ := bind_inv h
  exact ⟨block_gas, operation_gas, internal_gas, hconsume, (Result.ok.inj h).symm⟩

/-- Gas is not in the ledger. -/
theorem consume_gas_ledger {c c' : Context} {cost : Cost}
    (h : (consume_gas c cost).outcome = .ok c') : c'.ledger = c.ledger := by
  obtain ⟨_, _, _, _, rfl⟩ := consume_gas_success h
  rfl

end raw_context

/-- Charging gas is charged correctly. -/
theorem raw_context.consume_gas_metered {R : Exn → Prop} (c : Context) {cost : Cost}
    (hcost : gas_limit_repr.Cost_nonneg cost) : Metered scope R c (consume_gas c cost) some := by
  apply Metered.of_content
  have htotal := gas_limit_repr.total_consume c.block_gas c.operation_gas c.internal_gas cost
  rcases htotal with ⟨⟨block_gas, operation_gas, internal_gas⟩, hconsume⟩ | ⟨e, hconsume⟩
  · have hrun : consume_gas c cost = ⟨[.consume (gas_consumed c.operation_gas operation_gas)],
          .ok (c.with_gas block_gas operation_gas internal_gas)⟩ := by
      unfold consume_gas
      rw [hconsume]
      rfl
    obtain ⟨hnonneg, hblock, hop, _, hinternal, _⟩ := gas_limit_repr.consume_spent hcost hconsume
    have htaken : consumed [.consume (gas_consumed c.operation_gas operation_gas)] =
        gas_consumed c.operation_gas operation_gas := by
      simp [consumed, Event.gas]
    rw [hrun]
    refine ⟨?_, ?_, ?_, ?_, by simp, by simp⟩
    · intro e he
      rw [mem_singleton] at he
      rw [he]
      exact hnonneg
    · dsimp only
      rw [htaken]
      omega
    · intro _
      simp [burned, Event.burned]
    · intro c1 c' hc1 hc'
      cases hc1
      cases hc'
      rw [htaken]
      exact ⟨hblock, fun _ => hop, fun _ => hinternal, fun _ => ⟨rfl, rfl, rfl⟩, rfl⟩
  · have hrun : consume_gas c cost = ⟨[], .error e⟩ := by
      unfold consume_gas
      rw [hconsume]
      rfl
    rw [hrun]
    refine ⟨?_, le_max_left 0 _, fun _ => rfl, by simp, by simp, by simp⟩
    intro e he
    cases he

/-- What the charge for a manager operation takes. -/
theorem raw_context.consume_gas_manager_operation {remaining : ℤ} (hinternal : 0 ≤ c.internal_gas)
    (hremaining : c.operation_gas = .Limited remaining)
    (h : (consume_gas c gas_limit_repr.manager_operation).outcome = .ok c') :
    10000 ≤ consumed (consume_gas c gas_limit_repr.manager_operation).events ∧
      consumed (consume_gas c gas_limit_repr.manager_operation).events ≤ remaining := by
  have hmetered : Metered .content (fun _ => False) c _ some :=
    consume_gas_metered c gas_limit_repr.manager_operation_nonneg
  have hgas := (hmetered.returned c' c' h rfl).operation_gas rfl
  obtain ⟨_, operation_gas, internal_gas, hconsume, rfl⟩ := consume_gas_success h
  rw [hremaining] at hconsume hgas
  obtain ⟨_, _, hop, _, _, hlimited⟩ :=
    gas_limit_repr.consume_spent gas_limit_repr.manager_operation_nonneg hconsume
  obtain ⟨htaken, hle⟩ := hlimited remaining rfl
  have hcost : gas_limit_repr.cost_to_internal_gas gas_limit_repr.manager_operation = 1280000 := by
    decide
  have hrescale : 10000 ≤ gas_limit_repr.rescale (1280000 + c.internal_gas) := by
    simp only [gas_limit_repr.rescale, gas_limit_repr.rescaling_bits]
    omega
  rw [hcost] at htaken
  rw [Context.with_gas_operation_gas, hop, Gas.spend, Gas.spend, Gas.Limited.injEq] at hgas
  omega

end plexus
