import Plexus.Context

/-! What computations take from the gas of the context. Below the unit of gas
the context keeps an internal gas: what is left is counted in internal gas, and
every successful `Gas.consume` lowers it by exactly its cost. -/

namespace plexus

open Result Traced

namespace gas

/-- `Gas.consume`, without the record of what it took. -/
def consume (ctxt : Context) (cost : Cost) : Tzresult Context :=
  (raw_context.consume_gas ctxt cost).outcome

end gas

/-- The computation stopped because a quota of gas was exceeded. -/
def Exhausted {α : Type} (r : Tzresult α) : Prop :=
  r = .error [.Operation_quota_exceeded] ∨ r = .error [.Block_quota_exceeded]

theorem Exhausted.bind {α β : Type} {r : Tzresult α} (h : Exhausted r) (f : α → Tzresult β) :
    Exhausted (r >>= f) := by
  rcases h with rfl | rfl
  · exact .inl rfl
  · exact .inr rfl

/-- The context has `n` of internal gas left for the operation and for the
block, or the operation has no limit. -/
def Affords (n : ℤ) (c : Context) : Prop :=
  ∀ remaining, c.operation_gas = .Limited remaining →
    n ≤ gas_limit_repr.scale remaining - c.internal_gas ∧
      n ≤ gas_limit_repr.scale c.block_gas - c.internal_gas

/-- Between two contexts `n` of internal gas was spent and nothing else
changed. -/
structure Spends (n : ℤ) (c c' : Context) : Prop where
  frame : ∃ block_gas operation_gas internal_gas,
    c' = c.with_gas block_gas operation_gas internal_gas
  unaccounted : c.operation_gas = .Unaccounted → c' = c
  limited : ∀ remaining, c.operation_gas = .Limited remaining →
    ∃ remaining', c'.operation_gas = .Limited remaining' ∧
      gas_limit_repr.scale remaining' - c'.internal_gas =
        gas_limit_repr.scale remaining - c.internal_gas - n ∧
      gas_limit_repr.scale c'.block_gas - c'.internal_gas =
        gas_limit_repr.scale c.block_gas - c.internal_gas - n

namespace Spends

variable {n m : ℤ} {c c1 c2 : Context}

theorem refl (c : Context) : Spends 0 c c where
  frame := ⟨c.block_gas, c.operation_gas, c.internal_gas, rfl⟩
  unaccounted _ := rfl
  limited remaining h := ⟨remaining, h, by omega, by omega⟩

theorem trans (h1 : Spends n c c1) (h2 : Spends m c1 c2) : Spends (n + m) c c2 where
  frame := by
    obtain ⟨_, _, _, rfl⟩ := h1.frame
    obtain ⟨block_gas, operation_gas, internal_gas, rfl⟩ := h2.frame
    exact ⟨block_gas, operation_gas, internal_gas, rfl⟩
  unaccounted h := by
    have hc1 := h1.unaccounted h
    rw [h2.unaccounted (by rw [hc1, h]), hc1]
  limited remaining h := by
    obtain ⟨remaining1, hgas1, _, _⟩ := h1.limited remaining h
    obtain ⟨remaining2, hgas2, _, _⟩ := h2.limited remaining1 hgas1
    exact ⟨remaining2, hgas2, by omega, by omega⟩

/-- A context that could afford more can afford the rest. -/
theorem affords (h : Spends n c c1) (hc : Affords (n + m) c) : Affords m c1 := by
  intro remaining1 hgas1
  cases hgas : c.operation_gas with
  | Unaccounted =>
    rw [h.unaccounted hgas, hgas] at hgas1
    cases hgas1
  | Limited remaining =>
    obtain ⟨_, hgas', hop, _⟩ := h.limited remaining hgas
    rw [hgas1] at hgas'
    cases hgas'
    have hc := hc remaining hgas
    omega

end Spends

theorem Affords.mono {n m : ℤ} {c : Context} (h : Affords m c) (hle : n ≤ m) : Affords n c := by
  intro remaining hgas
  have := h remaining hgas
  omega

namespace gas

open gas_limit_repr

theorem consume_unaccounted {c : Context} (h : c.operation_gas = .Unaccounted) (cost : Cost) :
    consume c cost = .ok c := by
  simp only [consume, raw_context.consume_gas, gas_limit_repr.consume, h, outcome_bind,
    outcome_monadLift, outcome_emit, outcome_pure, bind_ok]
  rw [← h]

theorem scale_rescale (z : ℤ) : scale (rescale z) + z % 2 ^ rescaling_bits = z := by
  simp only [scale, rescale, rescaling_bits]
  omega

/-- Against a limit, either the cost is taken exactly from what is left to the
operation and to the block, or one of them has not enough. -/
theorem consume_limited_cases (block_gas remaining internal_gas : ℤ) (cost : Cost) :
    (∃ block_gas' remaining' internal_gas',
      gas_limit_repr.consume block_gas (.Limited remaining) internal_gas cost =
        .ok (block_gas', .Limited remaining', internal_gas') ∧
      scale remaining' - internal_gas' =
        scale remaining - internal_gas - cost_to_internal_gas cost ∧
      scale block_gas' - internal_gas' =
        scale block_gas - internal_gas - cost_to_internal_gas cost) ∨
    (¬ (cost_to_internal_gas cost ≤ scale remaining - internal_gas ∧
        cost_to_internal_gas cost ≤ scale block_gas - internal_gas) ∧
      Exhausted (gas_limit_repr.consume block_gas (.Limited remaining) internal_gas cost)) := by
  have hsplit := scale_rescale (cost_to_internal_gas cost + internal_gas)
  have hrest : 0 ≤ (cost_to_internal_gas cost + internal_gas) % 2 ^ rescaling_bits :=
    Int.emod_nonneg _ (by decide)
  unfold gas_limit_repr.consume internal_gas_to_gas
  simp only [scale, rescaling_bits] at hsplit hrest ⊢
  split
  · split
    · exact .inr ⟨by omega, .inl rfl⟩
    · split
      · exact .inr ⟨by omega, .inr rfl⟩
      · exact .inl ⟨_, _, _, rfl, by omega, by omega⟩
  · exact .inl ⟨_, _, _, rfl, by omega, by omega⟩

/-- Either the cost is paid, or it cannot be afforded. -/
theorem consume_cases (c : Context) (cost : Cost) :
    (∃ c', consume c cost = .ok c' ∧ Spends (cost_to_internal_gas cost) c c') ∨
      (¬ Affords (cost_to_internal_gas cost) c ∧ Exhausted (consume c cost)) := by
  cases hgas : c.operation_gas with
  | Unaccounted =>
    refine .inl ⟨c, consume_unaccounted hgas cost, ?_⟩
    refine ⟨⟨c.block_gas, c.operation_gas, c.internal_gas, rfl⟩, fun _ => rfl, ?_⟩
    intro remaining h
    rw [hgas] at h
    cases h
  | Limited remaining =>
    rcases consume_limited_cases c.block_gas remaining c.internal_gas cost with
      ⟨block_gas', remaining', internal_gas', hok, hop, hblock⟩ | ⟨hshort, hexhausted⟩
    · refine .inl ⟨c.with_gas block_gas' (.Limited remaining') internal_gas', ?_, ⟨_, _, _, rfl⟩,
        ?_, ?_⟩
      · simp only [consume, raw_context.consume_gas, hgas, outcome_bind,
          outcome_monadLift, hok, bind_ok, outcome_emit, outcome_pure]
        rfl
      · intro h
        rw [hgas] at h
        cases h
      · intro remaining1 h
        rw [hgas] at h
        cases h
        exact ⟨remaining', rfl, hop, hblock⟩
    · refine .inr ⟨fun h => hshort (h remaining hgas), ?_⟩
      simp only [consume, raw_context.consume_gas, hgas, outcome_bind, outcome_monadLift]
      exact hexhausted.bind _

end gas

/-- A computation that returns `a` and takes a fixed amount of internal gas in
every context that can afford it, and stops for want of gas in every other. -/
def Priced {α : Type} (f : Context → Tzresult (α × Context)) (a : α) : Prop :=
  ∃ n, 0 ≤ n ∧ ∀ c, (∃ c', f c = .ok (a, c') ∧ Spends n c c') ∨ (¬ Affords n c ∧ Exhausted (f c))

namespace Priced

variable {α β : Type} {a : α} {b : β} {f : Context → Tzresult (α × Context)}

theorem congr {g : Context → Tzresult (α × Context)} (h : ∀ c, f c = g c) (hg : Priced g a) :
    Priced f a := by
  rw [funext h]
  exact hg

theorem pure (a : α) : Priced (fun c => Pure.pure (a, c)) a :=
  ⟨0, le_refl 0, fun c => .inl ⟨c, rfl, Spends.refl c⟩⟩

/-- What follows a computation is priced in the context that it leaves. -/
theorem bind {g : α × Context → Tzresult (β × Context)} (hf : Priced f a)
    (hg : Priced (fun c => g (a, c)) b) : Priced (fun c => f c >>= g) b := by
  obtain ⟨n, hn, hf⟩ := hf
  obtain ⟨m, hm, hg⟩ := hg
  refine ⟨n + m, add_nonneg hn hm, fun c => ?_⟩
  rcases hf c with ⟨c1, hok, hspends⟩ | ⟨hshort, hexhausted⟩
  · simp only [hok, bind_ok]
    rcases hg c1 with ⟨c2, hok2, hspends2⟩ | ⟨hshort, hexhausted⟩
    · exact .inl ⟨c2, hok2, hspends.trans hspends2⟩
    · exact .inr ⟨fun h => hshort (hspends.affords h), hexhausted⟩
  · exact .inr ⟨fun h => hshort (h.mono (by omega)), hexhausted.bind g⟩

theorem consume {g : Context → Tzresult (β × Context)} {cost : Cost}
    (hcost : 0 ≤ gas_limit_repr.cost_to_internal_gas cost) (hg : Priced g b) :
    Priced (fun c => gas.consume c cost >>= g) b := by
  have hpaid : Priced (fun c => gas.consume c cost >>= fun c => Pure.pure ((), c)) () := by
    refine ⟨_, hcost, fun c => ?_⟩
    rcases gas.consume_cases c cost with ⟨c1, hok, hspends⟩ | ⟨hshort, hexhausted⟩
    · exact .inl ⟨c1, by simp [hok], hspends⟩
    · exact .inr ⟨hshort, hexhausted.bind _⟩
  refine (hpaid.bind (g := fun r => g r.2) hg).congr fun c => ?_
  cases gas.consume c cost <;> rfl

/-- Some amount of gas is enough for the value to be returned. -/
theorem returns (h : Priced f a) :
    ∃ n, 0 ≤ n ∧ ∀ c, Affords n c → ∃ c', f c = .ok (a, c') ∧ Spends n c c' := by
  obtain ⟨n, hn, h⟩ := h
  refine ⟨n, hn, fun c hc => ?_⟩
  rcases h c with hok | ⟨hshort, _⟩
  · exact hok
  · exact absurd hc hshort

/-- Whatever gas there is, the value is returned or gas runs out. -/
theorem returns_or_exhausted (h : Priced f a) (c : Context) :
    (∃ c', f c = .ok (a, c')) ∨ Exhausted (f c) := by
  obtain ⟨n, _, h⟩ := h
  rcases h c with ⟨c', hok, _⟩ | ⟨_, hexhausted⟩
  · exact .inl ⟨c', hok⟩
  · exact .inr hexhausted

end Priced

/-- A check that passes and takes a fixed amount of internal gas in every
context that can afford it. -/
def Payable (f : Context → Tzresult Context) : Prop :=
  ∃ n, 0 ≤ n ∧ ∀ c, Affords n c → ∃ c', f c = .ok c' ∧ Spends n c c'

namespace Payable

variable {f g : Context → Tzresult Context}

theorem congr (h : ∀ c, f c = g c) (hg : Payable g) : Payable f := by
  rw [funext h]
  exact hg

theorem pure : Payable fun c => Pure.pure c := ⟨0, le_refl 0, fun c _ => ⟨c, rfl, Spends.refl c⟩⟩

theorem consume {cost : Cost} (hcost : 0 ≤ gas_limit_repr.cost_to_internal_gas cost) :
    Payable fun c => gas.consume c cost := by
  refine ⟨_, hcost, fun c hc => ?_⟩
  rcases gas.consume_cases c cost with hok | ⟨hshort, _⟩
  · exact hok
  · exact absurd hc hshort

theorem bind (hf : Payable f) (hg : Payable g) : Payable fun c => f c >>= g := by
  obtain ⟨n, hn, hf⟩ := hf
  obtain ⟨m, hm, hg⟩ := hg
  refine ⟨n + m, add_nonneg hn hm, fun c hc => ?_⟩
  obtain ⟨c1, hok, hspends⟩ := hf c (hc.mono (by omega))
  obtain ⟨c2, hok2, hspends2⟩ := hg c1 (hspends.affords hc)
  simp only [hok, bind_ok]
  exact ⟨c2, hok2, hspends.trans hspends2⟩

end Payable

end plexus
