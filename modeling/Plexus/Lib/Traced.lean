import Plexus.Lib.Result

/-- A computation together with the events it emitted before it returned,
failed or raised. The events do not influence the outcome: they record what
happened on the way, also when the outcome is an error and the state is lost. -/
structure Traced (Ev E X α : Type) where
  events : List Ev
  outcome : Result E X α

namespace Traced

variable {Ev E X α β : Type}

protected def bind (m : Traced Ev E X α) (f : α → Traced Ev E X β) : Traced Ev E X β :=
  match m.outcome with
  | .ok a => ⟨m.events ++ (f a).events, (f a).outcome⟩
  | .error e => ⟨m.events, .error e⟩
  | .raise x => ⟨m.events, .raise x⟩
  | .div => ⟨m.events, .div⟩

instance : Monad (Traced Ev E X) where
  pure a := ⟨[], .ok a⟩
  bind := Traced.bind

/-- A computation that emits nothing. -/
def lift (r : Result E X α) : Traced Ev E X α := ⟨[], r⟩

instance : MonadLift (Result E X) (Traced Ev E X) where
  monadLift := lift

def emit (e : Ev) : Traced Ev E X Unit := ⟨[e], .ok ()⟩

/-- Errors become values; what was emitted stays emitted. -/
def attempt (m : Traced Ev E X α) : Traced Ev E X (Except E α) := ⟨m.events, m.outcome.attempt⟩

@[simp] theorem outcome_pure (a : α) : (pure a : Traced Ev E X α).outcome = .ok a := rfl

@[simp] theorem events_pure (a : α) : (pure a : Traced Ev E X α).events = [] := rfl

@[simp] theorem events_emit (e : Ev) : (emit e : Traced Ev E X Unit).events = [e] := rfl

@[simp] theorem outcome_lift (r : Result E X α) : (lift r : Traced Ev E X α).outcome = r := rfl

@[simp] theorem outcome_monadLift (r : Result E X α) :
    (liftM r : Traced Ev E X α).outcome = r := rfl

@[simp] theorem outcome_emit (e : Ev) : (emit e : Traced Ev E X Unit).outcome = .ok () := rfl

@[simp] theorem outcome_attempt (m : Traced Ev E X α) : m.attempt.outcome = m.outcome.attempt := rfl

/-- Forgetting the events is a monad morphism. -/
@[simp] theorem outcome_bind (m : Traced Ev E X α) (f : α → Traced Ev E X β) :
    (m >>= f).outcome = m.outcome >>= fun a => (f a).outcome := by
  change (Traced.bind m f).outcome = _
  unfold Traced.bind
  cases m.outcome <;> rfl

variable {m : Traced Ev E X α} {f : α → Traced Ev E X β} {a : α}

/-- A sequence returns exactly when both of its parts do. -/
theorem outcome_bind_eq_ok_iff {b : β} :
    (m >>= f).outcome = .ok b ↔ ∃ a, m.outcome = .ok a ∧ (f a).outcome = .ok b := by
  rw [outcome_bind, Result.bind_eq_ok_iff]

theorem outcome_inv {b : β} (h : (m >>= f).outcome = .ok b) :
    ∃ a, m.outcome = .ok a ∧ (f a).outcome = .ok b :=
  outcome_bind_eq_ok_iff.mp h

/-- A sequence returns a value that passes a test exactly when its first part
returns and the continuation then does so. -/
theorem returns_bind_iff {p : β → Bool} :
    (m >>= f).outcome.returns p = true ↔
      ∃ a, m.outcome = .ok a ∧ (f a).outcome.returns p = true := by
  rw [outcome_bind]
  cases m.outcome <;> simp [Result.returns]

theorem returns_pure {p : α → Bool} :
    (pure a : Traced Ev E X α).outcome.returns p = p a := rfl

/-- What every round of a fold preserves holds of what the fold returns. -/
theorem foldlM_preserves {P : β → Prop} {f : β → α → Traced Ev E X β}
    (hf : ∀ b a b', (f b a).outcome = .ok b' → P b → P b') {l : List α} {b b' : β}
    (h : (l.foldlM f b).outcome = .ok b') (hb : P b) : P b' := by
  induction l generalizing b with
  | nil =>
    cases h
    exact hb
  | cons a l ih =>
    rw [List.foldlM_cons] at h
    obtain ⟨b1, hround, h⟩ := outcome_inv h
    exact ih h (hf b a b1 hround hb)

/-- The events of a sequence, when its first part returns. -/
theorem events_bind_ok (h : m.outcome = .ok a) (f : α → Traced Ev E X β) :
    (m >>= f).events = m.events ++ (f a).events := by
  change (Traced.bind m f).events = _
  simp only [Traced.bind, h]

/-- A check that passes leaves no trace. -/
theorem monadLift_bind_ok {r : Result E X α} (h : r = .ok a) (f : α → Traced Ev E X β) :
    (liftM r : Traced Ev E X α) >>= f = f a := by
  rw [h]
  rfl

variable (P : Ev → Prop)

/-- Every event the computation emits satisfies `P`, whatever its outcome. -/
def Emits (m : Traced Ev E X α) : Prop := ∀ e ∈ m.events, P e

theorem emits_pure (a : α) : (pure a : Traced Ev E X α).Emits P := by
  intro e he
  cases he

theorem emits_monadLift (r : Result E X α) :
    (liftM r : Traced Ev E X α).Emits P := by
  intro e he
  cases he

theorem emits_emit (e : Ev) (h : P e) : (emit e : Traced Ev E X Unit).Emits P := by
  intro e' he
  cases List.mem_singleton.mp he
  exact h

end Traced
