import Mathlib.Logic.Basic
import Mathlib.Tactic.Common

/-- The outcome of a computation that returns a value, fails with an error of
type `E`, raises an exception of type `X` that no error handler sees, or never
returns. -/
inductive Result (E X α : Type) where
  | ok (value : α)
  | error (err : E)
  | raise (exn : X)
  | div
deriving Repr, DecidableEq

namespace Result

open List

variable {E X α β γ : Type}

protected def bind (x : Result E X α) (f : α → Result E X β) : Result E X β :=
  match x with
  | ok a => f a
  | error e => error e
  | raise x => raise x
  | div => div

instance : Monad (Result E X) where
  pure := ok
  bind := Result.bind

@[simp] theorem pure_eq (a : α) : (pure a : Result E X α) = ok a := rfl

@[simp] theorem bind_ok (a : α) (f : α → Result E X β) : (ok a >>= f) = f a := rfl

@[simp] theorem bind_error (e : E) (f : α → Result E X β) : (error e >>= f) = error e := rfl

@[simp] theorem bind_raise (x : X) (f : α → Result E X β) : (raise x >>= f) = raise x := rfl

@[simp] theorem bind_div (f : α → Result E X β) : (div >>= f) = div := rfl

instance : LawfulMonad (Result E X) :=
  LawfulMonad.mk' _ (by intro α x; cases x <;> rfl) (by intro α β a f; rfl)
    (by intro α β γ x f g; cases x <;> rfl)

variable {x : Result E X α} {f : α → Result E X β} {b : β}

/-- A sequence succeeds exactly when both of its parts do. -/
theorem bind_eq_ok_iff : (x >>= f) = ok b ↔ ∃ a, x = ok a ∧ f a = ok b := by
  cases x <;> simp

/-- A sequence that succeeds, taken apart. -/
theorem bind_inv (h : (x >>= f) = ok b) : ∃ a, x = ok a ∧ f a = ok b := bind_eq_ok_iff.mp h

variable {l : List α} {a : α} {e : X}

/-- What every round of a fold preserves holds of what the fold returns. -/
theorem foldlM_preserves {P : β → Prop} {f : β → α → Result E X β}
    (hf : ∀ b a b', f b a = ok b' → P b → P b') {b' : β} (h : l.foldlM f b = ok b') (hb : P b) :
    P b' := by
  induction l generalizing b with
  | nil =>
    cases h
    exact hb
  | cons a l ih =>
    rw [foldlM_cons] at h
    obtain ⟨b1, hround, h⟩ := bind_inv h
    exact ih h (hf b a b1 hround hb)

/-- A fold over a concatenation is a fold of folds. -/
theorem foldlM_flatMap {f : β → γ → Result E X β} (g : α → List γ) (l : List α) (b : β) :
    (l.flatMap g).foldlM f b = l.foldlM (fun b a => (g a).foldlM f b) b := by
  induction l generalizing b with
  | nil => rfl
  | cons a l ih =>
    rw [flatMap_cons, foldlM_append, foldlM_cons]
    congr 1
    funext b'
    exact ih b'

/-- Folds whose rounds agree on the elements of the list agree. -/
theorem foldlM_congr {f g : β → α → Result E X β} (h : ∀ a ∈ l, ∀ b, f b a = g b a) (b : β) :
    l.foldlM f b = l.foldlM g b := by
  induction l generalizing b with
  | nil => rfl
  | cons a l ih =>
    rw [foldlM_cons, foldlM_cons, h a mem_cons_self]
    congr 1
    funext b'
    exact ih (fun a' ha' => h a' (mem_cons_of_mem a ha')) b'

/-- A fold that puts every element in front returns the list reversed. -/
theorem foldlM_cons_eq_reverse (l acc : List α) :
    l.foldlM (fun acc a => (ok (a :: acc) : Result E X (List α))) acc = ok (l.reverse ++ acc) := by
  induction l generalizing acc with
  | nil => rfl
  | cons a l ih =>
    rw [foldlM_cons, bind_ok, ih, reverse_cons, append_assoc]
    rfl

/-- A list of computations returns what each of them does. -/
theorem exists_mem_of_mapM {l' : List β} (h : l.mapM f = ok l') :
    ∀ a ∈ l, ∃ b ∈ l', f a = ok b := by
  induction l generalizing l' with
  | nil =>
    intro a ha
    cases ha
  | cons a l ih =>
    rw [mapM_cons] at h
    obtain ⟨b, hb, h⟩ := bind_inv h
    obtain ⟨bs, hbs, h⟩ := bind_inv h
    cases h
    intro a' ha'
    cases ha' with
    | head => exact ⟨b, mem_cons_self, hb⟩
    | tail _ ha' =>
      obtain ⟨b', hb', hf⟩ := ih hbs a' ha'
      exact ⟨b', mem_cons_of_mem b hb', hf⟩

theorem exists_mapM (h : ∀ a ∈ l, ∃ b, f a = ok b) : ∃ l', l.mapM f = ok l' := by
  induction l with
  | nil => exact ⟨[], rfl⟩
  | cons a l ih =>
    obtain ⟨b, hb⟩ := h a mem_cons_self
    obtain ⟨l', hl'⟩ := ih fun a' ha' => h a' (mem_cons_of_mem a ha')
    refine ⟨b :: l', ?_⟩
    rw [mapM_cons, hb, bind_ok, hl']
    rfl

/-- A list of checks passes when every check does. -/
theorem forM_eq_ok {f : α → Result E X PUnit} {u : PUnit} (h : l.forM f = ok u) :
    ∀ a ∈ l, f a = ok u := by
  induction l with
  | nil =>
    intro a ha
    cases ha
  | cons a l ih =>
    obtain ⟨u', hu', h⟩ := bind_inv h
    intro a' ha'
    cases ha' with
    | head => exact hu'
    | tail _ ha' => exact ih h a' ha'

/-- Whether the computation returned a value that passes a test. -/
def returns (p : α → Bool) : Result E X α → Bool
  | ok a => p a
  | _ => false

theorem returns_iff {p : α → Bool} : x.returns p = true ↔ ∃ a, x = ok a ∧ p a = true := by
  cases x <;> simp [returns]

/-- Whether the computation fails with an error that passes a test. -/
def fails (p : E → Bool) : Result E X α → Bool
  | error e => p e
  | _ => false

theorem fails_iff {p : E → Bool} : x.fails p = true ↔ ∃ e, x = error e ∧ p e = true := by
  cases x <;> simp [fails]

/-- The outcome as seen by an error handler: errors become values, exceptions
and divergence pass through. -/
def attempt : Result E X α → Result E X (Except E α)
  | ok a => ok (.ok a)
  | error e => ok (.error e)
  | raise x => raise x
  | div => div

@[simp] theorem attempt_ok (a : α) : (ok a : Result E X α).attempt = ok (.ok a) := rfl

@[simp] theorem attempt_error (e : E) : (error e : Result E X α).attempt = ok (.error e) := rfl

theorem attempt_eq_ok_error_iff {e : E} : x.attempt = ok (.error e) ↔ x = error e := by
  cases x <;> simp [attempt]

theorem attempt_eq_ok_ok_iff : x.attempt = ok (.ok a) ↔ x = ok a := by
  cases x <;> simp [attempt]

theorem attempt_eq_raise_iff : x.attempt = raise e ↔ x = raise e := by
  cases x <;> simp [attempt]

theorem attempt_eq_div_iff : x.attempt = div ↔ x = div := by
  cases x <;> simp [attempt]

/-- The computation returns a value or an error: it neither raises nor runs
forever. -/
def Total (x : Result E X α) : Prop := (∃ a, x = ok a) ∨ ∃ e, x = error e

theorem total_ok (a : α) : (ok a : Result E X α).Total := .inl ⟨a, rfl⟩

theorem total_error (e : E) : (error e : Result E X α).Total := .inr ⟨e, rfl⟩

/-- A sequence is total if its parts are. -/
theorem total_bind (hx : x.Total) (hf : ∀ a, x = ok a → (f a).Total) : (x >>= f).Total := by
  rcases hx with ⟨a, rfl⟩ | ⟨e, rfl⟩
  · exact hf a rfl
  · exact total_error e

/-- The computation returns a value in `Q` or an error. -/
structure Meets (Q : α → Prop) (x : Result E X α) : Prop where
  total : x.Total
  of_ok : ∀ {a}, x = ok a → Q a

variable {P Q : α → Prop} {Q' : β → Prop}

theorem meets_ok (h : Q a) : (ok a : Result E X α).Meets Q := by
  refine ⟨total_ok a, ?_⟩
  rintro _ ⟨⟩
  exact h

theorem meets_error (e : E) : (error e : Result E X α).Meets Q := by
  refine ⟨total_error e, ?_⟩
  rintro _ ⟨⟩

theorem Total.meets (h : x.Total) : x.Meets fun a => x = ok a := ⟨h, fun ha => ha⟩

/-- The postcondition is weakened. -/
theorem Meets.imp (h : x.Meets P) (hi : ∀ a, P a → Q a) : x.Meets Q :=
  ⟨h.total, fun ha => hi _ (h.of_ok ha)⟩

/-- The rule for sequences. -/
theorem Meets.bind (hx : x.Meets Q) (hf : ∀ a, Q a → (f a).Meets Q') : (x >>= f).Meets Q' := by
  rcases hx.total with ⟨a, rfl⟩ | ⟨e, rfl⟩
  · exact hf a (hx.of_ok rfl)
  · exact meets_error e

theorem Meets.seq (hx : x.Meets (· = a)) (hf : (f a).Meets Q') : (x >>= f).Meets Q' := by
  refine hx.bind ?_
  rintro _ rfl
  exact hf

/-- The computation returns, fails, or raises an exception in `R`. -/
def Within (R : X → Prop) (x : Result E X α) : Prop := x ≠ div ∧ ∀ e, x = raise e → R e

variable {R : X → Prop}

theorem Total.within (h : x.Total) : x.Within R := by
  rcases h with ⟨a, rfl⟩ | ⟨e, rfl⟩ <;> simp [Within]

theorem within_raise (h : R e) : (raise e : Result E X α).Within R := by
  refine ⟨by simp, ?_⟩
  intro e' he'
  cases he'
  exact h

/-- What a sequence may raise. -/
theorem within_bind (hx : x.Within R) (hf : ∀ a, x = ok a → (f a).Within R) :
    (x >>= f).Within R := by
  cases x with
  | ok a => exact hf a rfl
  | error e => exact (total_error e).within
  | raise e => exact within_raise (hx.2 e rfl)
  | div => exact absurd rfl hx.1

/-- If the computation raises an exception, it is one in `R`. -/
def Raises (R : X → Prop) (x : Result E X α) : Prop := ∀ e, x = raise e → R e

theorem Within.raises (h : x.Within R) : x.Raises R := h.2

theorem Total.raises (h : x.Total) : x.Raises R := h.within.raises

theorem raises_raise (h : R e) : (raise e : Result E X α).Raises R :=
  (within_raise h).raises

theorem raises_div : (div : Result E X α).Raises R := by
  intro e he
  cases he

/-- The same where it may not end. -/
theorem raises_bind (hx : x.Raises R) (hf : ∀ a, x = ok a → (f a).Raises R) :
    (x >>= f).Raises R := by
  cases x with
  | ok a => exact hf a rfl
  | error e => exact (total_error e).raises
  | raise e => exact raises_raise (hx e rfl)
  | div => exact raises_div

theorem raises_foldlM {f : β → α → Result E X β} (hf : ∀ b a, (f b a).Raises R) (l : List α)
    (b : β) :
    (l.foldlM f b).Raises R := by
  induction l generalizing b with
  | nil => exact (total_ok b).raises
  | cons a l ih =>
    rw [foldlM_cons]
    exact raises_bind (hf b a) fun b1 _ => ih b1

/-- The computation returns a value in `Q`, fails, raises an exception in `R`,
or never returns. -/
structure Ends (R : X → Prop) (Q : α → Prop) (x : Result E X α) : Prop where
  raises : x.Raises R
  of_ok : ∀ {a}, x = ok a → Q a

theorem Meets.ends (h : x.Meets Q) : x.Ends R Q := ⟨h.total.raises, h.of_ok⟩

theorem ends_ok (h : Q a) : (ok a : Result E X α).Ends R Q := (meets_ok h).ends

theorem Raises.ends (h : x.Raises R) : x.Ends R fun a => x = ok a := ⟨h, fun ha => ha⟩

theorem ends_raise (h : R e) : (raise e : Result E X α).Ends R Q := by
  refine ⟨raises_raise h, ?_⟩
  rintro _ ⟨⟩

/-- More may be raised. -/
theorem Ends.mono {R' : X → Prop} (h : x.Ends R Q) (hR : ∀ e, R e → R' e) : x.Ends R' Q :=
  ⟨fun e he => hR e (h.raises e he), h.of_ok⟩

/-- The rule for sequences that may raise. -/
theorem Ends.bind (hx : x.Ends R Q) (hf : ∀ a, Q a → (f a).Ends R Q') : (x >>= f).Ends R Q' := by
  refine ⟨raises_bind hx.raises fun a ha => (hf a (hx.of_ok ha)).raises, fun hb => ?_⟩
  obtain ⟨a, ha, hb⟩ := bind_inv hb
  exact (hf a (hx.of_ok ha)).of_ok hb

end Result
