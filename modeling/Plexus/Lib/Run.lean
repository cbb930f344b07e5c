import Mathlib.Logic.Relation

/-! Runs of a transition system are the reflexive and transitive closure of its
step relation. -/

namespace Relation.ReflTransGen

variable {σ : Type} {step step' : σ → σ → Prop} {P : σ → Prop} {s t : σ}

/-- What every step preserves holds after every run. -/
theorem preserves (h : ReflTransGen step s t) (hstep : ∀ a b, step a b → P a → P b) (hs : P s) :
    P t := by
  induction h with
  | refl => exact hs
  | tail _ hlast ih => exact hstep _ _ hlast ih

end Relation.ReflTransGen
