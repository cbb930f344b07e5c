import Mathlib.Data.Nat.Log
import Mathlib.Tactic.Common
import Mathlib.Tactic.Ring

/-! Complete binary trees over a row of leaves. -/

namespace CompleteTree

open Nat

variable {α : Type} {node : α → α → α} {k k' : Nat} {f g : Nat → α}

/-- The root over the first `2 ^ k` leaves of a row. -/
def root (node : α → α → α) : Nat → (Nat → α) → α
  | 0, f => f 0
  | k + 1, f => node (root node k f) (root node k fun i => f (2 ^ k + i))

/-- The row of the nodes over the leaves. -/
def above (node : α → α → α) (f : Nat → α) (i : Nat) : α := node (f (2 * i)) (f (2 * i + 1))

/-- A tree can be built from its leaves up. -/
theorem root_above (k : Nat) (f : Nat → α) : root node (k + 1) f = root node k (above node f) := by
  induction k generalizing f with
  | zero => rfl
  | succ k ih =>
    have hshift : above node (fun i => f (2 ^ (k + 1) + i)) = fun i => above node f (2 ^ k + i) := by
      funext i
      have hleft : 2 ^ (k + 1) + 2 * i = 2 * (2 ^ k + i) := by ring
      have hright : 2 ^ (k + 1) + (2 * i + 1) = 2 * (2 ^ k + i) + 1 := by ring
      simp only [above, hleft, hright]
    rw [root, ih, ih, hshift, root]

/-- Where nodes are told from leaves and from each other, equal roots stand over
equal leaves. -/
theorem root_binds (hnode : ∀ a b c d, node a b = node c d → a = c ∧ b = d)
    (hf : ∀ i a b, f i ≠ node a b) (hg : ∀ i a b, g i ≠ node a b)
    (h : root node k f = root node k' g) : k = k' ∧ ∀ i < 2 ^ k, f i = g i := by
  induction k generalizing k' f g with
  | zero =>
    cases k' with
    | zero =>
      refine ⟨rfl, fun i hi => ?_⟩
      obtain rfl : i = 0 := by omega
      exact h
    | succ k' => exact absurd h (hf 0 _ _)
  | succ k ih =>
    cases k' with
    | zero => exact absurd h.symm (hg 0 _ _)
    | succ k' =>
      obtain ⟨hleft, hright⟩ := hnode _ _ _ _ h
      obtain ⟨rfl, hlow⟩ := ih hf hg hleft
      obtain ⟨_, hhigh⟩ := ih (fun i => hf _) (fun i => hg _) hright
      refine ⟨rfl, fun i hi => ?_⟩
      by_cases hlt : i < 2 ^ k
      · exact hlow i hlt
      · have heq := hhigh (i - 2 ^ k) (by rw [pow_succ] at hi; omega)
        rwa [Nat.add_sub_cancel' (not_lt.mp hlt)] at heq

/-- The depth of a tree over `n` leaves, by halves. -/
theorem clog_half {n : Nat} (h : 2 ≤ n) : clog 2 n = clog 2 ((n + 1) / 2) + 1 :=
  clog_of_two_le (by decide) h

theorem clog_odd {m : Nat} (h : 2 ≤ m) (hodd : m % 2 = 1) : clog 2 (m + 1) = clog 2 m := by
  rw [clog_half h, clog_half (by omega), show (m + 1 + 1) / 2 = (m + 1) / 2 by omega]

end CompleteTree
