import Mathlib.LinearAlgebra.Lagrange

/-! Polynomials given by their coefficients, and their value at zero as a
weighted sum of other values. -/

namespace Interpolation

open Polynomial Finset Nat

variable {F : Type} [Field F]

/-- The polynomial with the given coefficients, ordered by power. -/
noncomputable def of_list : List F → F[X]
  | [] => 0
  | c :: l => of_list l * X + C c

variable [DecidableEq F]

/-- The weight of the value at `i` among the values at `l`. -/
def weight (l : List F) (i : F) : F :=
  (l.map fun j => if j = i then 1 else j * (j - i)⁻¹).prod

end Interpolation
