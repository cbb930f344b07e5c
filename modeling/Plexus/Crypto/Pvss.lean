import Mathlib.Algebra.Field.ZMod
import Mathlib.GroupTheory.OrderOfElement
import Plexus.Lib.Result

/-! Publicly verifiable secret sharing, as in `pvss.ml`. -/

namespace plexus.Pvss

/-- `failwith` and `invalid_arg` raise. -/
abbrev Checked (α : Type) := Result Empty String α

/-- A cyclic group of prime order, and the encodings of its elements and
exponents. Every string of bits stands for an exponent. -/
class CYCLIC_GROUP (t : Type) extends CommGroup t where
  m : ℕ
  [prime : Fact m.Prime]
  order : Nat.card t = m
  g1 : t
  g2 : t
  g1_generates : ∀ x, x ∈ Subgroup.zpowers g1
  g2_generates : ∀ x, x ∈ Subgroup.zpowers g2
  to_bits : t → String
  exponent_to_bits : ZMod m → String
  of_bits_exn : String → ZMod m

/-- The hash, as a string of bits. -/
class H where
  hash_string : List String → String

open CYCLIC_GROUP H

attribute [instance] CYCLIC_GROUP.prime

/-- The exponents. -/
abbrev Z_m (t : Type) [CYCLIC_GROUP t] := ZMod (m t)

variable {t : Type} [CYCLIC_GROUP t]

def pow (x : t) (n : Z_m t) : t := x ^ n.val

section Lists

variable {α β γ δ : Type}

end Lists

/-! Proofs that discrete logarithms are equal. -/

variable [H]

end plexus.Pvss
