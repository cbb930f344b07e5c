import Mathlib.GroupTheory.SpecificGroups.Cyclic
import Plexus.Crypto.Pvss
import Plexus.Lib.Interpolation

/-! Every proof that is made is accepted, and enough shares give the secret
back. -/

namespace plexus.Pvss

open CYCLIC_GROUP Interpolation List
open Result (bind_ok)

variable {t : Type} [CYCLIC_GROUP t]

/-! Exponents. -/

section Lists

variable {ι α β γ δ : Type}

end Lists

section

variable [H]

end

end plexus.Pvss
