import Plexus.Lib.Result

/-! Computations whose loops stop, with `Result.div`, after a number of rounds
given as an argument. -/

namespace Result

variable {E X α β : Type}

/-- The outcome of a computation that may take as many rounds as it wants: the
one that all large enough bounds agree on. The outcome `div` means that no
number of rounds is enough. -/
def Yields (f : Nat → Result E X α) (r : Result E X α) : Prop :=
  ∃ m, ∀ n, m ≤ n → f n = r

variable {f : Nat → Result E X α} {r : Result E X α}

theorem Yields.of_eq (h : ∀ n, f n = r) : Yields f r := ⟨0, fun n _ => h n⟩

theorem Yields.unique {r' : Result E X α} (h : Yields f r) (h' : Yields f r') : r = r' := by
  obtain ⟨m, hm⟩ := h
  obtain ⟨m', hm'⟩ := h'
  rw [← hm (max m m') (Nat.le_max_left m m'), hm' (max m m') (Nat.le_max_right m m')]

/-- A round more is no other outcome. -/
theorem Yields.succ (h : Yields (fun n => f (n + 1)) r) : Yields f r := by
  obtain ⟨m, hm⟩ := h
  refine ⟨m + 1, fun n hn => ?_⟩
  obtain ⟨k, rfl⟩ := Nat.exists_eq_add_of_le' hn
  exact hm (k + m) (Nat.le_add_left m k)

theorem Yields.congr {g : Nat → Result E X α} (h : Yields f r) (heq : ∀ n, g n = f n) :
    Yields g r := by
  obtain ⟨m, hm⟩ := h
  exact ⟨m, fun n hn => by rw [heq n, hm n hn]⟩

/-- The outcome of a sequence is that of its second part, once the first returned. -/
theorem Yields.bind {g : Nat → α → Result E X β} {a : α} {r : Result E X β} (hf : Yields f (ok a))
    (hg : Yields (fun n => g n a) r) : Yields (fun n => f n >>= g n) r := by
  obtain ⟨m, hm⟩ := hf
  obtain ⟨m', hm'⟩ := hg
  refine ⟨max m m', fun n hn => ?_⟩
  have hleft := Nat.le_trans (Nat.le_max_left m m') hn
  have hright := Nat.le_trans (Nat.le_max_right m m') hn
  simp only [hm n hleft, bind_ok, hm' n hright]

end Result
