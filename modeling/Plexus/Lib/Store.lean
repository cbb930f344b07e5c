import Mathlib.Algebra.BigOperators.Ring.Finset
import Mathlib.Algebra.Order.BigOperators.Group.Finset
import Mathlib.Tactic.Abel

/-- A finite map from keys to values: a lookup function together with the
finite set of keys it is defined on. -/
@[ext] structure Store (K V : Type) where
  lookup : K → Option V
  keys : Finset K
  mem_keys : ∀ k, k ∈ keys ↔ (lookup k).isSome

namespace Store

open Option Finset

variable {K V M : Type} {s : Store K V}

/-- Stores are determined by their lookups. -/
theorem ext_lookup {t : Store K V} (h : ∀ k, s.lookup k = t.lookup k) : s = t := by
  have hlookup : s.lookup = t.lookup := funext h
  refine Store.ext hlookup ?_
  ext k
  rw [s.mem_keys, t.mem_keys, hlookup]

def empty : Store K V := ⟨fun _ => none, ∅, by simp⟩

instance : Inhabited (Store K V) := ⟨empty⟩

@[simp] theorem lookup_empty (k : K) : (empty : Store K V).lookup k = none := rfl

/-- Bind a key to a value, or unbind it. -/
def put [DecidableEq K] (s : Store K V) (k : K) (o : Option V) : Store K V where
  lookup k' := if k' = k then o else s.lookup k'
  keys := if o.isSome then insert k s.keys else s.keys.erase k
  mem_keys k' := by
    by_cases hk : k' = k <;> cases o <;> simp [hk, s.mem_keys]

/-- The sum of a quantity over all bindings. -/
def sum [AddCommMonoid M] (s : Store K V) (g : K → V → M) : M :=
  ∑ k ∈ s.keys, (s.lookup k).elim 0 (g k)

section Put

variable [DecidableEq K]

theorem lookup_put (s : Store K V) (k k' : K) (o : Option V) :
    (s.put k o).lookup k' = if k' = k then o else s.lookup k' := rfl

@[simp] theorem lookup_put_self (s : Store K V) (k : K) (o : Option V) :
    (s.put k o).lookup k = o := if_pos rfl

theorem lookup_put_ne (s : Store K V) {k k' : K} (h : k' ≠ k) (o : Option V) :
    (s.put k o).lookup k' = s.lookup k' := if_neg h

@[simp] theorem put_put (s : Store K V) (k : K) (o o' : Option V) :
    (s.put k o).put k o' = s.put k o' := by
  apply ext_lookup
  intro k'
  simp only [lookup_put]
  split <;> rfl

theorem put_lookup (s : Store K V) (k : K) : s.put k (s.lookup k) = s := by
  apply ext_lookup
  intro k'
  rw [lookup_put]
  split
  · next h => rw [h]
  · rfl

theorem card_keys_put_some (s : Store K V) {k : K} (h : s.lookup k = none) (v : V) :
    (s.put k (some v)).keys.card = s.keys.card + 1 := by
  have hk : k ∉ s.keys := by simp [s.mem_keys, h]
  simp [put, card_insert_of_notMem hk]

theorem card_keys_put_none (s : Store K V) {k : K} {v : V} (h : s.lookup k = some v) :
    (s.put k none).keys.card + 1 = s.keys.card := by
  have hk : k ∈ s.keys := by simp [s.mem_keys, h]
  simp [put, card_erase_add_one hk]

end Put

section Sum

variable [AddCommGroup M]

/-- Keys outside the store contribute nothing. -/
theorem sum_eq_of_subset (s : Store K V) (g : K → V → M) {S : Finset K} (h : s.keys ⊆ S) :
    s.sum g = ∑ k ∈ S, (s.lookup k).elim 0 (g k) := by
  apply sum_subset h
  intro k _ hk
  rw [s.mem_keys, Bool.not_eq_true, isSome_eq_false_iff, isNone_iff_eq_none] at hk
  rw [hk]
  rfl

@[simp] theorem sum_empty (g : K → V → M) : (empty : Store K V).sum g = 0 := rfl

variable [DecidableEq K]

/-- Two stores and quantities that agree away from one key differ in their
sums by what that key contributes. Every accounting step is an instance. -/
theorem sum_eq_add_sub {t : Store K V} {g g' : K → V → M} (k : K)
    (h : ∀ k', k' ≠ k → (t.lookup k').elim 0 (g' k') = (s.lookup k').elim 0 (g k')) :
    t.sum g' = s.sum g + ((t.lookup k).elim 0 (g' k) - (s.lookup k).elim 0 (g k)) := by
  rw [s.sum_eq_of_subset g (S := insert k (s.keys ∪ t.keys)) (by intro x; simp; tauto),
    t.sum_eq_of_subset g' (S := insert k (s.keys ∪ t.keys)) (by intro x; simp; tauto)]
  rw [← add_sum_erase _ _ (mem_insert_self k (s.keys ∪ t.keys)),
    ← add_sum_erase _ (fun k => (s.lookup k).elim 0 (g k)) (mem_insert_self k (s.keys ∪ t.keys))]
  rw [sum_congr rfl fun k' hk' => h k' (ne_of_mem_erase hk')]
  abel

/-- Rebinding one key moves the sum by the difference of the two values. -/
theorem sum_put (s : Store K V) (k : K) (o : Option V) (g : K → V → M) :
    (s.put k o).sum g = s.sum g + (o.elim 0 (g k) - (s.lookup k).elim 0 (g k)) := by
  rw [sum_eq_add_sub (s := s) k, lookup_put_self]
  intro k' hk'
  rw [lookup_put_ne s hk']

end Sum

/-- Counting with natural numbers or with integers is the same. -/
theorem sum_natCast (s : Store K V) (g : K → V → Nat) :
    ((s.sum g : Nat) : ℤ) = s.sum fun k v => (g k v : ℤ) := by
  unfold sum
  rw [Nat.cast_sum]
  apply sum_congr rfl
  intro k _
  cases s.lookup k <;> rfl

/-- Rebinding one key, without subtraction. -/
theorem sum_put_add [DecidableEq K] (s : Store K V) (k : K) (v : V) (g : K → V → Nat) :
    (s.put k (some v)).sum g + (s.lookup k).elim 0 (g k) = s.sum g + g k v := by
  have h := sum_put s k (some v) fun k v => (g k v : ℤ)
  rw [← sum_natCast, ← sum_natCast] at h
  cases hk : s.lookup k with
  | none =>
    rw [hk] at h
    simp only [elim_some, elim_none] at h ⊢
    omega
  | some v' =>
    rw [hk] at h
    simp only [elim_some] at h ⊢
    omega

theorem sum_le_sum {g g' : K → V → Nat} (h : ∀ k v, s.lookup k = some v → g k v ≤ g' k v) :
    s.sum g ≤ s.sum g' := by
  apply Finset.sum_le_sum
  intro k _
  cases hk : s.lookup k with
  | none => exact le_refl _
  | some v => exact h k v hk

/-- A total of one is contributed by exactly one key. -/
theorem existsUnique_of_sum_eq_one {g : K → V → Nat} (h : s.sum g = 1) :
    ∃! k, ∃ v, s.lookup k = some v ∧ g k v ≠ 0 := by
  have hterm k v (hk : s.lookup k = some v) : (s.lookup k).elim 0 (g k) = g k v := by
    rw [hk]
    rfl
  have hmem k v (hk : s.lookup k = some v) : k ∈ s.keys := by
    simp [s.mem_keys, hk]
  obtain ⟨k, _, hne⟩ := exists_ne_zero_of_sum_ne_zero (h.trans_ne one_ne_zero)
  cases hk : s.lookup k with
  | none => simp [hk] at hne
  | some v =>
    rw [hterm k v hk] at hne
    refine ⟨k, ⟨v, hk, hne⟩, ?_⟩
    rintro k' ⟨v', hk', _⟩
    by_contra hkk
    have htwo := add_le_sum (f := fun k => (s.lookup k).elim 0 (g k)) (fun _ _ => Nat.zero_le _)
      (hmem k' v' hk') (hmem k v hk) hkk
    have hsum : (∑ k ∈ s.keys, (s.lookup k).elim 0 (g k)) = 1 := h
    rw [hsum, hterm k v hk, hterm k' v' hk'] at htwo
    omega

end Store
