import Mathlib.Order.Lattice
import Mathlib.Data.List.Nodup
import Mathlib.Data.List.Pairwise
import Mathlib.Tactic.Common

/-- A finite map over ordered keys: its bindings, in increasing order of the
keys. -/
@[ext] structure OrderedMap (K V : Type) [LinearOrder K] where
  bindings : List (K × V)
  sorted : bindings.Pairwise fun a b => a.1 < b.1

namespace OrderedMap

open List

variable {K V : Type} [LinearOrder K]

def empty : OrderedMap K V := ⟨[], .nil⟩

def cardinal (m : OrderedMap K V) : Nat := m.bindings.length

def keys (m : OrderedMap K V) : List K := m.bindings.map Prod.fst

def find_opt (m : OrderedMap K V) (k : K) : Option V :=
  (m.bindings.find? fun b => b.1 = k).map Prod.snd

def mem (m : OrderedMap K V) (k : K) : Bool := m.keys.contains k

def add (m : OrderedMap K V) (k : K) (v : V) : OrderedMap K V where
  bindings := m.bindings.filter (fun b => b.1 < k) ++ (k, v) :: m.bindings.filter (fun b => k < b.1)
  sorted := by
    rw [List.pairwise_append, List.pairwise_cons]
    refine ⟨m.sorted.filter _, ⟨?_, m.sorted.filter _⟩, ?_⟩
    · intro b hb
      simpa using (List.mem_filter.mp hb).2
    · intro a ha b hb
      have hak : a.1 < k := by simpa using (List.mem_filter.mp ha).2
      rcases List.mem_cons.mp hb with rfl | hb
      · exact hak
      · exact lt_trans hak (by simpa using (List.mem_filter.mp hb).2)

/-- The bindings that pass a test. -/
def filter (m : OrderedMap K V) (p : K → V → Bool) : OrderedMap K V where
  bindings := m.bindings.filter fun b => p b.1 b.2
  sorted := m.sorted.filter _

def remove (m : OrderedMap K V) (k : K) : OrderedMap K V := m.filter fun k' _ => k' ≠ k

def fold {β : Type} (f : K → V → β → β) (m : OrderedMap K V) (init : β) : β :=
  m.bindings.foldl (fun acc b => f b.1 b.2 acc) init

variable {m : OrderedMap K V} {k : K}

theorem mem_keys : k ∈ m.keys ↔ ∃ v, (k, v) ∈ m.bindings := by
  simp [keys]

theorem mem_iff : m.mem k = true ↔ k ∈ m.keys := by
  simp [mem]

theorem keys_sorted (m : OrderedMap K V) : m.keys.Pairwise (· < ·) := pairwise_map.mpr m.sorted

theorem keys_nodup (m : OrderedMap K V) : m.keys.Nodup := by
  apply m.keys_sorted.imp
  intro a b hab
  exact ne_of_lt hab

@[simp] theorem keys_empty : (empty : OrderedMap K V).keys = [] := rfl

variable {v : V} {k' : K}

theorem mem_bindings_add {v' : V} :
    (k', v') ∈ (m.add k v).bindings ↔ (k' = k ∧ v' = v) ∨ (k' ≠ k ∧ (k', v') ∈ m.bindings) := by
  simp only [add, mem_append, mem_filter, mem_cons, Prod.mk.injEq, decide_eq_true_eq]
  constructor
  · rintro (⟨h, hlt⟩ | heq | ⟨h, hlt⟩)
    · exact .inr ⟨ne_of_lt hlt, h⟩
    · exact .inl heq
    · exact .inr ⟨ne_of_gt hlt, h⟩
  · rintro (heq | ⟨hne, h⟩)
    · exact .inr (.inl heq)
    · rcases lt_or_gt_of_ne hne with hlt | hlt
      · exact .inl ⟨h, hlt⟩
      · exact .inr (.inr ⟨h, hlt⟩)

theorem mem_bindings_filter {p : K → V → Bool} :
    (k, v) ∈ (m.filter p).bindings ↔ (k, v) ∈ m.bindings ∧ p k v = true := by
  simp [filter]

theorem mem_keys_add : k' ∈ (m.add k v).keys ↔ k' = k ∨ k' ∈ m.keys := by
  simp only [mem_keys, mem_bindings_add]
  by_cases h : k' = k <;> simp [h]

theorem mem_bindings_remove :
    (k', v) ∈ (m.remove k).bindings ↔ k' ≠ k ∧ (k', v) ∈ m.bindings := by
  rw [remove, mem_bindings_filter, and_comm]
  simp

/-- A map that is bound at most one key away from the empty map. -/
theorem bindings_add_empty (k : K) (v : V) :
    ((empty : OrderedMap K V).add k v).bindings = [(k, v)] :=
  rfl

/-- What a fold that adds bindings reaches contains a key exactly when the
start or the folded list does. -/
theorem mem_keys_foldl_add {α : Type} (f : α → K × V) (l : List α) (m : OrderedMap K V) (k : K) :
    k ∈ (l.foldl (fun m a => m.add (f a).1 (f a).2) m).keys ↔
      k ∈ m.keys ∨ ∃ a ∈ l, (f a).1 = k := by
  induction l generalizing m with
  | nil => simp
  | cons a l ih =>
    rw [foldl_cons, ih, mem_keys_add, exists_mem_cons_iff]
    constructor
    · rintro ((h | h) | h)
      · exact .inr (.inl h.symm)
      · exact .inl h
      · exact .inr (.inr h)
    · rintro (h | h | h)
      · exact .inl (.inr h)
      · exact .inl (.inl h.symm)
      · exact .inr h

/-- A property of bindings that holds of the start and of everything added
holds of what the fold reaches. -/
theorem forall_bindings_foldl_add {α : Type} {P : K → V → Prop} (f : α → K × V) (l : List α)
    (m : OrderedMap K V) (hm : ∀ k v, (k, v) ∈ m.bindings → P k v)
    (hl : ∀ a ∈ l, P (f a).1 (f a).2) :
    ∀ k v, (k, v) ∈ (l.foldl (fun m a => m.add (f a).1 (f a).2) m).bindings → P k v := by
  induction l generalizing m with
  | nil => exact hm
  | cons a l ih =>
    apply ih
    · intro k v hkv
      rcases mem_bindings_add.mp hkv with ⟨rfl, rfl⟩ | ⟨_, h⟩
      · exact hl a mem_cons_self
      · exact hm k v h
    · intro b hb
      exact hl b (mem_cons_of_mem a hb)

section Fold

variable {V' : Type}

/-- Adding all bindings of a map adds its keys. -/
theorem mem_keys_fold_add (g : V' → V) (m' : OrderedMap K V') (m : OrderedMap K V) (k : K) :
    k ∈ (m'.fold (fun h v acc => acc.add h (g v)) m).keys ↔ k ∈ m.keys ∨ k ∈ m'.keys := by
  have hfold := mem_keys_foldl_add (fun b : K × V' => (b.1, g b.2)) m'.bindings m k
  rw [fold, hfold]
  simp [mem_keys]

theorem forall_bindings_fold_add {P : K → V → Prop} (g : V' → V) (m' : OrderedMap K V')
    (m : OrderedMap K V) (hm : ∀ k v, (k, v) ∈ m.bindings → P k v)
    (hm' : ∀ k v, (k, v) ∈ m'.bindings → P k (g v)) :
    ∀ k v, (k, v) ∈ (m'.fold (fun h v acc => acc.add h (g v)) m).bindings → P k v :=
  forall_bindings_foldl_add (fun b : K × V' => (b.1, g b.2)) m'.bindings m hm
    fun b hb => hm' b.1 b.2 hb

end Fold

end OrderedMap
