import Mathlib.Data.List.Nodup
import Plexus.Crypto.MerkleTree

/-! The root that is computed is the root of a complete tree, and paths lead to it
from the leaves they are computed for and from no others. -/

namespace plexus.Blake2B

open Data_encoding List Option Nat
open Result (bind_ok)

namespace Generic_Merkle_tree

open CompleteTree

variable {t elt : Type} {H : HASH t elt} {a : Array t} {f : Nat → t} {n rounds i k : Nat}

theorem get_ok {x : t} (h : a[i]? = some x) : get a i = .ok x := by rw [get, h]

theorem set_ok (h : i < a.size) (x : t) : set a i x = .ok (a.setIfInBounds i x) := if_pos h

/-- The array starts with a row of hashes, which goes on with the last of them. -/
structure Row (a : Array t) (n : Nat) (f : Nat → t) : Prop where
  size : n < a.size
  entries : ∀ i ≤ n, a[i]? = some (f i)
  constant : ∀ i, n ≤ i → f i = f n

theorem entries_set {g : Nat → t} (hk : k < a.size) (h : ∀ i < k, a[i]? = some (g i)) :
    ∀ i ≤ k, (a.setIfInBounds k (g k))[i]? = some (g i) := by
  intro i hi
  by_cases heq : i = k
  · rw [heq, Array.getElem?_setIfInBounds_self_of_lt hk]
  · rw [Array.getElem?_setIfInBounds_ne (Ne.symm heq), h i (by omega)]

/-- A round reads behind what the earlier rounds have written. -/
theorem node_rounds (h : Row a n f) (hk : k ≤ (n + 1) / 2) :
    ∃ b, (range k).foldlM (node_round H) a = .ok b ∧ b.size = a.size ∧
      (∀ i < k, b[i]? = some (above H.node f i)) ∧ ∀ i, k ≤ i → b[i]? = a[i]? := by
  have hsize := h.size
  induction k with
  | zero => exact ⟨a, rfl, rfl, fun i hi => absurd hi (not_lt_zero i), fun i _ => rfl⟩
  | succ k ih =>
    obtain ⟨b, hloop, hb, hdone, hrest⟩ := ih (by omega)
    have hleft : b[2 * k]? = some (f (2 * k)) := by
      rw [hrest _ (by omega), h.entries _ (by omega)]
    have hright : b[2 * k + 1]? = some (f (2 * k + 1)) := by
      rw [hrest _ (by omega), h.entries _ (by omega)]
    refine ⟨b.setIfInBounds k (above H.node f k), ?_, ?_, ?_, ?_⟩
    · rw [range_succ, foldlM_append, hloop, bind_ok, foldlM_cons, node_round,
        get_ok hleft, bind_ok, get_ok hright, bind_ok, set_ok (by omega)]
      rfl
    · rw [Array.size_setIfInBounds, hb]
    · exact fun i hi => entries_set (by omega) hdone i (le_of_lt_succ hi)
    · intro i hi
      rw [Array.getElem?_setIfInBounds_ne (by omega)]
      exact hrest i (by omega)

theorem next_row_ok (h : Row a n f) (hn : 2 ≤ n) :
    ∃ b, next_row H a n = .ok b ∧ b.size = a.size ∧ Row b ((n + 1) / 2) (above H.node f) := by
  obtain ⟨b, hloop, hb, hdone, hrest⟩ := node_rounds h (le_refl ((n + 1) / 2))
  have hsize := h.size
  have hlast : b[n]? = some (f n) := by rw [hrest n (by omega), h.entries n (le_refl n)]
  have habove i (hi : (n + 1) / 2 ≤ i) : above H.node f i = H.node (f n) (f n) := by
    rw [above, h.constant _ (by omega), h.constant (2 * i + 1) (by omega)]
  refine ⟨b.setIfInBounds ((n + 1) / 2) (above H.node f ((n + 1) / 2)), ?_, ?_, ?_, ?_, ?_⟩
  · rw [next_row, hloop, bind_ok, get_ok hlast, bind_ok, set_ok (by omega), habove _ (le_refl _)]
  · rw [Array.size_setIfInBounds, hb]
  · rw [Array.size_setIfInBounds]
    omega
  · exact entries_set (by omega) hdone
  · intro i hi
    rw [habove i hi, habove _ (le_refl _)]

/-- How `step` and `step_path` go on with the row above: at its root they stop, and
a row of odd length is made one longer. -/
theorem next_row_cases {β : Type} {P : Checked β → Prop} {S : Array t → Checked β}
    {G : Array t → Nat → Checked β} (h : Row a n f) (hn : 2 ≤ n)
    (hstop : ∀ b, n = 2 → b[0]? = some (above H.node f 0) → P (S b))
    (hgo : ∀ b n', Row b n' (above H.node f) → 2 ≤ n' → (n + 1) / 2 ≤ n' → n' < n →
      clog 2 n = clog 2 n' + 1 → P (G b n')) :
    P (do
      let a ← next_row H a n
      if (n + 1) / 2 = 1 then S a
      else if (n + 1) / 2 % 2 = 0 then G a ((n + 1) / 2)
      else
        let x ← get a ((n + 1) / 2)
        let a ← set a ((n + 1) / 2 + 1) x
        G a ((n + 1) / 2 + 1)) := by
  obtain ⟨b, hrow, hb, hnext⟩ := next_row_ok h hn
  have hsize := h.size
  rw [hrow, bind_ok]
  split
  · exact hstop b (by omega) (hnext.entries 0 (zero_le _))
  · split
    · exact hgo b _ hnext (by omega) (le_refl _) (by omega) (clog_half hn)
    · rw [get_ok (hnext.entries _ (le_refl _)), bind_ok, set_ok (by omega), bind_ok]
      refine hgo _ _ ⟨?_, ?_, ?_⟩ (by omega) (by omega) (by omega) ?_
      · rw [Array.size_setIfInBounds]
        omega
      · rw [← hnext.constant _ (le_succ _)]
        exact entries_set (by omega) fun i hi => hnext.entries i (le_of_lt_succ hi)
      · intro i hi
        rw [hnext.constant i (by omega), hnext.constant _ (le_succ _)]
      · rw [clog_odd (by omega) (by omega)]
        exact clog_half hn

theorem clog_two : clog 2 2 = 1 := by
  rw [clog_half (le_refl 2), clog_of_right_le_one (by decide)]

theorem step_ok (h : Row a n f) (hn : 2 ≤ n) (hrounds : n ≤ rounds) :
    step H rounds a n = .ok (root H.node (clog 2 n) f) := by
  induction rounds generalizing a n f with
  | zero => omega
  | succ rounds ih =>
    rw [step]
    refine next_row_cases (P := (· = .ok (root H.node (clog 2 n) f))) h hn ?_ ?_
    · rintro b rfl hb
      rw [get_ok hb, clog_two, root_above]
      rfl
    · intro b n' hrow hn' _ hlt hclog
      rw [hclog, root_above]
      exact ih hrow hn' (by omega)

/-- How many hashes a path has. -/
def depth : Path t → Nat
  | .Left p _ => depth p + 1
  | .Right _ p => depth p + 1
  | .Op => 0

variable {p : Path t} {s pos : Nat} {x : elt}

/-- The path goes on to the hash above. -/
theorem add_hash_ok {j : Nat} (h : Row a n f) (hj : j < n)
    (hp : check_path_rec H p x = (f j, s, pos)) :
    ∃ q, add_hash a p j = .ok q ∧
      check_path_rec H q x = (above H.node f (j / 2), s * 2, pos + s * (j % 2)) ∧
      depth q = depth p + 1 := by
  rw [add_hash]
  split
  · next heven =>
    refine ⟨.Left p (f (j + 1)), ?_, ?_, rfl⟩
    · rw [get_ok (h.entries _ (by omega))]
      rfl
    · have hleft : 2 * (j / 2) = j := by omega
      rw [check_path_rec, hp, above, hleft, heven]
      rfl
  · next hodd =>
    refine ⟨.Right (f (j - 1)) p, ?_, ?_, rfl⟩
    · rw [get_ok (h.entries _ (by omega))]
      rfl
    · have hleft : 2 * (j / 2) = j - 1 := by omega
      have hright : j - 1 + 1 = j := by omega
      have hone : j % 2 = 1 := by omega
      rw [check_path_rec, hp, above, hleft, hright, hone, mul_one]

/-- A path to an entry of a row becomes a path to the root over the row. -/
theorem step_path_ok {j : Nat} (h : Row a n f) (hn : 2 ≤ n) (hrounds : n ≤ rounds) (hj : j < n)
    (hp : check_path_rec H p x = (f j, s, pos)) :
    ∃ q, step_path H rounds a n p j = .ok q ∧
      check_path_rec H q x = (root H.node (clog 2 n) f, s * 2 ^ clog 2 n, pos + s * j) ∧
      depth q = depth p + clog 2 n := by
  induction rounds generalizing a n f p j s pos with
  | zero => omega
  | succ rounds ih =>
    obtain ⟨p', hstep, hp', hdepth⟩ := add_hash_ok h hj hp
    have hpos : pos + s * (j % 2) + s * 2 * (j / 2) = pos + s * j := by
      rw [mul_assoc, add_assoc, ← mul_add, mod_add_div]
    rw [step_path, hstep, bind_ok]
    refine next_row_cases (P := fun r => ∃ q, r = .ok q ∧ check_path_rec H q x =
      (root H.node (clog 2 n) f, s * 2 ^ clog 2 n, pos + s * j) ∧
      depth q = depth p + clog 2 n)
      (G := fun a n => step_path H rounds a n p' (j / 2)) h hn ?_ ?_
    · rintro b rfl _
      have hzero : j / 2 = 0 := by omega
      rw [hzero, mul_zero, add_zero] at hpos
      rw [hzero, hpos] at hp'
      refine ⟨p', rfl, ?_, ?_⟩
      · rw [hp', clog_two, root_above]
        rfl
      · rw [hdepth, clog_two]
    · intro b n' hrow hn' hle hlt hclog
      obtain ⟨q, hq, hcheck, _⟩ := ih hrow hn' (by omega) (by omega) hp'
      refine ⟨q, hq, ?_, by omega⟩
      rw [hcheck, hpos, hclog, root_above, mul_assoc, ← pow_succ']

/-- A list goes on with its last element. -/
def padded (xs : List elt) (hne : xs ≠ []) (i : Nat) : elt := xs.getD i (xs.getLast hne)

variable {xs : List elt}

theorem padded_lt (hne : xs ≠ []) (h : i < xs.length) : padded xs hne i = xs[i] := by
  rw [padded, getD_eq_getElem?_getD, getElem?_eq_getElem h, getD_some]

theorem iteri_ok (h : i + xs.length ≤ a.size) :
    ∃ b, iteri H i xs a = .ok b ∧ b.size = a.size ∧
      (∀ j (hj : j < xs.length), b[i + j]? = some (H.leaf xs[j])) ∧
      ∀ j, j < i ∨ i + xs.length ≤ j → b[j]? = a[j]? := by
  induction xs generalizing i a with
  | nil => exact ⟨a, rfl, rfl, fun j hj => absurd hj (not_lt_zero j), fun j _ => rfl⟩
  | cons x xs ih =>
    rw [length_cons] at h
    obtain ⟨b, hb, hsize, hset, hrest⟩ := ih (a := a.setIfInBounds i (H.leaf x)) (i := i + 1)
      (by rw [Array.size_setIfInBounds]; omega)
    refine ⟨b, ?_, ?_, ?_, ?_⟩
    · rw [iteri, set_ok (by omega), bind_ok, hb]
    · rw [hsize, Array.size_setIfInBounds]
    · intro j hj
      cases j with
      | zero =>
        rw [add_zero, hrest i (by omega), Array.getElem?_setIfInBounds_self_of_lt (by omega)]
        rfl
      | succ j =>
        rw [show i + (j + 1) = i + 1 + j by omega, hset j (by simpa using hj)]
        rfl
    · intro j hj
      rw [length_cons] at hj
      rw [hrest j (by omega), Array.getElem?_setIfInBounds_ne (by omega)]

theorem leaves_ok (hne : xs ≠ []) :
    ∃ b, leaves H xs (xs.getLast hne) = .ok b ∧
      Row b xs.length fun i => H.leaf (padded xs hne i) := by
  have hfit : 0 + xs.length ≤ (Array.replicate (xs.length + 1) (H.leaf (xs.getLast hne))).size := by
    rw [Array.size_replicate]
    omega
  obtain ⟨b, hb, hsize, hset, hrest⟩ := iteri_ok hfit
  have hlast i (hi : xs.length ≤ i) : padded xs hne i = xs.getLast hne := by
    rw [padded, getD_eq_getElem?_getD, getElem?_eq_none hi, getD_none]
  rw [Array.size_replicate] at hsize
  refine ⟨b, hb, by omega, ?_, ?_⟩
  · intro i hi
    by_cases hlt : i < xs.length
    · have hi := hset i hlt
      rwa [zero_add, ← padded_lt hne hlt] at hi
    · rw [hrest i (by omega), hlast i (by omega), Array.getElem?_replicate, if_pos (by omega)]
  · intro i hi
    rw [hlast i hi, hlast _ (le_refl _)]

/-- The root is the one over the list, which goes on with its last element. -/
theorem compute_ok (H : HASH t elt) (hne : xs ≠ []) :
    compute H xs = .ok (root H.node (clog 2 xs.length) fun i => H.leaf (padded xs hne i)) := by
  match xs with
  | [] => exact absurd rfl hne
  | [x] =>
    rw [length_singleton, clog_one_right]
    rfl
  | x :: y :: xs =>
    obtain ⟨b, hb, hrow⟩ := leaves_ok hne
    rw [getLast_cons (cons_ne_nil y xs)] at hb
    rw [compute, hb, bind_ok, step_ok hrow (by simp) (le_refl _)]

theorem compute_path_ok (H : HASH t elt) (h : i < xs.length) (hne : xs ≠ []) :
    ∃ p, compute_path H xs i = .ok p ∧
      check_path H p xs[i] = (root H.node (clog 2 xs.length) fun i => H.leaf (padded xs hne i), i) ∧
      depth p = clog 2 xs.length := by
  match xs with
  | [] => exact absurd rfl hne
  | [x] =>
    rw [length_singleton] at h
    obtain rfl : i = 0 := by omega
    rw [length_singleton, clog_one_right]
    exact ⟨.Op, rfl, rfl, rfl⟩
  | x :: y :: xs =>
    obtain ⟨b, hb, hrow⟩ := leaves_ok hne
    rw [getLast_cons (cons_ne_nil y xs)] at hb
    have hleaf : check_path_rec H .Op (x :: y :: xs)[i] =
        (H.leaf (padded (x :: y :: xs) hne i), 1, 0) := by
      rw [padded_lt hne h]
      rfl
    obtain ⟨q, hq, hcheck, hdepth⟩ := step_path_ok hrow (by simp) (le_refl _) h hleaf
    refine ⟨q, ?_, ?_, by rw [hdepth, depth, zero_add]⟩
    · rw [compute_path, if_neg (by omega), hb, bind_ok, Int.toNat_natCast, hq]
    · rw [one_mul, one_mul, zero_add] at hcheck
      rw [check_path, hcheck]

/-- Hashes that tell their arguments, and the kind of a tree, apart. -/
structure Binding (H : HASH t elt) : Prop where
  leaf_injective : Function.Injective H.leaf
  node_injective : ∀ a b c d, H.node a b = H.node c d → a = c ∧ b = d
  leaf_ne_node : ∀ x a b, H.leaf x ≠ H.node a b
  empty_ne_leaf : ∀ x, H.empty ≠ H.leaf x
  empty_ne_node : ∀ a b, H.empty ≠ H.node a b

theorem Binding.empty_ne_root (hH : Binding H) (k : Nat) (f : Nat → elt) :
    H.empty ≠ root H.node k fun i => H.leaf (f i) := by
  cases k with
  | zero => exact hH.empty_ne_leaf _
  | succ k => exact hH.empty_ne_node _ _

/-- A path that leads to the root of a tree starts at one of its leaves. -/
theorem Binding.check_path_rec_root (hH : Binding H) {f : Nat → elt}
    (h : check_path_rec H p x = (root H.node k fun i => H.leaf (f i), s, pos)) :
    s = 2 ^ k ∧ pos < 2 ^ k ∧ x = f pos := by
  induction p generalizing k f s pos with
  | Op =>
    simp only [check_path_rec, Prod.mk.injEq] at h
    obtain ⟨hroot, rfl, rfl⟩ := h
    cases k with
    | zero => exact ⟨rfl, one_pos, hH.leaf_injective hroot⟩
    | succ k => exact absurd hroot (hH.leaf_ne_node _ _ _)
  | Left p r ih =>
    rcases hp : check_path_rec H p x with ⟨l, s', pos'⟩
    simp only [check_path_rec, hp, Prod.mk.injEq] at h
    obtain ⟨hroot, rfl, rfl⟩ := h
    cases k with
    | zero => exact absurd hroot.symm (hH.leaf_ne_node _ _ _)
    | succ k =>
      obtain ⟨rfl, _⟩ := hH.node_injective _ _ _ _ hroot
      obtain ⟨rfl, hpos, hx⟩ := ih hp
      exact ⟨(pow_succ 2 k).symm, by rw [pow_succ]; omega, hx⟩
  | Right l p ih =>
    rcases hp : check_path_rec H p x with ⟨r, s', pos'⟩
    simp only [check_path_rec, hp, Prod.mk.injEq] at h
    obtain ⟨hroot, rfl, rfl⟩ := h
    cases k with
    | zero => exact absurd hroot.symm (hH.leaf_ne_node _ _ _)
    | succ k =>
      obtain ⟨_, rfl⟩ := hH.node_injective _ _ _ _ hroot
      obtain ⟨rfl, hpos, hx⟩ := ih hp
      exact ⟨(pow_succ 2 k).symm, by rw [pow_succ]; omega, by rw [hx, add_comm]⟩

/-- The end of a list without repetitions is where its last element starts to
repeat. -/
theorem length_le_of_padded {ys : List elt} {hx : xs ≠ []} {hy : ys ≠ []} (hnodup : ys.Nodup)
    (hk : ys.length ≤ 2 ^ k) (h : ∀ i < 2 ^ k, padded xs hx i = padded ys hy i) :
    ys.length ≤ xs.length := by
  by_contra hlt
  have hpos := length_pos_iff.mpr hx
  have hlast : padded xs hx (xs.length - 1) = padded xs hx xs.length := by
    rw [padded_lt hx (by omega), padded, getD_eq_getElem?_getD,
      getElem?_eq_none (le_refl _), getD_none, getLast_eq_getElem]
  rw [h _ (by omega), h _ (by omega), padded_lt hy (by omega), padded_lt hy (by omega)] at hlast
  have := (hnodup.getElem_inj_iff).mp hlast
  omega

/-- A root determines a list without repetitions, and what stands at a position of
the list. -/
theorem compute_binds (hH : Binding H) :
    (∀ xs ys : List elt, xs.Nodup → ys.Nodup → compute H xs = compute H ys → xs = ys) ∧
      ∀ (xs : List elt) (p : Path t) (h : elt) (r : t) (i : Nat),
        compute H xs = .ok r → check_path H p h = (r, i) →
        ∃ hne, i < 2 ^ clog 2 xs.length ∧ h = padded xs hne i := by
  constructor
  · intro xs ys hxs hys h
    by_cases hx : xs = []
    · by_cases hy : ys = []
      · rw [hx, hy]
      · rw [hx, compute_ok H hy, compute, Result.ok.injEq] at h
        exact absurd h (hH.empty_ne_root _ _)
    · by_cases hy : ys = []
      · rw [hy, compute_ok H hx, compute, Result.ok.injEq] at h
        exact absurd h.symm (hH.empty_ne_root _ _)
      · rw [compute_ok H hx, compute_ok H hy, Result.ok.injEq] at h
        obtain ⟨hk, hleaves⟩ := root_binds hH.node_injective (fun _ => hH.leaf_ne_node _)
          (fun _ => hH.leaf_ne_node _) h
        have heq : ∀ i < 2 ^ clog 2 xs.length, padded xs hx i = padded ys hy i :=
          fun i hi => hH.leaf_injective (hleaves i hi)
        have hlex := le_pow_clog (by decide : 1 < 2) xs.length
        have hley := le_pow_clog (by decide : 1 < 2) ys.length
        rw [← hk] at hley
        have hlen : xs.length = ys.length := le_antisymm
          (length_le_of_padded hxs hlex fun i hi => (heq i hi).symm)
          (length_le_of_padded hys hley heq)
        refine ext_getElem hlen fun i hi hi' => ?_
        rw [← padded_lt hx hi, ← padded_lt hy hi']
        exact heq i (by omega)
  · intro xs p h r i hr hcheck
    rcases hp : check_path_rec H p h with ⟨r', s, pos⟩
    simp only [check_path, hp, Prod.mk.injEq] at hcheck
    obtain ⟨rfl, rfl⟩ := hcheck
    by_cases hne : xs = []
    · subst hne
      rw [compute, Result.ok.injEq] at hr
      subst hr
      cases p <;> simp only [check_path_rec, Prod.mk.injEq] at hp
      · exact absurd hp.1.symm (hH.empty_ne_node _ _)
      · exact absurd hp.1.symm (hH.empty_ne_node _ _)
      · exact absurd hp.1.symm (hH.empty_ne_leaf _)
    · rw [compute_ok H hne, Result.ok.injEq] at hr
      subst hr
      obtain ⟨_, hpos, hx⟩ := hH.check_path_rec_root hp
      exact ⟨hne, hpos, hx⟩

/-- The trees themselves as hashes. -/
inductive Tree where
  | Empty
  | Leaf (i : Nat)
  | Node (x y : Tree)
deriving DecidableEq, Repr

def tree_hash : HASH Tree Nat := ⟨.Empty, .Leaf, .Node⟩

theorem compute_binds_trees :
    Binding tree_hash ∧ ∀ xs ys : List Nat, xs.Nodup → ys.Nodup →
      compute tree_hash xs = compute tree_hash ys → xs = ys := by
  have hbinding : Binding tree_hash :=
    ⟨fun _ _ => Tree.Leaf.inj, fun _ _ _ _ => Tree.Node.inj, fun _ _ _ => Tree.noConfusion,
      fun _ => Tree.noConfusion, fun _ _ => Tree.noConfusion⟩
  exact ⟨hbinding, (compute_binds hbinding).1⟩

end Generic_Merkle_tree

theorem log2_eq (x : Nat) : log2 x = clog 2 x := by
  induction x using Nat.strong_induction_on with
  | _ x ih =>
    rw [log2]
    split
    · next hle => rw [clog_of_right_le_one hle]
    · next hlt => rw [ih _ (by omega), add_comm, ← CompleteTree.clog_half (by omega)]

namespace Make_merkle_tree

open Generic_Merkle_tree

variable {t elt : Type} {encoding : Encoding t} {size rounds : Nat}

theorem path_encoding_exact (hexact : encoding.Exact) (rounds : Nat) :
    (path_encoding encoding rounds).Exact := by
  refine mu_exact (fun e he => union_exact ?_ ?_) rounds
  · intro c hc
    simp only [path_cases, mem_cons, not_mem_nil, or_false] at hc
    rcases hc with rfl | rfl | rfl
    · exact case_exact (pair_exact he hexact)
    · exact case_exact (pair_exact hexact he)
    · exact case_exact constant_exact
  · simp [path_cases]

theorem path_encoding_write {p : Path t}
    (hsize : ∀ x, ∃ w, encoding.write x = some w ∧ w.length = size) (h : depth p < rounds) :
    ∃ w, (path_encoding encoding rounds).write p = some w ∧
      w.length = depth p * (size + 1) + 1 := by
  induction p generalizing rounds with
  | Left p r ih =>
    cases rounds with
    | zero => exact absurd h (not_lt_zero _)
    | succ rounds =>
      obtain ⟨wp, hwp, hlen⟩ := ih (lt_of_succ_lt_succ h)
      obtain ⟨wr, hwr, hr⟩ := hsize r
      refine ⟨240 :: (wp ++ wr), ?_, ?_⟩
      · change ((pair (path_encoding encoding rounds) encoding).write (p, r)).map _ = _
        simp [Data_encoding.pair, hwp, hwr]
      · rw [length_cons, length_append, hlen, hr, depth]
        ring
  | Right l p ih =>
    cases rounds with
    | zero => exact absurd h (not_lt_zero _)
    | succ rounds =>
      obtain ⟨wp, hwp, hlen⟩ := ih (lt_of_succ_lt_succ h)
      obtain ⟨wl, hwl, hl⟩ := hsize l
      refine ⟨15 :: (wl ++ wp), ?_, ?_⟩
      · change ((pair encoding (path_encoding encoding rounds)).write (l, p)).map _ = _
        simp [Data_encoding.pair, hwp, hwl]
      · rw [length_cons, length_append, hlen, hl, depth]
        ring
  | Op =>
    cases rounds with
    | zero => exact absurd h (not_lt_zero _)
    | succ rounds => exact ⟨[0], rfl, by rw [depth, zero_mul]; rfl⟩

/-- The path of every element is found, leads to the root over the list, and is
short enough to be written and read back. -/
theorem merkle_path_verifies (H : HASH t elt) (hexact : encoding.Exact)
    (hsize : ∀ x, ∃ w, encoding.write x = some w ∧ w.length = size) (xs : List elt) (i : Nat)
    (h : i < xs.length) (max_length : Nat) (hmax : xs.length ≤ max_length) :
    ∃ hne r p, compute H xs = .ok r ∧
      r = CompleteTree.root H.node (clog 2 xs.length) (fun j => H.leaf (padded xs hne j)) ∧
      compute_path H xs i = .ok p ∧ check_path H p xs[i] = (r, i) ∧
      ∀ rounds, clog 2 xs.length < rounds → ∃ w,
        (bounded_path_encoding encoding size (some max_length) rounds).write p = some w ∧
        ∀ rest, (bounded_path_encoding encoding size (some max_length) rounds).read (w ++ rest) =
          some (p, rest) := by
  have hne : xs ≠ [] := ne_nil_of_length_pos (by omega)
  obtain ⟨p, hp, hcheck, hdepth⟩ := compute_path_ok H h hne
  refine ⟨hne, _, p, compute_ok H hne, rfl, hp, hcheck, fun rounds hrounds => ?_⟩
  have hrounds' : depth p < rounds := by omega
  obtain ⟨w, hw, hlen⟩ := path_encoding_write hsize hrounds'
  have hle : w.length ≤ log2 max_length * (size + 1) + 1 := by
    rw [hlen, hdepth, log2_eq]
    have hlog := clog_mono_right 2 hmax
    gcongr
  have hbounded : (bounded_path_encoding encoding size (some max_length) rounds).write p =
      some w := by
    simp only [bounded_path_encoding, check_size, hw, bind_some, if_pos hle]
  refine ⟨w, hbounded, fun rest => ?_⟩
  exact (check_size_exact (path_encoding_exact hexact rounds) _ p _ rest).mpr ⟨w, hbounded, rfl⟩

/-- Hashes of one byte. -/
def byte_hash : HASH (Fixed 1) Nat where
  empty := ⟨[0], rfl⟩
  leaf i := ⟨[UInt8.ofNat i], rfl⟩
  node x y := ⟨[x.val.headD 0 - y.val.headD 0], rfl⟩

theorem merkle_path_verifies_three :
    ∃ p r, compute_path byte_hash [5, 6, 7] 2 = .ok p ∧ check_path byte_hash p 7 = (r, 2) := by
  obtain ⟨_, r, p, _, _, hp, hcheck, _⟩ := merkle_path_verifies byte_hash (fixed_exact 1)
    (fun x => ⟨x.val, rfl, x.property⟩) [5, 6, 7] 2 (by decide) 3 (by decide)
  exact ⟨p, r, hp, hcheck⟩

end Make_merkle_tree

end plexus.Blake2B
