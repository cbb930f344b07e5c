import Plexus.Michelson.Types

/-! The sets and maps of Michelson: trees ordered by the comparison of their key type, with a size
that each update maintains. -/

open Std (LawfulEqCmp LawfulEqOrd OrientedCmp TransCmp TransOrd)

/-- A comparison that orders its type, so that trees built with it hold each value once. -/
structure Total_comparison {α : Type} (cmp : α → α → Ordering) : Prop where
  trans : TransCmp cmp
  eq_of_compare : ∀ {a b}, cmp a b = .eq → a = b

namespace Total_comparison

variable {α β R : Type}

theorem compare_on [Ord R] [TransOrd R] [LawfulEqOrd R] {rank : α → R}
    (h : Function.Injective rank) : Total_comparison (compareOn rank) where
  trans := inferInstance
  eq_of_compare heq := h (LawfulEqCmp.eq_of_compare heq)

theorem compare_linear [LinearOrder R] : Total_comparison (compare : R → R → Ordering) where
  trans := inferInstance
  eq_of_compare := compare_eq_iff_eq.mp

private theorem trans_on {cmp : R → R → Ordering} (h : TransCmp cmp) (f : α → R) :
    TransCmp fun x y => cmp (f x) (f y) where
  eq_swap := h.eq_swap
  isLE_trans := h.isLE_trans

theorem lex {cmp1 : α → α → Ordering} {cmp2 : β → β → Ordering} (h1 : Total_comparison cmp1)
    (h2 : Total_comparison cmp2) :
    Total_comparison fun x y : α × β => (cmp1 x.1 y.1).then (cmp2 x.2 y.2) where
  trans := by
    have := trans_on h1.trans (Prod.fst : α × β → α)
    have := trans_on h2.trans (Prod.snd : α × β → β)
    exact inferInstanceAs (TransCmp (compareLex _ _))
  eq_of_compare h := by
    rw [Ordering.then_eq_eq] at h
    exact Prod.ext (h1.eq_of_compare h.1) (h2.eq_of_compare h.2)

end Total_comparison

namespace plexus

namespace contract_repr

def compare : Contract → Contract → Ordering
  | .Implicit pkh1, .Implicit pkh2 => Ord.compare pkh1 pkh2
  | .Originated h1, .Originated h2 => compareOn Contract_hash.hash h1 h2
  | .Implicit _, .Originated _ => .lt
  | .Originated _, .Implicit _ => .gt

theorem compare_total : Total_comparison compare := by
  have himplicit : Total_comparison (Ord.compare (α := Public_key_hash)) := .compare_linear
  have horiginated : Total_comparison (compareOn Contract_hash.hash) :=
    .compare_on fun h1 h2 heq => by cases h1; cases h2; cases heq; rfl
  have horiented : OrientedCmp compare := by
    constructor
    rintro (a | a) (b | b)
    · exact himplicit.trans.eq_swap
    · rfl
    · rfl
    · exact horiginated.trans.eq_swap
  refine ⟨⟨?_⟩, ?_⟩
  · rintro (a | a) (b | b) (c | c) hab hbc
    all_goals first
      | exact himplicit.trans.isLE_trans hab hbc
      | exact horiginated.trans.isLE_trans hab hbc
      | rfl
      | contradiction
  · rintro (a | a) (b | b) h
    · exact congrArg _ (himplicit.eq_of_compare h)
    · cases h
    · cases h
    · exact congrArg _ (horiginated.eq_of_compare h)

end contract_repr

namespace script_ir_translator

/-- The values of a comparable type. -/
def Val {d : Depth} : Comparable_struct d → Type
  | .Int_key _ => ℤ
  | .Nat_key _ => ℕ
  | .String_key _ => MBytes
  | .Bytes_key _ => MBytes
  | .Mutez_key _ => Tez
  | .Mumine_key _ => Mine
  | .Bool_key _ => Bool
  | .Key_hash_key _ => Public_key_hash
  | .Timestamp_key _ => ℤ
  | .Address_key _ => Contract × MBytes
  | .Pair_key l _ r _ _ => Val l × Val r

/-- `wrap_compare` leaves the three results of an `Ordering`. -/
def compare_comparable {d : Depth} : (kind : Comparable_struct d) → Val kind → Val kind → Ordering
  | .String_key _ => compare (α := MBytes)
  | .Bool_key _ => compare (α := Bool)
  | .Mutez_key _ => compareOn fun q : Tez => q.amount
  | .Mumine_key _ => compareOn fun q : Mine => q.amount
  | .Key_hash_key _ => compare (α := Public_key_hash)
  | .Int_key _ => compare (α := ℤ)
  | .Nat_key _ => compare (α := ℕ)
  | .Timestamp_key _ => compare (α := ℤ)
  | .Address_key _ => fun (x, ex) (y, ey) => (contract_repr.compare x y).then (compare ex ey)
  | .Bytes_key _ => compare (α := MBytes)
  | .Pair_key l _ r _ _ => fun (lx, rx) (ly, ry) =>
    (compare_comparable l lx ly).then (compare_comparable r rx ry)

/-- Every leaf is compared by a value of an ordered type, so the comparison is a total order. -/
theorem compare_comparable_total {d : Depth} (kind : Comparable_struct d) :
    Total_comparison (compare_comparable kind) := by
  induction kind with
  | Bool_key _ => exact .compare_on Function.injective_id
  | Mutez_key _ | Mumine_key _ => exact .compare_on Qty.amount_injective
  | Key_hash_key _ => exact .compare_linear (R := Public_key_hash)
  | Nat_key _ => exact .compare_on Function.injective_id
  | Int_key _ | Timestamp_key _ => exact .compare_on Function.injective_id
  | Address_key _ => exact contract_repr.compare_total.lex (.compare_on Function.injective_id)
  | String_key _ | Bytes_key _ => exact .compare_on Function.injective_id
  | Pair_key l _ r _ _ ihl ihr => exact ihl.lex ihr

section Boxes

variable {ty : Comparable_ty} {value : Type}

instance : TransCmp (compare_comparable ty) := (compare_comparable_total ty).trans

instance : LawfulEqCmp (compare_comparable ty) := ⟨(compare_comparable_total ty).eq_of_compare⟩

instance : DecidableEq (Val ty) := fun a b =>
  decidable_of_iff (compare_comparable ty a b = .eq) LawfulEqCmp.compare_eq_iff_eq

structure Boxed_set (elt_ty : Comparable_ty) where
  boxed : Std.TreeSet (Val elt_ty) (compare_comparable elt_ty)
  size : ℤ

def empty_set (ty : Comparable_ty) : Boxed_set ty where
  boxed := ∅
  size := 0

def set_update (v : Val ty) (b : Bool) (Box : Boxed_set ty) : Boxed_set ty where
  boxed := if b then Box.boxed.insert v else Box.boxed.erase v
  size :=
    if v ∈ Box.boxed then if b then Box.size else Box.size - 1
    else if b then Box.size + 1 else Box.size

/-- The finite set a box stands for, and the sizes of both. -/
structure Boxed_set.Represents (Box : Boxed_set ty) (set : Finset (Val ty)) : Prop where
  mem_iff : ∀ v, v ∈ Box.boxed ↔ v ∈ set
  size_boxed : Box.size = Box.boxed.size
  card : Box.boxed.size = set.card

theorem set_update_represents {Box : Boxed_set ty} {set : Finset (Val ty)}
    (h : Box.Represents set) (v : Val ty) (b : Bool) :
    (set_update v b Box).Represents (if b then insert v set else set.erase v) := by
  have hpos : v ∈ Box.boxed → 0 < Box.boxed.size := fun hv =>
    h.card ▸ Finset.card_pos.mpr ⟨v, (h.mem_iff v).mp hv⟩
  cases b
  · refine ⟨fun w => ?_, ?_, ?_⟩
    · simp [set_update, h.mem_iff, Std.TreeSet.mem_erase, eq_comm (a := v)]
    · simp only [set_update, Bool.false_eq_true, if_false, h.size_boxed, Std.TreeSet.size_erase,
        Std.TreeSet.contains_iff_mem]
      split
      · next hv =>
        have := hpos hv
        omega
      · rfl
    · simp only [set_update, Bool.false_eq_true, if_false, Std.TreeSet.size_erase,
        Std.TreeSet.contains_iff_mem, Finset.card_erase_eq_ite, h.mem_iff, h.card]
  · refine ⟨fun w => ?_, ?_, ?_⟩
    · simp [set_update, h.mem_iff, Std.TreeSet.mem_insert, eq_comm (a := v)]
    · simp only [set_update, if_true, h.size_boxed, Std.TreeSet.size_insert,
        Std.TreeSet.contains_iff_mem, Nat.cast_ite, Nat.cast_succ]
    · simp only [set_update, if_true, Std.TreeSet.size_insert, Std.TreeSet.contains_iff_mem,
        Finset.card_insert_eq_ite, h.mem_iff, h.card]

structure Boxed_map (key_ty : Comparable_ty) (value : Type) where
  boxed : Std.TreeMap (Val key_ty) value (compare_comparable key_ty) × ℤ

def empty_map (ty : Comparable_ty) : Boxed_map ty value := ⟨∅, 0⟩

def map_update (k : Val ty) (v : Option value) (Box : Boxed_map ty value) : Boxed_map ty value where
  boxed :=
    let (map, size) := Box.boxed
    let contains := map.contains k
    match v with
    | some v => (map.insert k v, size + if contains then 0 else 1)
    | none => (map.erase k, size - if contains then 1 else 0)

def map_set (k : Val ty) (v : value) (Box : Boxed_map ty value) : Boxed_map ty value where
  boxed :=
    let (map, size) := Box.boxed
    (map.insert k v, if map.contains k then size else size + 1)

/-- The finite map a box stands for, and the sizes of both. -/
structure Boxed_map.Represents (Box : Boxed_map ty value) (map : Store (Val ty) value) : Prop where
  find_opt : ∀ k, Box.boxed.1.get? k = map.lookup k
  size_boxed : Box.boxed.2 = Box.boxed.1.size
  card : Box.boxed.1.size = map.keys.card

variable {map : Store (Val ty) value} {Box : Boxed_map ty value}

theorem map_update_represents (h : Box.Represents map) (k : Val ty) (v : Option value) :
    (map_update k v Box).Represents (map.put k v) := by
  obtain ⟨tree, size⟩ := Box
  obtain ⟨hfind, hsize, hcard⟩ := h
  dsimp only at hfind hsize hcard
  have hmem : tree.contains k = true ↔ k ∈ map.keys := by
    rw [map.mem_keys, ← hfind, Std.TreeMap.contains_eq_isSome_getElem?]
    rfl
  have hpos : k ∈ map.keys → 0 < tree.size := fun hk => hcard ▸ Finset.card_pos.mpr ⟨k, hk⟩
  cases v with
  | none =>
    refine ⟨fun k' => ?_, ?_, ?_⟩
    · simp [map_update, ← hfind, Std.TreeMap.getElem?_erase, Store.lookup_put, eq_comm (a := k)]
    · simp only [map_update, Std.TreeMap.size_erase, hmem]
      split
      · next hk =>
        have := hpos hk
        omega
      · omega
    · simp only [map_update, Std.TreeMap.size_erase, hmem, hcard, Store.put, Option.isSome_none,
        Bool.false_eq_true, if_false, Finset.card_erase_eq_ite]
  | some v =>
    refine ⟨fun k' => ?_, ?_, ?_⟩
    · simp [map_update, ← hfind, Std.TreeMap.getElem?_insert, Store.lookup_put, eq_comm (a := k)]
    · simp only [map_update, Std.TreeMap.size_insert, hmem]
      split <;> omega
    · simp only [map_update, Std.TreeMap.size_insert, hmem, hcard, Store.put, Option.isSome_some,
        if_true, Finset.card_insert_eq_ite]

theorem map_set_eq_update (k : Val ty) (v : value) (Box : Boxed_map ty value) :
    map_set k v Box = map_update k (some v) Box := by
  simp only [map_set, map_update]
  split <;> simp

/-- A call that writes a map. -/
inductive Map_call (ty : Comparable_ty) (value : Type) where
  | map_update (k : Val ty) (v : Option value)
  | map_set (k : Val ty) (v : value)

def Map_call.apply (Box : Boxed_map ty value) : Map_call ty value → Boxed_map ty value
  | .map_update k v => script_ir_translator.map_update k v Box
  | .map_set k v => script_ir_translator.map_set k v Box

/-- What a call does to a finite map. -/
def Map_call.put (map : Store (Val ty) value) : Map_call ty value → Store (Val ty) value
  | .map_update k v => map.put k v
  | .map_set k v => map.put k (some v)

theorem Map_call.apply_represents (h : Box.Represents map) (call : Map_call ty value) :
    (call.apply Box).Represents (call.put map) := by
  cases call with
  | map_update k v => exact map_update_represents h k v
  | map_set k v =>
    change (script_ir_translator.map_set k v Box).Represents _
    rw [map_set_eq_update]
    exact map_update_represents h k (some v)

theorem set_updates_represent (updates : List (Val ty × Bool)) {Box : Boxed_set ty}
    {set : Finset (Val ty)} (h : Box.Represents set) :
    (updates.foldl (fun s u => set_update u.1 u.2 s) Box).Represents
      (updates.foldl (fun s u => if u.2 then insert u.1 s else s.erase u.1) set) := by
  induction updates generalizing Box set with
  | nil => exact h
  | cons u updates ih => exact ih (set_update_represents h u.1 u.2)

theorem map_calls_represent (calls : List (Map_call ty value)) (h : Box.Represents map) :
    (calls.foldl Map_call.apply Box).Represents (calls.foldl Map_call.put map) := by
  induction calls generalizing Box map with
  | nil => exact h
  | cons call calls ih => exact ih (call.apply_represents h)

/-- However a set or a map is built from the empty one, its tree holds what the same updates leave
in a finite set or map, and the size in the box counts it. -/
theorem collection_sizes_exact (ty : Comparable_ty) (value : Type) :
    (∀ updates : List (Val ty × Bool),
      (updates.foldl (fun s u => set_update u.1 u.2 s) (empty_set ty)).Represents
        (updates.foldl (fun s u => if u.2 then insert u.1 s else s.erase u.1) ∅)) ∧
    ∀ calls : List (Map_call ty value),
      (calls.foldl Map_call.apply (empty_map ty)).Represents (calls.foldl Map_call.put .empty) := by
  have hset : (empty_set ty).Represents ∅ := ⟨by simp [empty_set], rfl, rfl⟩
  have hmap : (empty_map ty : Boxed_map ty value).Represents .empty :=
    ⟨by simp [empty_map], rfl, rfl⟩
  exact ⟨fun updates => set_updates_represent updates hset,
    fun calls => map_calls_represent calls hmap⟩

end Boxes

end script_ir_translator

end plexus
