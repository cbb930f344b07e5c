import Plexus.Accessors.Functors

/-! Every context that the functors build is a window on the tree of the root
context: it reads and writes at its own location. -/

namespace plexus.storage_functors

open FileTree (Apart)

theorem remove_elem_from_list_eq (n : Nat) : remove_elem_from_list n = List.drop n := by
  funext l
  induction n generalizing l with
  | zero => cases l <;> rfl
  | succ n ih =>
    cases l with
    | nil => rfl
    | cons x l => exact ih l

theorem map_key_drop_drop (n m : Nat) (e : Entry) :
    map_key (List.drop n) (map_key (List.drop m) e) = map_key (List.drop (m + n)) e := by
  cases e <;> simp [map_key]

/-- An index whose paths have a fixed length and can be read back. -/
class Lawful_index (I : INDEX) : Prop where
  to_path_append : ∀ i l, I.to_path i l = I.to_path i [] ++ l
  to_path_length : ∀ i, (I.to_path i []).length = I.path_length
  of_path_to_path : ∀ i, I.of_path (I.to_path i []) = .ok (some i)

namespace Lawful_index

variable {I : INDEX} [Lawful_index I]

theorem to_path_injective {i j : I.t} (h : I.to_path i [] = I.to_path j []) : i = j := by
  have hi := of_path_to_path i
  rw [h, of_path_to_path] at hi
  cases hi
  rfl

theorem apart {i j : I.t} (h : i ≠ j) : Apart (I.to_path i []) (I.to_path j []) := by
  apply FileTree.apart_of_length_eq
  · rw [to_path_length, to_path_length]
  · intro heq
    exact h (to_path_injective heq)

theorem append_to_path (l : Path) (i : I.t) (k : Path) :
    l ++ I.to_path i [] ++ k = l ++ I.to_path i k := by
  rw [List.append_assoc, ← to_path_append]

end Lawful_index

open Lawful_index

instance (I1 I2 : INDEX) [Lawful_index I1] [Lawful_index I2] : Lawful_index (Pair I1 I2) where
  to_path_append := by
    rintro ⟨x, y⟩ l
    show I1.to_path x (I2.to_path y l) = I1.to_path x (I2.to_path y []) ++ l
    rw [to_path_append x, to_path_append y l, to_path_append x (I2.to_path y []),
      List.append_assoc]
  to_path_length := by
    rintro ⟨x, y⟩
    show (I1.to_path x (I2.to_path y [])).length = I1.path_length + I2.path_length
    rw [to_path_append, List.length_append, to_path_length, to_path_length]
  of_path_to_path := by
    rintro ⟨x, y⟩
    have hlength := to_path_length x
    have htake : take I1.path_length (I1.to_path x (I2.to_path y [])) =
        some (I1.to_path x [], I2.to_path y []) := by
      rw [to_path_append, take, if_pos, List.take_left' hlength, List.drop_left' hlength]
      rw [List.length_append, hlength]
      omega
    show (match take I1.path_length (I1.to_path x (I2.to_path y [])) with
      | none => Result.ok none
      | some (l1, l2) => _) = _
    rw [htake]
    dsimp only
    rw [of_path_to_path, of_path_to_path]
    rfl

/-- A context that stands for the root context seen from a location. -/
class Rooted (C : T) where
  location : C.t → Path
  refocus : C.t → Root_context → C.t
  project_refocus : ∀ c r, C.project (refocus c r) = r
  refocus_project : ∀ c, refocus c (C.project c) = c
  refocus_refocus : ∀ c r r', refocus (refocus c r) r' = refocus c r'
  location_refocus : ∀ c r, location (refocus c r) = location c
  absolute_key : ∀ c k, C.absolute_key c k = location c ++ k
  mem : ∀ c k, C.mem c k = (C.project c).mem (location c ++ k)
  dir_mem : ∀ c k, C.dir_mem c k = (C.project c).dir_mem (location c ++ k)
  get : ∀ c k, C.get c k = (C.project c).get (location c ++ k)
  get_option : ∀ c k, C.get_option c k = (C.project c).get_option (location c ++ k)
  init : ∀ c k v, C.init c k v = refocus c <$> (C.project c).init (location c ++ k) v
  set : ∀ c k v, C.set c k v = refocus c <$> (C.project c).set (location c ++ k) v
  init_set : ∀ c k v, C.init_set c k v = refocus c ((C.project c).store (location c ++ k) v)
  set_opt : ∀ c k v, C.set_opt c k v = refocus c ((C.project c).set_opt (location c ++ k) v)
  delete : ∀ c k, C.delete c k = refocus c <$> (C.project c).delete (location c ++ k)
  remove : ∀ c k, C.remove c k = refocus c ((C.project c).erase (location c ++ k))
  remove_rec : ∀ c k, C.remove_rec c k = refocus c ((C.project c).erase (location c ++ k))
  copy : ∀ c source target, C.copy c source target =
    refocus c <$> (C.project c).copy (location c ++ source) (location c ++ target)
  fold : ∀ {α : Type} c k (acc : α) f, C.fold c k acc f =
    (C.project c).fold (location c ++ k) acc
      fun e acc => f (map_key (List.drop (location c).length) e) acc
  consume_gas : ∀ c cost, C.consume_gas c cost = refocus c <$> (C.project c).consume_gas cost

theorem map_key_id (e : Entry) : map_key (List.drop 0) e = e := by
  cases e <;> rfl

instance : Rooted raw_context where
  location _ := []
  refocus _ r := r
  project_refocus _ _ := rfl
  refocus_project _ := rfl
  refocus_refocus _ _ _ := rfl
  location_refocus _ _ := rfl
  absolute_key _ _ := rfl
  mem _ _ := rfl
  dir_mem _ _ := rfl
  get _ _ := rfl
  get_option _ _ := rfl
  init _ _ _ := (id_map' _).symm
  set _ _ _ := (id_map' _).symm
  init_set _ _ _ := rfl
  set_opt _ _ _ := rfl
  delete _ _ := (id_map' _).symm
  remove _ _ := rfl
  remove_rec _ _ := rfl
  copy _ _ _ := (id_map' _).symm
  fold c k acc f := by
    simp only [List.length_nil, map_key_id]
    rfl
  consume_gas _ _ := (id_map' _).symm

instance (C : T) (name : Path) [Rooted C] : Rooted (Make_subcontext C name) where
  location c := Rooted.location (C := C) c ++ name
  refocus := Rooted.refocus (C := C)
  project_refocus := Rooted.project_refocus (C := C)
  refocus_project := Rooted.refocus_project (C := C)
  refocus_refocus := Rooted.refocus_refocus (C := C)
  location_refocus c r := congrArg (· ++ name) (Rooted.location_refocus (C := C) c r)
  absolute_key c k := (Rooted.absolute_key (C := C) c _).trans (List.append_assoc _ _ _).symm
  mem c k := by
    rw [List.append_assoc]
    exact Rooted.mem (C := C) c _
  dir_mem c k := by
    rw [List.append_assoc]
    exact Rooted.dir_mem (C := C) c _
  get c k := by
    rw [List.append_assoc]
    exact Rooted.get (C := C) c _
  get_option c k := by
    rw [List.append_assoc]
    exact Rooted.get_option (C := C) c _
  init c k v := by
    rw [List.append_assoc]
    exact Rooted.init (C := C) c _ v
  set c k v := by
    rw [List.append_assoc]
    exact Rooted.set (C := C) c _ v
  init_set c k v := by
    rw [List.append_assoc]
    exact Rooted.init_set (C := C) c _ v
  set_opt c k v := by
    rw [List.append_assoc]
    exact Rooted.set_opt (C := C) c _ v
  delete c k := by
    rw [List.append_assoc]
    exact Rooted.delete (C := C) c _
  remove c k := by
    rw [List.append_assoc]
    exact Rooted.remove (C := C) c _
  remove_rec c k := by
    rw [List.append_assoc]
    exact Rooted.remove_rec (C := C) c _
  copy c source target := by
    rw [List.append_assoc, List.append_assoc]
    exact Rooted.copy (C := C) c _ _
  fold c k acc f := by
    rw [List.append_assoc]
    refine (Rooted.fold (C := C) c (name ++ k) acc _).trans ?_
    congr 1
    funext e acc
    rw [remove_elem_from_list_eq, map_key_drop_drop, List.length_append]
  consume_gas := Rooted.consume_gas (C := C)

instance (C : T) (I : INDEX) [Rooted C] [Lawful_index I] :
    Rooted (Make_indexed_subcontext.Raw_context C I) where
  location c := Rooted.location c.1 ++ I.to_path c.2 []
  refocus c r := (Rooted.refocus c.1 r, c.2)
  project_refocus c := Rooted.project_refocus c.1
  refocus_project c := Prod.ext (Rooted.refocus_project c.1) rfl
  refocus_refocus c r r' := Prod.ext (Rooted.refocus_refocus c.1 r r') rfl
  location_refocus c r := by rw [Rooted.location_refocus]
  absolute_key c k := by
    rw [append_to_path]
    exact Rooted.absolute_key c.1 _
  mem c k := by
    rw [append_to_path]
    exact Rooted.mem c.1 _
  dir_mem c k := by
    rw [append_to_path]
    exact Rooted.dir_mem c.1 _
  get c k := by
    rw [append_to_path]
    exact Rooted.get c.1 _
  get_option c k := by
    rw [append_to_path]
    exact Rooted.get_option c.1 _
  init c k v := by
    rw [append_to_path]
    show (·, c.2) <$> C.init c.1 (I.to_path c.2 k) v = _
    rw [Rooted.init, ← comp_map]
    rfl
  set c k v := by
    rw [append_to_path]
    show (·, c.2) <$> C.set c.1 (I.to_path c.2 k) v = _
    rw [Rooted.set, ← comp_map]
    rfl
  init_set c k v := by
    rw [append_to_path]
    exact Prod.ext (Rooted.init_set c.1 _ v) rfl
  set_opt c k v := by
    rw [append_to_path]
    exact Prod.ext (Rooted.set_opt c.1 _ v) rfl
  delete c k := by
    rw [append_to_path]
    show (·, c.2) <$> C.delete c.1 (I.to_path c.2 k) = _
    rw [Rooted.delete, ← comp_map]
    rfl
  remove c k := by
    rw [append_to_path]
    exact Prod.ext (Rooted.remove c.1 _) rfl
  remove_rec c k := by
    rw [append_to_path]
    exact Prod.ext (Rooted.remove_rec c.1 _) rfl
  copy c source target := by
    rw [append_to_path, append_to_path]
    show (·, c.2) <$> C.copy c.1 (I.to_path c.2 source) (I.to_path c.2 target) = _
    rw [Rooted.copy, ← comp_map]
    rfl
  fold c k acc f := by
    rw [append_to_path]
    refine (Rooted.fold c.1 (I.to_path c.2 k) acc _).trans ?_
    congr 1
    funext e acc
    rw [remove_elem_from_list_eq, map_key_drop_drop, List.length_append, to_path_length]
  consume_gas c cost := by
    show (·, c.2) <$> C.consume_gas c.1 cost = _
    rw [Rooted.consume_gas, ← comp_map]
    rfl

end plexus.storage_functors
