import Mathlib.Data.String.Basic
import Plexus.Gas
import Plexus.Lib.DataEncoding
import Plexus.Lib.FileTree

/-! `Storage_functors`, over a context that is a tree of directories and
values. A signature of the source is a structure whose fields are the functions
it asks for, and a functor is a function between such structures. -/

namespace plexus.storage_functors

open Data_encoding (Bytes Encoding int32 conv)

/-- A key of the context. -/
abbrev Path := List String

/-- What the storage functions read and write of `Raw_context.t`. -/
structure Root_context where
  context : FileTree String Bytes
  operation_gas : Gas
  block_gas : ℤ
  internal_gas : ℤ

inductive Entry where
  | Key (k : Path)
  | Dir (k : Path)

def map_key (f : Path → Path) : Entry → Entry
  | .Key k => .Key (f k)
  | .Dir k => .Dir (f k)

def storage_error {α : Type} (err : Storage_error) : Tzresult α := fail (.Storage_error err)

/-- The signature `Raw_context.T`. -/
structure T where
  t : Type
  mem : t → Path → Bool
  dir_mem : t → Path → Bool
  get : t → Path → Tzresult Bytes
  get_option : t → Path → Option Bytes
  init : t → Path → Bytes → Tzresult t
  set : t → Path → Bytes → Tzresult t
  init_set : t → Path → Bytes → t
  set_opt : t → Path → Option Bytes → t
  delete : t → Path → Tzresult t
  remove : t → Path → t
  remove_rec : t → Path → t
  copy : t → Path → Path → Tzresult t
  fold : {α : Type} → t → Path → α → (Entry → α → Tzresult α) → Tzresult α
  project : t → Root_context
  absolute_key : t → Path → Path
  consume_gas : t → Cost → Tzresult t

namespace Root_context

variable (c : Root_context) (k : Path)

/-- `Context.set` -/
def store (v : Bytes) : Root_context :=
  { c with context := c.context.raw_set k (some (.Key v)) }

/-- `Context.remove_rec`, which is also `Context.del` -/
def erase : Root_context :=
  { c with context := c.context.raw_set k none }

def mem : Bool := (c.context.value_at k).isSome

def dir_mem : Bool :=
  match c.context.raw_get k with
  | some (.Dir _) => true
  | _ => false

def get : Tzresult Bytes :=
  match c.context.value_at k with
  | none => storage_error (.Missing_key (.path k) .Get)
  | some v => .ok v

def get_option : Option Bytes := c.context.value_at k

def set (v : Bytes) : Tzresult Root_context :=
  if c.mem k then .ok (c.store k v) else storage_error (.Missing_key (.path k) .Set)

def init (v : Bytes) : Tzresult Root_context :=
  if c.mem k then storage_error (.Existing_key (.path k)) else .ok (c.store k v)

def set_opt : Option Bytes → Root_context
  | none => c.erase k
  | some v => c.store k v

def delete : Tzresult Root_context :=
  if c.mem k then .ok (c.erase k) else storage_error (.Missing_key (.path k) .Del)

def copy (source target : Path) : Tzresult Root_context :=
  match c.context.raw_get source with
  | none => storage_error (.Missing_key (.path source) .Copy)
  | some v => .ok { c with context := c.context.raw_set target (some v) }

/-- The entries of a directory; there are none where there is no directory. -/
def list : List (String × FileTree String Bytes) :=
  match c.context.raw_get k with
  | some t => t.entries
  | none => []

def entry (k : Path) : FileTree String Bytes → Entry
  | .Key _ => .Key k
  | .Dir _ => .Dir k

def fold {α : Type} (c : Root_context) (k : Path) (init : α) (f : Entry → α → Tzresult α) :
    Tzresult α :=
  (c.list k).foldlM (fun acc e => f (entry (k ++ [e.1]) e.2) acc) init

def consume_gas (cost : Cost) : Tzresult Root_context := do
  let (block_gas, operation_gas, internal_gas) ←
    gas_limit_repr.consume c.block_gas c.operation_gas c.internal_gas cost
  pure { c with block_gas, operation_gas, internal_gas }

end Root_context

/-- `Raw_context` itself. -/
def raw_context : T where
  t := Root_context
  mem := Root_context.mem
  dir_mem := Root_context.dir_mem
  get := Root_context.get
  get_option := Root_context.get_option
  init := Root_context.init
  set := Root_context.set
  init_set := Root_context.store
  set_opt := Root_context.set_opt
  delete := Root_context.delete
  remove := Root_context.erase
  remove_rec := Root_context.erase
  copy := Root_context.copy
  fold := Root_context.fold
  project c := c
  absolute_key _ k := k
  consume_gas := Root_context.consume_gas

/-- `Misc.remove_elem_from_list` -/
def remove_elem_from_list : Nat → Path → Path
  | _, [] => []
  | 0, l => l
  | nb + 1, _ :: tl => remove_elem_from_list nb tl

/-- `Misc.take` -/
def take (n : Nat) (l : Path) : Option (Path × Path) :=
  if n ≤ l.length then some (l.take n, l.drop n) else none

/-- The signature `VALUE`: what is written can be read. -/
structure VALUE where
  t : Type
  to_bytes : t → Option Bytes
  of_bytes : Bytes → Option t
  of_to : ∀ v b, to_bytes v = some b → of_bytes b = some v

namespace Make_encoder

def of_bytes (V : VALUE) (key : Path) (b : Bytes) : Tzresult V.t :=
  match V.of_bytes b with
  | none => storage_error (.Corrupted_data (.path key))
  | some v => .ok v

/-- A value that its encoding cannot write is stored as no bytes. -/
def to_bytes (V : VALUE) (v : V.t) : Bytes :=
  match V.to_bytes v with
  | some b => b
  | none => []

end Make_encoder

/-! `Make_subcontext` -/

def Make_subcontext (C : T) (name : Path) : T where
  t := C.t
  mem t k := C.mem t (name ++ k)
  dir_mem t k := C.dir_mem t (name ++ k)
  get t k := C.get t (name ++ k)
  get_option t k := C.get_option t (name ++ k)
  init t k v := C.init t (name ++ k) v
  set t k v := C.set t (name ++ k) v
  init_set t k v := C.init_set t (name ++ k) v
  set_opt t k v := C.set_opt t (name ++ k) v
  delete t k := C.delete t (name ++ k)
  remove t k := C.remove t (name ++ k)
  remove_rec t k := C.remove_rec t (name ++ k)
  copy t source target := C.copy t (name ++ source) (name ++ target)
  fold t k init f :=
    C.fold t (name ++ k) init fun k acc => f (map_key (remove_elem_from_list name.length) k) acc
  project := C.project
  absolute_key c k := C.absolute_key c (name ++ k)
  consume_gas := C.consume_gas

/-! Indexes -/

/-- The signature `INDEX`. `of_path` may meet an assertion. -/
structure INDEX where
  t : Type
  path_length : Nat
  to_path : t → Path → Path
  of_path : Path → Tzresult (Option t)

def Pair (I1 I2 : INDEX) : INDEX where
  t := I1.t × I2.t
  path_length := I1.path_length + I2.path_length
  to_path := fun (x, y) l => I1.to_path x (I2.to_path y l)
  of_path l :=
    match take I1.path_length l with
    | none => .ok none
    | some (l1, l2) => do
      let y ← I2.of_path l2
      let x ← I1.of_path l1
      match x, y with
      | some x, some y => pure (some (x, y))
      | _, _ => pure none

instance (I1 I2 : INDEX) [DecidableEq I1.t] [DecidableEq I2.t] : DecidableEq (Pair I1 I2).t :=
  inferInstanceAs (DecidableEq (I1.t × I2.t))

/-- The key that a path of the walk stands for. -/
def key_of_path {α : Type} (I : INDEX) (path : Path) (f : I.t → α → Tzresult α) (acc : α) :
    Tzresult α := do
  match ← I.of_path path with
  | none => .raise .Assert_of_path
  | some p => f p acc

/-- The walk of `Make_data_set_storage` and `Make_indexed_data_storage`: down
`i` levels of directories, to the values of the last one. -/
def dig_keys {α : Type} (C : T) (I : INDEX) (s : C.t) (f : I.t → α → Tzresult α) :
    Nat → Path → α → Tzresult α
  | i + 2, path, acc => C.fold s path acc fun k acc =>
    match k with
    | .Dir k => dig_keys C I s f (i + 1) k acc
    | .Key _ => .ok acc
  | _, path, acc => C.fold s path acc fun k acc =>
    match k with
    | .Dir _ => .ok acc
    | .Key file => key_of_path I file f acc

/-! `Make_data_set_storage` -/

structure Data_set_storage (t elt : Type) where
  mem : t → elt → Bool
  add : t → elt → Root_context
  del : t → elt → Root_context
  set : t → elt → Bool → Root_context
  elements : t → Tzresult (List elt)
  fold : {α : Type} → t → α → (elt → α → Tzresult α) → Tzresult α
  clear : t → Tzresult Root_context

/-- The bytes of `inited`. -/
def inited : Bytes := [105, 110, 105, 116, 101, 100]

namespace Make_data_set_storage

variable (C : T) (I : INDEX)

def add (s : C.t) (i : I.t) : Root_context := C.project (C.init_set s (I.to_path i []) inited)

def del (s : C.t) (i : I.t) : Root_context := C.project (C.remove s (I.to_path i []))

def fold {α : Type} (s : C.t) (init : α) (f : I.t → α → Tzresult α) : Tzresult α :=
  dig_keys C I s f I.path_length [] init

end Make_data_set_storage

def Make_data_set_storage (C : T) (I : INDEX) : Data_set_storage C.t I.t where
  mem s i := C.mem s (I.to_path i [])
  add := Make_data_set_storage.add C I
  del := Make_data_set_storage.del C I
  set s i b := if b then Make_data_set_storage.add C I s i else Make_data_set_storage.del C I s i
  elements s := Make_data_set_storage.fold C I s [] fun p acc => .ok (p :: acc)
  fold := Make_data_set_storage.fold C I
  clear s := .ok (C.project (C.remove_rec s []))

/-! `Make_indexed_data_storage` -/

/-- A round of `fold`: data that cannot be read is silently ignored. -/
def with_value {α β : Type} (x : Tzresult β) (f : β → α → Tzresult α) (acc : α) : Tzresult α := do
  match ← x.attempt with
  | .error _ => pure acc
  | .ok v => f v acc

structure Indexed_data_storage (t key value : Type) where
  mem : t → key → Bool
  get : t → key → Tzresult value
  get_option : t → key → Tzresult (Option value)
  set : t → key → value → Tzresult Root_context
  init : t → key → value → Tzresult Root_context
  init_set : t → key → value → Root_context
  set_opt : t → key → Option value → Root_context
  delete : t → key → Tzresult Root_context
  remove : t → key → Root_context
  clear : t → Tzresult Root_context
  keys : t → Tzresult (List key)
  bindings : t → Tzresult (List (key × value))
  fold : {α : Type} → t → α → (key → value → α → Tzresult α) → Tzresult α
  fold_keys : {α : Type} → t → α → (key → α → Tzresult α) → Tzresult α

namespace Make_indexed_data_storage

variable (C : T) (I : INDEX) (V : VALUE)

def get (s : C.t) (i : I.t) : Tzresult V.t := do
  let b ← C.get s (I.to_path i [])
  Make_encoder.of_bytes V (C.absolute_key s (I.to_path i [])) b

def fold_keys {α : Type} (s : C.t) (init : α) (f : I.t → α → Tzresult α) : Tzresult α :=
  dig_keys C I s f I.path_length [] init

def fold {α : Type} (s : C.t) (init : α) (f : I.t → V.t → α → Tzresult α) : Tzresult α :=
  fold_keys C I s init fun path acc => with_value (get C I V s path) (f path) acc

end Make_indexed_data_storage

def Make_indexed_data_storage (C : T) (I : INDEX) (V : VALUE) :
    Indexed_data_storage C.t I.t V.t where
  mem s i := C.mem s (I.to_path i [])
  get := Make_indexed_data_storage.get C I V
  get_option s i :=
    match C.get_option s (I.to_path i []) with
    | none => .ok none
    | some b => some <$> Make_encoder.of_bytes V (C.absolute_key s (I.to_path i [])) b
  set s i v := C.project <$> C.set s (I.to_path i []) (Make_encoder.to_bytes V v)
  init s i v := C.project <$> C.init s (I.to_path i []) (Make_encoder.to_bytes V v)
  init_set s i v := C.project (C.init_set s (I.to_path i []) (Make_encoder.to_bytes V v))
  set_opt s i v :=
    C.project (C.set_opt s (I.to_path i []) (v.map (Make_encoder.to_bytes V)))
  remove s i := C.project (C.remove s (I.to_path i []))
  delete s i := C.project <$> C.delete s (I.to_path i [])
  clear s := .ok (C.project (C.remove_rec s []))
  fold_keys := Make_indexed_data_storage.fold_keys C I
  fold := Make_indexed_data_storage.fold C I V
  bindings s := Make_indexed_data_storage.fold C I V s [] fun p v acc => .ok ((p, v) :: acc)
  keys s := Make_indexed_data_storage.fold_keys C I s [] fun p acc => .ok (p :: acc)

/-! `Make_indexed_data_snapshotable_storage` -/

structure Indexed_data_snapshotable_storage (t id key value : Type)
    extends Indexed_data_storage t key value where
  Snapshot : Indexed_data_storage t (id × key) value
  snapshot_exists : t → id → Bool
  snapshot : t → id → Tzresult Root_context
  delete_snapshot : t → id → Root_context

namespace Make_indexed_data_snapshotable_storage

def data_name : Path := ["current"]

def snapshot_name : Path := ["snapshot"]

def snapshot_path (Snapshot_index : INDEX) (id : Snapshot_index.t) : Path :=
  snapshot_name ++ Snapshot_index.to_path id []

def C_data (C : T) : T := Make_subcontext C data_name

def C_snapshot (C : T) : T := Make_subcontext C snapshot_name

def snapshot (C : T) (Snapshot_index : INDEX) (s : C.t) (id : Snapshot_index.t) :
    Tzresult Root_context :=
  C.project <$> C.copy s data_name (snapshot_path Snapshot_index id)

def delete_snapshot (C : T) (Snapshot_index : INDEX) (s : C.t) (id : Snapshot_index.t) :
    Root_context :=
  C.project (C.remove_rec s (snapshot_path Snapshot_index id))

def snapshot_exists (C : T) (Snapshot_index : INDEX) (s : C.t) (id : Snapshot_index.t) : Bool :=
  C.dir_mem s (snapshot_path Snapshot_index id)

end Make_indexed_data_snapshotable_storage

def Make_indexed_data_snapshotable_storage (C : T) (Snapshot_index I : INDEX) (V : VALUE) :
    Indexed_data_snapshotable_storage C.t Snapshot_index.t I.t V.t where
  toIndexed_data_storage :=
    Make_indexed_data_storage (Make_indexed_data_snapshotable_storage.C_data C) I V
  Snapshot :=
    Make_indexed_data_storage (Make_indexed_data_snapshotable_storage.C_snapshot C)
      (Pair Snapshot_index I) V
  snapshot_exists := Make_indexed_data_snapshotable_storage.snapshot_exists C Snapshot_index
  snapshot := Make_indexed_data_snapshotable_storage.snapshot C Snapshot_index
  delete_snapshot := Make_indexed_data_snapshotable_storage.delete_snapshot C Snapshot_index

/-! `Make_indexed_subcontext` -/

namespace Make_indexed_subcontext

variable (C : T) (I : INDEX)

/-- The walk down `i` levels of directories, to the directories of the last
one. -/
def dig {α : Type} (t : C.t) (f : I.t → α → Tzresult α) : Nat → Path → α → Tzresult α
  | 0, path, acc => key_of_path I path f acc
  | i + 1, path, acc => C.fold t path acc fun k acc =>
    match k with
    | .Dir k => dig t f i k acc
    | .Key _ => .ok acc

def fold_keys {α : Type} (t : C.t) (init : α) (f : I.t → α → Tzresult α) : Tzresult α :=
  dig C I t f I.path_length [] init

/-- The context below one key; `pack` and `unpack` of the source are pairing. -/
def Raw_context : T where
  t := C.t × I.t
  mem := fun (t, i) k => C.mem t (I.to_path i k)
  dir_mem := fun (t, i) k => C.dir_mem t (I.to_path i k)
  get := fun (t, i) k => C.get t (I.to_path i k)
  get_option := fun (t, i) k => C.get_option t (I.to_path i k)
  init := fun (t, i) k v => (·, i) <$> C.init t (I.to_path i k) v
  set := fun (t, i) k v => (·, i) <$> C.set t (I.to_path i k) v
  init_set := fun (t, i) k v => (C.init_set t (I.to_path i k) v, i)
  set_opt := fun (t, i) k v => (C.set_opt t (I.to_path i k) v, i)
  delete := fun (t, i) k => (·, i) <$> C.delete t (I.to_path i k)
  remove := fun (t, i) k => (C.remove t (I.to_path i k), i)
  remove_rec := fun (t, i) k => (C.remove_rec t (I.to_path i k), i)
  copy := fun (t, i) source target =>
    (·, i) <$> C.copy t (I.to_path i source) (I.to_path i target)
  fold := fun (t, i) k init f =>
    C.fold t (I.to_path i k) init fun k acc =>
      f (map_key (remove_elem_from_list I.path_length) k) acc
  project := fun (t, _) => C.project t
  absolute_key := fun (t, i) k => C.absolute_key t (I.to_path i k)
  consume_gas := fun (t, i) g => (·, i) <$> C.consume_gas t g

namespace Make_set

variable (name : Path)

def mem (s : C.t) (i : I.t) : Bool := (Raw_context C I).mem (s, i) name

def add (s : C.t) (i : I.t) : Root_context :=
  C.project ((Raw_context C I).init_set (s, i) name inited).1

def del (s : C.t) (i : I.t) : Root_context := C.project ((Raw_context C I).remove (s, i) name).1

def fold {α : Type} (s : C.t) (init : α) (f : I.t → α → Tzresult α) : Tzresult α :=
  fold_keys C I s init fun i acc => if mem C I name s i then f i acc else .ok acc

/-- `clear` of `Make_set` and of `Make_map`: every key of the walk is removed
in turn. -/
def clear (s : C.t) : Tzresult Root_context :=
  C.project <$> fold_keys C I s s fun i s => .ok ((Raw_context C I).remove (s, i) name).1

end Make_set

def Make_set (name : Path) : Data_set_storage C.t I.t where
  mem := Make_set.mem C I name
  add := Make_set.add C I name
  del := Make_set.del C I name
  set s i b := if b then Make_set.add C I name s i else Make_set.del C I name s i
  elements s := Make_set.fold C I name s [] fun p acc => .ok (p :: acc)
  fold := Make_set.fold C I name
  clear := Make_set.clear C I name

namespace Make_map

variable (name : Path) (V : VALUE)

def mem (s : C.t) (i : I.t) : Bool := (Raw_context C I).mem (s, i) name

def get (s : C.t) (i : I.t) : Tzresult V.t := do
  let b ← (Raw_context C I).get (s, i) name
  Make_encoder.of_bytes V ((Raw_context C I).absolute_key (s, i) name) b

def fold {α : Type} (s : C.t) (init : α) (f : I.t → V.t → α → Tzresult α) : Tzresult α :=
  Make_indexed_subcontext.fold_keys C I s init fun i acc => with_value (get C I name V s i) (f i) acc

def fold_keys {α : Type} (s : C.t) (init : α) (f : I.t → α → Tzresult α) : Tzresult α :=
  Make_indexed_subcontext.fold_keys C I s init fun i acc =>
    if mem C I name s i then f i acc else .ok acc

end Make_map

def Make_map (name : Path) (V : VALUE) : Indexed_data_storage C.t I.t V.t where
  mem := Make_map.mem C I name
  get := Make_map.get C I name V
  get_option s i :=
    match (Raw_context C I).get_option (s, i) name with
    | none => .ok none
    | some b => some <$> Make_encoder.of_bytes V ((Raw_context C I).absolute_key (s, i) name) b
  set s i v :=
    (fun c => C.project c.1) <$> (Raw_context C I).set (s, i) name (Make_encoder.to_bytes V v)
  init s i v :=
    (fun c => C.project c.1) <$> (Raw_context C I).init (s, i) name (Make_encoder.to_bytes V v)
  init_set s i v :=
    C.project ((Raw_context C I).init_set (s, i) name (Make_encoder.to_bytes V v)).1
  set_opt s i v :=
    C.project ((Raw_context C I).set_opt (s, i) name (v.map (Make_encoder.to_bytes V))).1
  remove s i := C.project ((Raw_context C I).remove (s, i) name).1
  delete s i := (fun c => C.project c.1) <$> (Raw_context C I).delete (s, i) name
  clear := Make_set.clear C I name
  fold := Make_map.fold C I name V
  bindings s := Make_map.fold C I name V s [] fun p v acc => .ok ((p, v) :: acc)
  fold_keys := Make_map.fold_keys C I name
  keys s := Make_map.fold_keys C I name s [] fun p acc => .ok (p :: acc)

end Make_indexed_subcontext

end plexus.storage_functors
