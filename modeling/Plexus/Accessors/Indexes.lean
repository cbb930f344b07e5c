import Plexus.Accessors.Rooted
import Plexus.Encoding.OperationCanonicity
import Plexus.Lib.IntOfString

/-! The indexes of `Storage`: how keys are spelled as paths. -/

namespace plexus.storage_tree

open Result Nat String

open Data_encoding (Bytes Fixed)
open storage_functors (Path INDEX Lawful_index take)
open operation_encoding (contract_encoding)
open IntOfString (format_int parse_digit parse_intnat parse_intnat_format_int)

/-- Contracts and keys are known by their bytes. -/
abbrev Contract := operation_encoding.Contract

abbrev Public_key_hash := operation_encoding.Public_key_hash

deriving instance DecidableEq for operation_encoding.Public_key_hash
deriving instance DecidableEq for operation_encoding.Contract

/-- The functions of other libraries that paths are made with. -/
class Primitives where
  /-- `Raw_hashes.blake2b` -/
  blake2b : Bytes → Fixed 32
  /-- `Data_encoding.Binary.to_bytes_exn Z.encoding` -/
  z_to_bytes : ℤ → Bytes
  /-- `Z.to_string` -/
  z_to_string : ℤ → String
  /-- `Z.of_string` -/
  z_of_string : String → Option ℤ
  z_of_to : ∀ z, z_of_string (z_to_string z) = some z

/-! Integers of OCaml -/

/-- The type `int` -/
abbrev Int63 := {n : ℤ // -2 ^ 62 ≤ n ∧ n < 2 ^ 62}

def string_of_int (n : Int63) : String := format_int n.val

theorem bmod_range (n : ℤ) : -2 ^ 62 ≤ n.bmod (2 ^ 63) ∧ n.bmod (2 ^ 63) < 2 ^ 62 :=
  ⟨Int.le_bmod (by decide), Int.bmod_lt (by decide)⟩

/-- The value is wrapped to 63 bits where the digits are those of an unsigned
integer. -/
def int_of_string_opt (s : String) : Option Int63 :=
  (parse_intnat 63 s).map fun n => ⟨n.bmod (2 ^ 63), bmod_range n⟩

/-- What is written for an integer is read as that integer. -/
@[simp] theorem int_of_string_of_int (n : Int63) :
    int_of_string_opt (string_of_int n) = some n := by
  obtain ⟨n, hlow, hhigh⟩ := n
  have hbmod : n.bmod (2 ^ 63) = n := Int.bmod_eq_of_le (by simpa using hlow) (by simpa using hhigh)
  simp only [int_of_string_opt, string_of_int, parse_intnat_format_int 63 hlow hhigh,
    Option.map_some, hbmod]

/-- `Int32.to_string` -/
def int32_to_string (n : Int32) : String := format_int n.toInt

/-- `Int32.of_string` -/
def int32_of_string (s : String) : Option Int32 := (parse_intnat 32 s).map Int32.ofInt

/-- The same for integers of 32 bits. -/
@[simp] theorem int32_of_to (n : Int32) : int32_of_string (int32_to_string n) = some n := by
  rw [int32_of_string, int32_to_string,
    parse_intnat_format_int 32 n.le_toInt n.toInt_lt, Option.map_some, Int32.ofInt_toInt]

/-! Strings of hexadecimal digits. -/

def hex_of_byte (x : UInt8) : List Char :=
  [Nat.digitChar (x.toNat / 16), Nat.digitChar (x.toNat % 16)]

/-- `MBytes.to_hex` and `Hex.of_string` -/
def to_hex (b : Bytes) : String := String.ofList (b.flatMap hex_of_byte)

def hex_value (c : Char) : Option Nat := parse_digit c

def bytes_of_hex : List Char → Option Bytes
  | [] => some []
  | [_] => none
  | c :: c' :: l => do
    let high ← hex_value c
    let low ← hex_value c'
    let rest ← bytes_of_hex l
    some (UInt8.ofNat (16 * high + low) :: rest)

/-- `MBytes.of_hex` and `Hex.to_string`, which raise an exception on what is
not a string of digits -/
def of_hex (s : String) : Tzresult Bytes :=
  match bytes_of_hex s.toList with
  | some b => .ok b
  | none => .raise .Invalid_argument_hex

/-- `String.sub` -/
def sub (s : String) (start length : Nat) : String :=
  String.ofList ((s.toList.drop start).take length)

/-- `String.concat ""` -/
def concat (l : List String) : String := String.ofList (l.flatMap String.toList)

theorem hex_value_digitChar : ∀ n : Fin 16, hex_value (digitChar n) = some n.val := by
  decide

theorem bytes_of_hex_flatMap (b : Bytes) : bytes_of_hex (b.flatMap hex_of_byte) = some b := by
  induction b with
  | nil => rfl
  | cons x b ih =>
    have hx : x.toNat < 256 := x.toNat_lt
    have hhigh := hex_value_digitChar ⟨x.toNat / 16, by omega⟩
    have hlow := hex_value_digitChar ⟨x.toNat % 16, by omega⟩
    have hsum : 16 * (x.toNat / 16) + x.toNat % 16 = x.toNat := by omega
    simp only [List.flatMap_cons, hex_of_byte, List.cons_append, List.nil_append, bytes_of_hex] at *
    rw [hhigh, hlow]
    simp only [Option.bind_eq_bind, Option.bind_some, hsum, UInt8.ofNat_toNat]
    rw [show bytes_of_hex _ = some b from ih]
    rfl

/-- What is written in hexadecimal digits is read back. -/
@[simp] theorem of_hex_to_hex (b : Bytes) : of_hex (to_hex b) = .ok b := by
  rw [of_hex, to_hex, toList_ofList, bytes_of_hex_flatMap]

theorem length_to_hex (b : Bytes) : (to_hex b).toList.length = 2 * b.length := by
  rw [to_hex, toList_ofList]
  induction b with
  | nil => rfl
  | cons x b ih =>
    rw [List.flatMap_cons, List.length_append, ih, List.length_cons]
    simp only [hex_of_byte, List.length_cons, List.length_nil]
    omega

/-! Hashes: the digits, one byte at a time for the first five. -/

section Hash

variable {n : Nat}

/-- `Blake2B.to_path` -/
def hash_to_path (key : Fixed n) (l : Path) : Path :=
  let key := to_hex key.val
  sub key 0 2 :: sub key 2 2 :: sub key 4 2 :: sub key 6 2 :: sub key 8 2 ::
    sub key 10 (n * 2 - 10) :: l

/-- `Blake2B.of_path` -/
def hash_of_path (n : Nat) (path : Path) : Tzresult (Option (Fixed n)) := do
  let b ← of_hex (concat path)
  pure (if h : b.length = n then some ⟨b, h⟩ else none)

/-- The parts of a path are the digits of the hash. -/
theorem concat_hash_to_path (key : Fixed n) : concat (hash_to_path key []) = to_hex key.val := by
  have hlength : (to_hex key.val).toList.length = n * 2 := by
    rw [length_to_hex, key.property, mul_comm]
  have hlast : ((to_hex key.val).toList.drop 10).take (n * 2 - 10) =
      (to_hex key.val).toList.drop 10 := by
    apply List.take_of_length_le
    rw [List.length_drop, hlength]
  have hsplit (l : List Char) (k : Nat) : (l.drop k).take 2 ++ l.drop (k + 2) = l.drop k := by
    rw [← List.drop_drop, List.take_append_drop]
  rw [hash_to_path, concat]
  simp only [sub, List.flatMap_cons, List.flatMap_nil, toList_ofList, List.append_nil]
  rw [hlast, hsplit, hsplit, hsplit, hsplit, hsplit, List.drop_zero, ofList_toList]

/-- A hash is read back from its path. -/
theorem hash_of_path_hash_to_path (key : Fixed n) :
    hash_of_path n (hash_to_path key []) = .ok (some key) := by
  rw [hash_of_path, concat_hash_to_path, of_hex_to_hex, bind_ok, dif_pos key.property]
  rfl

def hash_index (n : Nat) : INDEX where
  t := Fixed n
  path_length := 6
  to_path := hash_to_path
  of_path := hash_of_path n

instance (n : Nat) : Lawful_index (hash_index n) where
  to_path_append _ _ := rfl
  to_path_length _ := rfl
  of_path_to_path := hash_of_path_hash_to_path

end Hash

/-! `Signature.Public_key_hash` -/

def public_key_hash_to_path : Public_key_hash → Path → Path
  | .Ed25519 h, l => "ed25519" :: hash_to_path h l
  | .Secp256k1 h, l => "secp256k1" :: hash_to_path h l
  | .P256 h, l => "p256" :: hash_to_path h l

def public_key_hash_of_path : Path → Tzresult (Option Public_key_hash)
  | [] => .raise .Assert_public_key_hash_path
  | name :: q =>
    if name = "ed25519" then Option.map .Ed25519 <$> hash_of_path 20 q
    else if name = "secp256k1" then Option.map .Secp256k1 <$> hash_of_path 20 q
    else if name = "p256" then Option.map .P256 <$> hash_of_path 20 q
    else .raise .Assert_public_key_hash_path

/-- So is the hash of a key, behind its kind. -/
theorem public_key_hash_of_path_to_path (key : Public_key_hash) :
    public_key_hash_of_path (public_key_hash_to_path key []) = .ok (some key) := by
  cases key <;>
    simp [public_key_hash_to_path, public_key_hash_of_path, hash_of_path_hash_to_path] <;> rfl

def public_key_hash_index : INDEX where
  t := Public_key_hash
  path_length := 7
  to_path := public_key_hash_to_path
  of_path := public_key_hash_of_path

instance : Lawful_index public_key_hash_index where
  to_path_append := by rintro (h | h | h) l <;> rfl
  to_path_length := by rintro (h | h | h) <;> rfl
  of_path_to_path := public_key_hash_of_path_to_path

/-! Keys behind the first digits of a hash. -/

section Hashed

variable [Primitives]

/-- The path of `Contract_repr.Index` and `Big_map.Index`: six bytes of the
hash of the raw key, and the key. -/
def hashed_to_path (raw_key : Bytes) (key : String) (l : Path) : Path :=
  let index_key := to_hex (Primitives.blake2b raw_key).val
  sub index_key 0 2 :: sub index_key 2 2 :: sub index_key 4 2 :: sub index_key 6 2 ::
    sub index_key 8 2 :: sub index_key 10 2 :: key :: l

/-- The assertions on the first digits. -/
def check_index_key (raw_key : Bytes) (digits : Path) : Tzresult Unit :=
  let index_key := to_hex (Primitives.blake2b raw_key).val
  if [sub index_key 0 2, sub index_key 2 2, sub index_key 4 2, sub index_key 6 2,
      sub index_key 8 2, sub index_key 10 2] = digits then .ok ()
  else .raise .Assert_index_key

/-- The digits in front of a key are those of its hash. -/
theorem check_index_key_self (raw_key : Bytes) :
    let index_key := to_hex (Primitives.blake2b raw_key).val
    check_index_key raw_key [sub index_key 0 2, sub index_key 2 2, sub index_key 4 2,
      sub index_key 6 2, sub index_key 8 2, sub index_key 10 2] = .ok () := by
  dsimp only
  rw [check_index_key, if_pos rfl]

/-- `Contract_repr.Index` -/
def contract_index : INDEX where
  t := Contract
  path_length := 7
  to_path c l :=
    let raw_key := (contract_encoding.write c).getD []
    hashed_to_path raw_key (to_hex raw_key) l
  of_path
    | [index1, index2, index3, index4, index5, index6, key] => do
      let raw_key ← of_hex key
      check_index_key raw_key [index1, index2, index3, index4, index5, index6]
      match contract_encoding.read raw_key with
      | some (c, []) => pure (some c)
      | _ => pure none
    | _ => .ok none

omit [Primitives] in
theorem contract_encoding_write (c : Contract) : ∃ b, contract_encoding.write c = some b := by
  cases c with
  | Implicit pkh => cases pkh <;> exact ⟨_, rfl⟩
  | Originated hash => exact ⟨_, rfl⟩

instance : Lawful_index contract_index where
  to_path_append _ _ := rfl
  to_path_length _ := rfl
  of_path_to_path := fun (c : Contract) => by
    obtain ⟨b, hb⟩ := contract_encoding_write c
    have hread : contract_encoding.read b = some (c, []) :=
      (operation_encoding.contract_encoding_exact c b []).mpr ⟨b, hb, (List.append_nil b).symm⟩
    have hpath : contract_index.to_path c [] = hashed_to_path b (to_hex b) [] := by
      show hashed_to_path ((contract_encoding.write c).getD []) _ [] = _
      rw [hb]
      rfl
    rw [hpath]
    show (do
      let raw_key ← of_hex (to_hex b)
      check_index_key raw_key _
      match contract_encoding.read raw_key with
      | some (c, []) => pure (some c)
      | _ => pure none) = _
    rw [of_hex_to_hex, bind_ok, check_index_key_self, bind_ok, hread]
    rfl

/-! `Big_map.Index` -/

def big_map_of_path : Path → Tzresult (Option ℤ)
  | [index1, index2, index3, index4, index5, index6, key] =>
    match Primitives.z_of_string key with
    | none => .raise .Failure_of_string
    | some c => do
      check_index_key (Primitives.z_to_bytes c) [index1, index2, index3, index4, index5, index6]
      pure (some c)
  | _ => .ok none

def big_map_index : INDEX where
  t := ℤ
  path_length := 7
  to_path c l := hashed_to_path (Primitives.z_to_bytes c) (Primitives.z_to_string c) l
  of_path := big_map_of_path

instance : Lawful_index big_map_index where
  to_path_append _ _ := rfl
  to_path_length _ := rfl
  of_path_to_path (c : ℤ) := by
    simp only [big_map_index, hashed_to_path, big_map_of_path, Primitives.z_of_to]
    rw [check_index_key_self, bind_ok]
    rfl

end Hashed

/-! Numbers -/

/-- `Cycle_repr.Index` and `Raw_level_repr.Index` -/
def int32_index : INDEX where
  t := Int32
  path_length := 1
  to_path c l := int32_to_string c :: l
  of_path
    | [s] => .ok (int32_of_string s)
    | _ => .ok none

instance : Lawful_index int32_index where
  to_path_append _ _ := rfl
  to_path_length _ := rfl
  of_path_to_path c := congrArg Result.ok (int32_of_to c)

def cycle_index : INDEX := int32_index

def raw_level_index : INDEX := int32_index

instance : DecidableEq cycle_index.t := inferInstanceAs (DecidableEq Int32)

instance : Lawful_index cycle_index := inferInstanceAs (Lawful_index int32_index)

instance : Lawful_index raw_level_index := inferInstanceAs (Lawful_index int32_index)

/-- `Roll_repr.Index`: longer paths are read as well. -/
def roll_index : INDEX where
  t := Int32
  path_length := 3
  to_path roll l :=
    int32_to_string (roll &&& 0xff) ::
      int32_to_string (Int32.ofUInt32 (roll.toUInt32 >>> 8) &&& 0xff) ::
      int32_to_string roll :: l
  of_path
    | _ :: _ :: s :: _ => .ok (int32_of_string s)
    | _ => .ok none

instance : DecidableEq roll_index.t := inferInstanceAs (DecidableEq Int32)

instance : Lawful_index roll_index where
  to_path_append _ _ := rfl
  to_path_length _ := rfl
  of_path_to_path c := congrArg Result.ok (int32_of_to c)

/-- `Int_index` -/
def int_index : INDEX where
  t := Int63
  path_length := 1
  to_path c l := string_of_int c :: l
  of_path
    | [c] => .ok (int_of_string_opt c)
    | _ => .ok none

instance : Lawful_index int_index where
  to_path_append _ _ := rfl
  to_path_length _ := rfl
  of_path_to_path c := congrArg Result.ok (int_of_string_of_int c)

/-! `Snapshoted_owner_index` -/

def snapshoted_owner_of_path (l : Path) : Tzresult (Option (Int32 × Int63)) :=
  match take cycle_index.path_length l with
  | some (l1, [l2]) => do
    let c ← cycle_index.of_path l1
    match c, int_of_string_opt l2 with
    | some c, some i => pure (some (c, i))
    | _, _ => pure none
  | _ => .ok none

theorem snapshoted_owner_of_path_to_path (c : Int32) (n : Int63) :
    snapshoted_owner_of_path (cycle_index.to_path c [string_of_int n]) =
      .ok (some (c, n)) := by
  have hread : cycle_index.of_path (cycle_index.to_path c []) = .ok (some c) :=
    Lawful_index.of_path_to_path (I := cycle_index) c
  show (do
    let c ← cycle_index.of_path (cycle_index.to_path c [])
    match c, int_of_string_opt (string_of_int n) with
    | some c, some i => pure (some (c, i))
    | _, _ => pure none) = _
  rw [hread, int_of_string_of_int]
  rfl

def snapshoted_owner_index : INDEX where
  t := Int32 × Int63
  path_length := cycle_index.path_length + 1
  to_path := fun (c, n) s => cycle_index.to_path c (string_of_int n :: s)
  of_path := snapshoted_owner_of_path

instance : DecidableEq snapshoted_owner_index.t := inferInstanceAs (DecidableEq (Int32 × Int63))

instance : Lawful_index snapshoted_owner_index where
  to_path_append _ _ := rfl
  to_path_length _ := rfl
  of_path_to_path := fun (c, n) => snapshoted_owner_of_path_to_path c n

/-- Every index of `Storage`. -/
inductive Storage_index [Primitives] : INDEX → Prop where
  | contract : Storage_index contract_index
  | cycle : Storage_index cycle_index
  | raw_level : Storage_index raw_level_index
  | roll : Storage_index roll_index
  | big_map : Storage_index big_map_index
  | public_key_hash : Storage_index public_key_hash_index
  | protocol_hash : Storage_index (hash_index 32)
  | proposals : Storage_index (storage_functors.Pair (hash_index 32) public_key_hash_index)
  | script_expr_hash : Storage_index (hash_index 32)
  | blinded_public_key_hash : Storage_index (hash_index 20)
  | int : Storage_index int_index
  | snapshoted_owner : Storage_index snapshoted_owner_index
  | snapshot {I : INDEX} (h : Storage_index I) :
    Storage_index (storage_functors.Pair snapshoted_owner_index I)

/-- Every index of `Storage` is lawful, and has paths that are not empty. -/
theorem Storage_index.lawful [Primitives] {I : INDEX} (h : Storage_index I) :
    Lawful_index I ∧ 0 < I.path_length := by
  induction h with
  | snapshot h ih =>
    have hlawful := ih.1
    exact ⟨inferInstance, Nat.add_pos_left (Nat.succ_pos _) _⟩
  | _ => exact ⟨inferInstance, succ_pos _⟩

end plexus.storage_tree
