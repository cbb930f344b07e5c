import Plexus.Lib.CompleteTree
import Plexus.Lib.DataEncoding
import Plexus.Lib.Result

/-! The Merkle trees of `blake2B.ml`. Their rows are computed in one array, in
which every row overwrites the one below it. -/

namespace plexus.Blake2B

open Data_encoding

/-- An array that is read or written out of its bounds raises. -/
abbrev Checked (α : Type) := Result Empty String α

namespace Generic_Merkle_tree

/-- The hashes that the functor is applied to. -/
structure HASH (t elt : Type) where
  empty : t
  leaf : elt → t
  node : t → t → t

variable {t elt : Type}

def get (a : Array t) (i : Nat) : Checked t :=
  match a[i]? with
  | some x => .ok x
  | none => .raise "index out of bounds"

def set (a : Array t) (i : Nat) (x : t) : Checked (Array t) :=
  if i < a.size then .ok (a.setIfInBounds i x) else .raise "index out of bounds"

section Functor

variable (H : HASH t elt)

def node_round (a : Array t) (i : Nat) : Checked (Array t) := do
  let l ← get a (2 * i)
  let r ← get a (2 * i + 1)
  set a i (H.node l r)

/-- The row above, with the hash that continues it at its end: what `step` and
`step_path` do alike. -/
def next_row (a : Array t) (n : Nat) : Checked (Array t) := do
  let m := (n + 1) / 2
  let a ← (List.range m).foldlM (node_round H) a
  let x ← get a n
  set a m (H.node x x)

def step : Nat → Array t → Nat → Checked t
  | 0, _, _ => .div
  | rounds + 1, a, n => do
    let m := (n + 1) / 2
    let a ← next_row H a n
    if m = 1 then get a 0
    else if m % 2 = 0 then step rounds a m
    else
      let x ← get a m
      let a ← set a (m + 1) x
      step rounds a (m + 1)

/-- `List.iteri (fun i x -> a.(i) <- H.leaf x)` -/
def iteri : Nat → List elt → Array t → Checked (Array t)
  | _, [], a => .ok a
  | i, x :: xs, a => do
    let a ← set a i (H.leaf x)
    iteri (i + 1) xs a

def leaves (xs : List elt) (last : elt) : Checked (Array t) :=
  iteri H 0 xs (Array.replicate (xs.length + 1) (H.leaf last))

def compute : List elt → Checked t
  | [] => .ok H.empty
  | [x] => .ok (H.leaf x)
  | x :: y :: xs => do
    let last := (y :: xs).getLast (List.cons_ne_nil y xs)
    let n := (x :: y :: xs).length
    let a ← leaves H (x :: y :: xs) last
    step H n a n

end Functor

inductive Path (t : Type) where
  | Left (path : Path t) (right : t)
  | Right (left : t) (path : Path t)
  | Op
deriving DecidableEq, Repr

/-- `p`, with the hash next to the `j`-th one. -/
def add_hash (a : Array t) (p : Path t) (j : Nat) : Checked (Path t) :=
  if j % 2 = 0 then do
    let x ← get a (j + 1)
    pure (.Left p x)
  else do
    let x ← get a (j - 1)
    pure (.Right x p)

variable (H : HASH t elt)

def step_path : Nat → Array t → Nat → Path t → Nat → Checked (Path t)
  | 0, _, _, _, _ => .div
  | rounds + 1, a, n, p, j => do
    let m := (n + 1) / 2
    let p ← add_hash a p j
    let a ← next_row H a n
    if m = 1 then pure p
    else if m % 2 = 0 then step_path rounds a m p (j / 2)
    else
      let x ← get a m
      let a ← set a (m + 1) x
      step_path rounds a (m + 1) p (j / 2)

def compute_path : List elt → ℤ → Checked (Path t)
  | [], _ => .raise "compute_path"
  | [_], _ => .ok .Op
  | x :: y :: xs, i => do
    let last := (y :: xs).getLast (List.cons_ne_nil y xs)
    let n := (x :: y :: xs).length
    if i < 0 ∨ n ≤ i then .raise "compute_path"
    else
      let a ← leaves H (x :: y :: xs) last
      step_path H n a n .Op i.toNat

/-- The hash a path leads to, the width of its tree and the position in it. -/
def check_path_rec : Path t → elt → t × Nat × Nat
  | .Op, h => (H.leaf h, 1, 0)
  | .Left p r, h =>
    let (l, s, pos) := check_path_rec p h
    (H.node l r, s * 2, pos)
  | .Right l p, h =>
    let (r, s, pos) := check_path_rec p h
    (H.node l r, s * 2, pos + s)

def check_path (p : Path t) (h : elt) : t × Nat :=
  let (h, _, pos) := check_path_rec H p h
  (h, pos)

end Generic_Merkle_tree

open Generic_Merkle_tree

def log2 (x : Nat) : Nat := if x ≤ 1 then 0 else 1 + log2 ((x + 1) / 2)

namespace Make_merkle_tree

variable {t : Type}

def path_cases (encoding : Encoding t) (path_encoding : Encoding (Path t)) : List (Case (Path t)) :=
  [ ⟨240, Path t × t, pair path_encoding encoding,
      fun | .Left p r => some (p, r) | _ => none, fun (p, r) => .Left p r⟩,
    ⟨15, t × Path t, pair encoding path_encoding,
      fun | .Right r p => some (r, p) | _ => none, fun (r, p) => .Right r p⟩,
    ⟨0, Unit, constant, fun | .Op => some () | _ => none, fun () => .Op⟩ ]

def path_encoding (encoding : Encoding t) : Nat → Encoding (Path t) :=
  mu fun e => union (path_cases encoding e)

/-- A hash takes `size` bytes. -/
def bounded_path_encoding (encoding : Encoding t) (size : Nat) (max_length : Option Nat)
    (rounds : Nat) : Encoding (Path t) :=
  match max_length with
  | none => path_encoding encoding rounds
  | some max_length =>
    let max_depth := log2 max_length
    check_size (max_depth * (size + 1) + 1) (path_encoding encoding rounds)

end Make_merkle_tree

end plexus.Blake2B
