import Mathlib.Data.Int.Notation
import Mathlib.Tactic.Common

/-! Micheline expressions, over any locations and any primitives. Strings are
kept as their bytes. -/

namespace Micheline

abbrev Annot := List (List UInt8)

inductive Node (l p : Type) where
  | Int (loc : l) (value : ℤ)
  | String (loc : l) (value : List UInt8)
  | Bytes (loc : l) (value : List UInt8)
  | Prim (loc : l) (prim : p) (args : List (Node l p)) (annots : Annot)
  | Seq (loc : l) (args : List (Node l p))

variable {l p : Type}

namespace Node

def location : Node l p → l
  | Int loc _ => loc
  | String loc _ => loc
  | Bytes loc _ => loc
  | Prim loc _ _ _ => loc
  | Seq loc _ => loc

mutual

/-- The number of nodes of an expression. -/
def size : Node l p → Nat
  | Int _ _ => 1
  | String _ _ => 1
  | Bytes _ _ => 1
  | Prim _ _ args _ => 1 + sizes args
  | Seq _ args => 1 + sizes args

def sizes : List (Node l p) → Nat
  | [] => 0
  | node :: rest => size node + sizes rest

end

mutual

/-- The expression with its nodes numbered in prefix order from `id`, and the
first number that is left. -/
def number (id : ℤ) : Node l p → Node ℤ p × ℤ
  | Int _ v => (Int id v, id + 1)
  | String _ v => (String id v, id + 1)
  | Bytes _ v => (Bytes id v, id + 1)
  | Prim _ name args annots =>
    (Prim id name (number_list (id + 1) args).1 annots, (number_list (id + 1) args).2)
  | Seq _ args => (Seq id (number_list (id + 1) args).1, (number_list (id + 1) args).2)

def number_list (id : ℤ) : List (Node l p) → List (Node ℤ p) × ℤ
  | [] => ([], id)
  | node :: rest =>
    ((number id node).1 :: (number_list (number id node).2 rest).1,
      (number_list (number id node).2 rest).2)

end

def strip_locations (root : Node l p) : Node ℤ p := (number 0 root).1

mutual

/-- All annotations of an expression pass a test. -/
def annots_all (test : List UInt8 → Bool) : Node l p → Bool
  | Prim _ _ args annots => annots.all test && annots_all_list test args
  | Seq _ args => annots_all_list test args
  | _ => true

def annots_all_list (test : List UInt8 → Bool) : List (Node l p) → Bool
  | [] => true
  | node :: rest => annots_all test node && annots_all_list test rest

end

theorem size_pos (node : Node l p) : 0 < node.size := by
  cases node <;> simp only [size] <;> omega

end Node

end Micheline
