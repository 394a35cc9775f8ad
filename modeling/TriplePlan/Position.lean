/-!
Positions of a statement, and the permutations that key it: a rotation names the unknown position
and the two positions that form its key, a pair the one constant beside a repeated variable.
-/
namespace TriplePlan

inductive Position where
  | subject | predicate | object
deriving DecidableEq

namespace Position

def all : List Position := [.subject, .predicate, .object]

def index : Position → Nat
  | .subject => 0
  | .predicate => 1
  | .object => 2

def ofIndex (i : Nat) : Position :=
  match i % 3 with
  | 0 => .subject
  | 1 => .predicate
  | _ => .object

def rotate (p : Position) (k : Nat) : Position := ofIndex (p.index + k)

def name : Position → String
  | .subject => "subject"
  | .predicate => "predicate"
  | .object => "object"

theorem mem_all (p : Position) : p ∈ all := by cases p <;> simp [all]

end Position

/-- Which positions of a statement are unknown: one, two that hold the same variable, or none. -/
inductive Permutation where
  /-- The rotation that starts at its one unknown position. -/
  | single (unknown : Position)
  /-- A variable in every position but this one. -/
  | pair (constant : Position)
  | ground
deriving DecidableEq

namespace Permutation

def unknown : Permutation → Option Position
  | .single u => some u
  | _ => none

def keyPositions (p : Permutation) : Option (Position × Position) :=
  p.unknown.map fun u => (u.rotate 1, u.rotate 2)

def constantPosition : Permutation → Option Position
  | .pair c => some c
  | _ => none

def between (a b : Position) : Option Permutation :=
  if a = b then none else (Position.all.find? fun c => c ≠ a ∧ c ≠ b).map .pair

def code : Permutation → Nat
  | .single u => u.index
  | .pair .object => 3
  | .pair .subject => 4
  | .pair .predicate => 5
  | .ground => 6

def display : Permutation → String
  | .single .subject => "S"
  | .single .predicate => "P"
  | .single .object => "O"
  | .pair .object => "SP"
  | .pair .subject => "PO"
  | .pair .predicate => "OS"
  | .ground => "const"

end Permutation

end TriplePlan
