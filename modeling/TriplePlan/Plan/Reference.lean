import TriplePlan.Plan.Error
import TriplePlan.Store.Probe

/-!
References: one occurrence of a variable in one statement of a pattern, with what the other
positions hold. References live in a list and name each other by their place in it.
-/
namespace TriplePlan

abbrev RefId := Nat

structure Cursor where
  count : Nat
  /-- The earlier variable it is advanced with. -/
  follows : Option Var
  /-- The place of the reference among those that follow the same variable. -/
  offset : Nat
  key : Bytes
deriving DecidableEq

def Cursor.probed (key : Bytes) (count : Nat) : Cursor := ⟨count, none, 0, key⟩

structure Reference where
  graph : String
  index : Nat
  permutation : Permutation
  /-- The first key slot; empty for a repeated variable and for a ground statement. -/
  knownA : Option Term
  /-- The second key slot; the lone constant beside a repeated variable. -/
  knownB : Option Term
  dual : Option RefId
  cursor : Option Cursor
deriving DecidableEq

namespace Reference

def plain (graph : String) (index : Nat) (permutation : Permutation) (knownA knownB : Option Term) :
    Reference :=
  ⟨graph, index, permutation, knownA, knownB, none, none⟩

def attach (r : Reference) (c : Cursor) : Except PlanError Reference :=
  if r.cursor.isSome then .error .alreadyProbed else .ok { r with cursor := some c }

def release (r : Reference) : Reference := { r with cursor := none }

def knownNodes? (r : Reference) : Option (Node × Node) :=
  match r.knownA, r.knownB with
  | some (.node m), some (.node n) => some (m, n)
  | _, _ => none

def other? (r : Reference) : Option Var := (r.knownA.bind Term.var?).or (r.knownB.bind Term.var?)

/-- The counter of the candidates: of the pair for two constants, of the one constant at its
position next to a variable. -/
def countKey? (r : Reference) : Option Bytes :=
  match r.permutation, r.knownA, r.knownB with
  | .single u, some (.node m), some (.node n) => some (Key.minorKey u m n)
  | .single u, some (.var _), some (.node n) => some (Key.majorKey (u.rotate 2) n)
  | .single u, some (.node m), some (.var _) => some (Key.majorKey (u.rotate 1) m)
  | _, _, _ => none

def valuePrefix? (r : Reference) : Option Bytes := do
  let u ← r.permutation.unknown
  let (m, n) ← r.knownNodes?
  return Key.valuePrefix u m n

def slot (binding : Node) : Term → Node
  | .node n => n
  | .var _ => binding

def seekPrefix? (r : Reference) (binding : Node) : Option Bytes := do
  let u ← r.permutation.unknown
  return Key.valuePrefix u (slot binding (← r.knownA)) (slot binding (← r.knownB))

def candidateValues {σ : Type} [Readable σ] (r : Reference) (s : σ) :
    Except StoreError (Option (List Bytes)) :=
  match r.permutation.unknown, r.knownNodes? with
  | some u, some (m, n) => (TriplePlan.candidateValues s u m n).map some
  | _, _ => .ok none

def displaySlot : Option Term → String
  | some t => t.display
  | none => "-"

def display (r : Reference) : String :=
  r.graph ++ "[" ++ toString r.index ++ "] " ++ r.permutation.display ++ " ("
    ++ displaySlot r.knownA ++ ", " ++ displaySlot r.knownB ++ ")"
    ++ (r.cursor.map fun c => " #" ++ toString c.count).getD ""

end Reference

end TriplePlan
