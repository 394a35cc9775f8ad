import TriplePlan.Dataset
import TriplePlan.Plan.Codex

/-!
Classifying a pattern: ground statements are set aside, every other statement becomes one reference
or two, filed under its variables.
-/
namespace TriplePlan

structure Classified where
  constants : List Reference
  codexMap : CodexMap
deriving DecidableEq

namespace Classified

def empty : Classified := ⟨[], .empty⟩

def rotated (graph : String) (index : Nat) (s : Statement) (unknown : Position) : Reference :=
  let (a, b, _) := s.rotate unknown
  .plain graph index (.single unknown) (some a) (some b)

def varPositions (s : Statement) : List (Position × Var) :=
  Position.all.filterMap fun p => (s.get p).var?.map (p, ·)

def addStatement (c : Classified) (entry : String × Nat × Statement) :
    Except PlanError Classified :=
  let (graph, index, s) := entry
  match varPositions s with
  | [] => .ok { c with constants := c.constants ++ [.plain graph index .ground none none] }
  | [(u, v)] =>
    let (rid, m) := c.codexMap.pushReference (rotated graph index s u)
    .ok { c with codexMap := m.modify v (·.pushSingle rid) }
  | [(i, a), (j, b)] =>
    if a = b then
      match Permutation.between i j with
      | none => .ok c
      | some p =>
        let (rid, m) := c.codexMap.pushReference
          (.plain graph index p none (p.constantPosition.map s.get))
        .ok { c with codexMap := m.modify a (·.pushConstraint rid) }
    else
      .ok { c with
        codexMap := c.codexMap.insertPair a (rotated graph index s i) b (rotated graph index s j) }
  | _ => .error (.unrepresentable graph index)

end Classified

def classify (d : Dataset) : Except PlanError Classified :=
  d.toList.foldlM Classified.addStatement .empty

end TriplePlan
