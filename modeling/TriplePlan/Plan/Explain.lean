import TriplePlan.Plan.Compile

/-!
A plan in lines of text, variable by variable.
-/
namespace TriplePlan.Plan

def displayRef (p : Plan) (rid : RefId) : String :=
  (p.references[rid]?.map Reference.display).getD ""

def followed? (p : Plan) (rid : RefId) : Option Var :=
  p.references[rid]?.bind fun r => r.cursor.bind (·.follows)

def explainRoot : Option (List Node) → String
  | some root => "  value root: " ++ toString root.length ++ " candidate(s)"
  | none => "  value root: unconstrained"

def explainAssignment (p : Plan) (a : Assignment) (i : Nat) : List String :=
  [toString i ++ ": " ++ a.id.display ++ " count=" ++ toString a.stats.count ++ " norm="
    ++ toString a.stats.norm ++ " length=" ++ toString a.stats.length]
  ++ a.constraint.map (fun rid => "  constraint " ++ p.displayRef rid)
  ++ a.present.map (fun rid => "  present " ++ p.displayRef rid)
  ++ [explainRoot a.valueRoot]
  ++ a.past.inMergeOrder.map (fun rid =>
    "  past " ++ ((p.followed? rid).map Var.display).getD "" ++ ": " ++ p.displayRef rid)
  ++ a.future.entries.map (fun g =>
    "  future " ++ g.1.display ++ ": " ++ toString g.2.length ++ " reference(s)")
  ++ if a.dependencies.isEmpty then []
    else ["  depends on: " ++ ", ".intercalate (a.dependencies.map toString)]

def explain (p : Plan) : List String :=
  ("plan: " ++ toString p.size ++ " variable(s), " ++ toString p.constants.length
    ++ " constant statement(s)")
  :: (p.assignments.mapIdx fun i a => p.explainAssignment a i).flatten

end TriplePlan.Plan
