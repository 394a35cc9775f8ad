import TriplePlan.Plan.Assignment
import TriplePlan.Plan.Classify
import TriplePlan.Plan.Config
import TriplePlan.Store.Index

/-!
Compiling a pattern against one state of a store: classify, probe, sort, assign. The result is a
plan, the variables in evaluation order with the references they are resolved by.
-/
namespace TriplePlan

structure Plan where
  assignments : List Assignment
  references : List Reference
  constants : List Reference
deriving DecidableEq

namespace Plan

def size (p : Plan) : Nat := p.assignments.length
def isEmpty (p : Plan) : Bool := p.assignments.isEmpty

def order (p : Plan) : List Var := p.assignments.map (·.id)

def position? (p : Plan) (id : Var) : Option Nat := Assignment.positionOf p.assignments id

def assignment? (p : Plan) (id : Var) : Option Assignment :=
  (p.position? id).bind (p.assignments[·]?)

def missingConstant {σ : Type} [Readable σ] (p : Plan) (pattern : Dataset) (s : σ) :
    Except StoreError (Option Statement) :=
  (p.constants.filterMap fun c => pattern.statement? c.graph c.index).findM? fun statement =>
    match statement.nodes? with
    | some triple => return !(← Index.isStored s triple)
    | none => return false

end Plan

def compile {σ : Type} [Readable σ] (config : CompileConfig) (pattern : Dataset) (s : σ) :
    Except PlanError Plan := do
  let c ← classify pattern
  if let some max := config.maxVariables then
    if max < c.codexMap.size then throw (.tooManyVariables c.codexMap.size max)
  match c.codexMap.probe s with
  | (.error e, _) => throw e
  | (.ok (), m) =>
    match (m.sort config.order).build config.requireValueRoot s with
    | (.error e, _) => throw e
    | (.ok assignments, m) => return ⟨assignments, m.references, c.constants⟩

end TriplePlan
