import TriplePlan.Plan.Codex
import TriplePlan.Plan.Past

/-!
Assigning variables in evaluation order. A variable gets the nodes that all its single references
admit; a statement with two variables is resolved on the side of the later one, whose past it joins,
and waits in the future of the earlier one.
-/
namespace TriplePlan

structure Assignment where
  id : Var
  stats : Stats
  constraint : List RefId
  present : List RefId
  /-- The nodes that every single reference admits; absent without any. -/
  valueRoot : Option (List Node)
  past : Past
  /-- The double groups of later variables. -/
  future : Groups
  /-- The earlier positions it depends on, ascending. -/
  dependencies : List Nat
deriving DecidableEq

namespace Assignment

def intersect : List Bytes → List Bytes → List Bytes
  | [], _ => []
  | a :: as, bs =>
    match bs.dropWhile (compare · a = .lt) with
    | [] => []
    | b :: r => if b = a then a :: intersect as r else intersect as (b :: r)

/-- The common elements of all lists, shortest lists first. -/
def intersectAll (sets : List (List Bytes)) : List Bytes :=
  match stableSort (fun a b => a.length ≤ b.length) sets with
  | [] => []
  | first :: r => r.foldl (fun root set => if root.isEmpty then root else intersect root set) first

def decodeRoot (v : Bytes) : Except PlanError Node :=
  match Key.decodeNode v with
  | .ok (node, _) => .ok node
  | .error e => .error (.store (.corruptKey e))

section

variable {σ : Type} [Readable σ]

def candidatesOf (s : σ) (references : List Reference) (rid : RefId) :
    Except PlanError (Option (List Bytes)) :=
  match references[rid]? with
  | none => .ok none
  | some r => (r.candidateValues s).mapError .store

/-- The nodes that all single references of a codex admit, of which there must be one. -/
def valueRootOf (requireRoot : Bool) (s : σ) (references : List Reference) (c : Codex) :
    Except PlanError (Option (List Node)) := do
  if c.single.isEmpty then
    if requireRoot then throw (.emptyValueRoot c.id) else return none
  let sets ← c.single.mapM (candidatesOf s references)
  let root := intersectAll (sets.filterMap fun x => x)
  if root.isEmpty then throw (.emptyValueRoot c.id)
  return some (← root.mapM decodeRoot)

def positionOf (assigned : List Assignment) (id : Var) : Option Nat := assigned.findIdx? (·.id = id)

def pastGroups (assigned : List Assignment) (c : Codex) : List (Var × Nat × List RefId) :=
  c.double.entries.filterMap fun g => (positionOf assigned g.1).map (g.1, ·, g.2)

def dependenciesOf (assigned : List Assignment) (groups : List (Var × Nat × List RefId)) :
    List Nat :=
  let reached := groups.flatMap fun g => g.2.1 :: ((assigned[g.2.1]?.map (·.dependencies)).getD [])
  (List.range assigned.length).filter (reached.contains ·)

/-- Assigns the next variable; the references of its past are marked. -/
def assign (requireRoot : Bool) (s : σ) (assigned : List Assignment) (c : Codex) :
    Action (List Reference) PlanError (List Assignment) := do
  let valueRoot ← valueRootOf requireRoot s (← get) c
  let groups := pastGroups assigned c
  modify fun references => groups.foldl (fun l g => Past.follow g.1 g.2.2 l) references
  let past := (groups.foldl (fun p g => p.push g.1 g.2.1 g.2.2) Past.empty).finish (← get)
  let future := c.double.filterKeys fun v => (positionOf assigned v).isNone
  return assigned ++ [{
    id := c.id, stats := c.stats, constraint := c.constraint, present := c.single
    valueRoot, past, future, dependencies := dependenciesOf assigned groups }]

end

end Assignment

/-- Assigns every variable of a probed map in its order. When that fails every cursor is released,
those that were marked until then included. -/
def CodexMap.build {σ : Type} [Readable σ] (m : CodexMap) (requireRoot : Bool) (s : σ) :
    Except PlanError (List Assignment) × CodexMap :=
  if m.probed then
    match m.codexes.foldlM (Assignment.assign requireRoot s) [] m.references with
    | (.ok assigned, references) => (.ok assigned, { m with references })
    | (.error e, references) => (.error e, { m with references }.close)
  else (.error .unprobed, m)

end TriplePlan
