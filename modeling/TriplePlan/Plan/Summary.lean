import TriplePlan.Plan.Explain

/-!
The digest of a plan, and its JSON form.
-/
namespace TriplePlan

structure VariableSummary where
  id : Var
  count : Nat
  norm : Nat
  length : Nat
  constraint : Nat
  present : Nat
  valueRoot : Option Nat
  /-- The variable behind each past reference, in merge order. -/
  past : List Var
  future : List Var
  dependencies : List Nat
deriving DecidableEq

structure PlanSummary where
  order : List Var
  constants : Nat
  perVariable : List VariableSummary
deriving DecidableEq

namespace Plan

def summarize (p : Plan) (a : Assignment) : VariableSummary where
  id := a.id
  count := a.stats.count
  norm := a.stats.norm
  length := a.stats.length
  constraint := a.constraint.length
  present := a.present.length
  valueRoot := a.valueRoot.map List.length
  past := a.past.inMergeOrder.filterMap p.followed?
  future := a.future.keys
  dependencies := a.dependencies

def summary (p : Plan) : PlanSummary := ⟨p.order, p.constants.length, p.assignments.map p.summarize⟩

end Plan

def Var.toJson (v : Var) : Json.Value := .text v.label

def Var.ofJson? (v : Json.Value) : Option Var := v.text?.map Var.mk

def count? (v : Json.Value) : Option Nat := v.natBelow? UInt64.size

namespace VariableSummary

def toJson (v : VariableSummary) : Json.Value :=
  .record [("variable", v.id.toJson), ("count", .natural v.count), ("norm", .natural v.norm),
    ("length", .natural v.length), ("constraint", .natural v.constraint),
    ("present", .natural v.present), ("value_root", .option .natural v.valueRoot),
    ("past", .array (v.past.map Var.toJson)), ("future", .array (v.future.map Var.toJson)),
    ("dependencies", .naturals v.dependencies)]

def ofJson? (v : Json.Value) : Option VariableSummary := do
  match ← v.record? ["variable", "count", "norm", "length", "constraint", "present", "value_root",
    "past", "future", "dependencies"] 0 with
  | [some id, some count, some norm, some length, some constraint, some present, valueRoot,
      some past, some future, some dependencies] =>
    return {
      id := ← Var.ofJson? id
      count := ← count? count
      norm := ← count? norm
      length := ← count? length
      constraint := ← count? constraint
      present := ← count? present
      valueRoot := ← (valueRoot.getD .null).option? count?
      past := ← past.list? Var.ofJson?
      future := ← future.list? Var.ofJson?
      dependencies := ← dependencies.list? count? }
  | _ => none

end VariableSummary

namespace PlanSummary

def toJson (s : PlanSummary) : Json.Value :=
  .record [("order", .array (s.order.map Var.toJson)), ("constants", .natural s.constants),
    ("variables", .array (s.perVariable.map VariableSummary.toJson))]

def ofJson? (text : String) : Option PlanSummary := do
  match ← (← Json.Value.parse? text).record? ["order", "constants", "variables"] 0 with
  | [some order, some constants, some perVariable] =>
    return ⟨← order.list? Var.ofJson?, ← count? constants,
      ← perVariable.list? VariableSummary.ofJson?⟩
  | _ => none

def render (s : PlanSummary) : String := s.toJson.renderPretty

end PlanSummary

end TriplePlan
