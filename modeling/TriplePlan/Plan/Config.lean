import TriplePlan.Json.Reader
import TriplePlan.Plan.Codex

/-!
Settings of a compilation, and their JSON form.
-/
namespace TriplePlan

structure CompileConfig where
  order : VariableOrder := .descendingCount
  maxVariables : Option Nat := none
  /-- A variable without a single reference is refused. -/
  requireValueRoot : Bool := false
deriving DecidableEq

namespace VariableOrder

def name : VariableOrder → String
  | .descendingCount => "descending_count"
  | .ascendingCount => "ascending_count"

def ofName? (s : String) : Option VariableOrder :=
  if s = descendingCount.name then some .descendingCount
  else if s = ascendingCount.name then some .ascendingCount
  else none

/-- A variant without content may also be written with an empty one. -/
def ofJson? : Json.Value → Option VariableOrder
  | .string s => s.bind ofName?
  | v => do
    match ← v.variant? with
    | (name, .null) => ofName? name
    | _ => none

end VariableOrder

namespace CompileConfig

def toJson (c : CompileConfig) : Json.Value :=
  .record [("order", .text c.order.name), ("max_variables", .option .natural c.maxVariables),
    ("require_value_root", .bool c.requireValueRoot)]

def fieldOr {α : Type} (default : α) (f : Json.Value → Option α) : Option Json.Value → Option α
  | none => some default
  | some v => f v

def ofJson? (text : String) : Option CompileConfig := do
  match ← (← Json.Value.parse? text).record? ["order", "max_variables", "require_value_root"] 3 with
  | [order, max, require] =>
    return {
      order := ← fieldOr .descendingCount VariableOrder.ofJson? order
      maxVariables := ← fieldOr none (·.option? (·.natBelow? UInt64.size)) max
      requireValueRoot := ← fieldOr false (·.bool?) require }
  | _ => none

end CompileConfig

end TriplePlan
