import TriplePlan.Cbor.Reader
import TriplePlan.Json.Reader
import TriplePlan.Term

/-!
Terms as JSON and CBOR records: a term and a node name their variant, a literal is a record of three
fields, which may also be read from an array.
-/
namespace TriplePlan

namespace Node

def toJson : Node → Json.Value
  | .iri text => .variant "Iri" (.text text)
  | .literal value datatype language =>
    .variant "Literal" (.record [("value", .text value), ("datatype", .option .text datatype),
      ("language", .option .text language)])

def literalOfJson? (v : Json.Value) : Option Node := do
  match ← v.record? ["value", "datatype", "language"] 2 with
  | [some value, datatype, language] =>
    return .literal (← value.text?) (← (datatype.getD .null).option? (·.text?))
      (← (language.getD .null).option? (·.text?))
  | _ => none

def ofJson? (v : Json.Value) : Option Node := do
  match ← v.variant? with
  | ("Iri", text) => return .iri (← text.text?)
  | ("Literal", fields) => literalOfJson? fields
  | _ => none

def toCbor : Node → Bytes
  | .iri text => Cbor.map [("Iri", Cbor.text text)]
  | .literal value datatype language =>
    Cbor.map [("Literal", Cbor.map [("value", Cbor.text value),
      ("datatype", (datatype.map Cbor.text).getD Cbor.null),
      ("language", (language.map Cbor.text).getD Cbor.null)])]

end Node

namespace Term

def toJson : Term → Json.Value
  | .var v => .variant "Var" (.text v.label)
  | .node n => .variant "Node" n.toJson

def ofJson? (v : Json.Value) : Option Term := do
  match ← v.variant? with
  | ("Var", label) => return .var ⟨← label.text?⟩
  | ("Node", content) => return .node (← Node.ofJson? content)
  | _ => none

def toCbor : Term → Bytes
  | .var v => Cbor.map [("Var", Cbor.text v.label)]
  | .node n => Cbor.map [("Node", n.toCbor)]

end Term

namespace Cbor.Reader

structure LiteralFields where
  value : Option String := none
  datatype : Option (Option String) := none
  language : Option (Option String) := none

def literalField (room : Nat) (x : LiteralFields) (key : Bytes) : Reader LiteralFields := do
  if key = Text.utf8 "value" then
    return { x with value := ← once x.value text }
  else if key = Text.utf8 "datatype" then
    return { x with datatype := ← once x.datatype (option text) }
  else if key = Text.utf8 "language" then
    return { x with language := ← once x.language (option text) }
  else do skip room; return x

def literalRow (length : Option Nat) : Reader Node := do
  unless ← present 0 length do fail
  let value ← text
  let datatype ← if ← present 1 length then option text else pure none
  let language ← if ← present 2 length then option text else pure none
  return .literal value datatype language

/-- A literal by the names of its fields or by their order. A tag in front of it is refused. -/
def literal (room : Nat) : Reader Node := do
  match ← head with
  | .array n => literalRow n
  | .map n =>
    let x ← entriesOf name (literalField room) n {}
    return .literal (← required x.value) (x.datatype.getD none) (x.language.getD none)
  | _ => fail

def node (room : Nat) : Reader Node := do
  let kind ← variant
  if kind = Text.utf8 "Iri" then return .iri (← text)
  else if kind = Text.utf8 "Literal" then literal (room - 1)
  else fail

def term (room : Nat) : Reader Term := do
  let kind ← variant
  if kind = Text.utf8 "Var" then return .var ⟨← text⟩
  else if kind = Text.utf8 "Node" then return .node (← node (room - 1))
  else fail

end Cbor.Reader

end TriplePlan
