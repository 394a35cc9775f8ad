import TriplePlan.Dataset
import TriplePlan.Term.Record

/-!
Datasets as JSON and CBOR records: a map from graph names to lists of statements. Of graphs with one
name the last one counts.
-/
namespace TriplePlan

namespace Statement

def toJson (s : Statement) : Json.Value :=
  .record [("subject", s.subject.toJson), ("predicate", s.predicate.toJson),
    ("object", s.object.toJson)]

def ofJson? (v : Json.Value) : Option Statement := do
  match ← v.record? ["subject", "predicate", "object"] 0 with
  | [some s, some p, some o] => return ⟨← Term.ofJson? s, ← Term.ofJson? p, ← Term.ofJson? o⟩
  | _ => none

def toCbor (s : Statement) : Bytes :=
  Cbor.map [("subject", s.subject.toCbor), ("predicate", s.predicate.toCbor),
    ("object", s.object.toCbor)]

end Statement

namespace Cbor.Reader

structure StatementFields where
  subject : Option Term := none
  predicate : Option Term := none
  object : Option Term := none

def statementField (room : Nat) (x : StatementFields) (key : Bytes) : Reader StatementFields := do
  if key = Text.utf8 "subject" then
    return { x with subject := ← once x.subject (term (room - 1)) }
  else if key = Text.utf8 "predicate" then
    return { x with predicate := ← once x.predicate (term (room - 1)) }
  else if key = Text.utf8 "object" then
    return { x with object := ← once x.object (term (room - 1)) }
  else do skip room; return x

def statement (room : Nat) : Reader Statement := do
  let x ← entries name (statementField room) {}
  return ⟨← required x.subject, ← required x.predicate, ← required x.object⟩

def graphs : Reader Graphs :=
  entries text (fun g name => return g.insert name (← list (statement (depth - 3)))) .empty

end Cbor.Reader

namespace Dataset

def toJson (d : Dataset) : Json.Value :=
  .record (d.graphs.entries.map fun g => (g.1, .array (g.2.map Statement.toJson)))

def graphsOfJson? : Json.Value → Option Graphs
  | .object l => do
    let members ← Json.Value.members? l
    members.foldlM (fun g m => (m.2.list? Statement.ofJson?).map (g.insert m.1)) .empty
  | _ => none

def ofJson? (text : String) : Option Dataset := do
  return ofGraphs (← graphsOfJson? (← Json.Value.parse? text))

def toCbor (d : Dataset) : Bytes :=
  Cbor.map (d.graphs.entries.map fun g => (g.1, Cbor.array Statement.toCbor g.2))

def ofCbor? (bs : Bytes) : Option Dataset := (Cbor.read? Cbor.Reader.graphs bs).map ofGraphs

end Dataset

end TriplePlan
