import TriplePlan.Cbor.Reader
import TriplePlan.Source

/-!
Source lists as CBOR records.
-/
namespace TriplePlan

def Source.toCbor (s : Source) : Bytes :=
  Cbor.map [("document", Cbor.text s.document), ("graph", Cbor.text s.graph),
    ("index", Cbor.natural s.index.toNat)]

namespace Cbor.Reader

structure SourceFields where
  document : Option String := none
  graph : Option String := none
  index : Option UInt32 := none

def word : Reader UInt32 := UInt32.ofNat <$> natBelow UInt32.size

def sourceField (room : Nat) (x : SourceFields) (key : Bytes) : Reader SourceFields := do
  if key = Text.utf8 "document" then return { x with document := ← once x.document text }
  else if key = Text.utf8 "graph" then return { x with graph := ← once x.graph text }
  else if key = Text.utf8 "index" then return { x with index := ← once x.index word }
  else do skip room; return x

def source (room : Nat) : Reader Source := do
  let x ← entries name (sourceField room) {}
  return ⟨← required x.document, ← required x.graph, ← required x.index⟩

def sourceListField (x : Option (List Source)) (key : Bytes) : Reader (Option (List Source)) := do
  if key = Text.utf8 "sources" then once x (list (source (depth - 3)))
  else do skip (depth - 1); return x

def sourceList : Reader SourceList := do
  return ⟨← required (← entries name sourceListField none)⟩

end Cbor.Reader

namespace SourceList

def toBytes (l : SourceList) : Bytes := Cbor.map [("sources", Cbor.array Source.toCbor l.sources)]

def ofBytes? (bs : Bytes) : Option SourceList := Cbor.read? Cbor.Reader.sourceList bs

end SourceList

end TriplePlan
