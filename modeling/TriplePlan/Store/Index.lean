import TriplePlan.Dataset
import TriplePlan.Source.Record
import TriplePlan.Store.Probe
import TriplePlan.Store.Transaction

/-!
Indexing a document: every statement is stored in its three rotations with the places it was stated
at, and a statement new to the store is counted by the pairs and single nodes of its triple.
-/
namespace TriplePlan

namespace Index

/-- A blank node of a stored document stands for an identifier of that document. -/
def groundTerm (document : String) : Term → Node
  | .node n => n
  | .var v => .iri (document ++ "#_:" ++ v.label)

def ground (document : String) (s : Statement) : Triple Node := s.map (groundTerm document)

def readSources {σ : Type} [Readable σ] (s : σ) (key : Bytes) : Except StoreError SourceList := do
  match ← Readable.get? s key with
  | none => return .empty
  | some bytes =>
    match SourceList.ofBytes? bytes with
    | some list => return list
    | none => throw .codec

/-- Lists a source under a key, unless it is listed there. -/
def addSource (source : Source) (key : Bytes) : Action Transaction StoreError Unit := do
  let list ← readSources (← get) key
  match list.insert source with
  | (true, list) => modify (·.put key list.toBytes)
  | (false, _) => return

def increment (key : Bytes) : Action Transaction StoreError Unit := do
  let n ← readCount (← get) key
  modify (·.put key (Key.encodeCount (n + 1)))

def valueKeys (triple : Triple Node) : List Bytes := Position.all.map (Key.tripleKey triple)

def minorKeyOf (triple : Triple Node) (unknown : Position) : Bytes :=
  let (m, n, _) := triple.rotate unknown
  Key.minorKey unknown m n

def majorKeyOf (triple : Triple Node) (p : Position) : Bytes := Key.majorKey p (triple.get p)

def counterKeys (triple : Triple Node) : List Bytes :=
  Position.all.map (minorKeyOf triple) ++ Position.all.map (majorKeyOf triple)

/-- All rotations are written together, so one of them tells whether the triple is stored. -/
def isStored {σ : Type} [Readable σ] (s : σ) (triple : Triple Node) : Except StoreError Bool :=
  return (← Readable.get? s (Key.tripleKey triple .subject)).isSome

def insert (triple : Triple Node) (source : Source) : Action Transaction StoreError Bool := do
  let stored ← isStored (← get) triple
  (valueKeys triple).forM (addSource source)
  if !stored then (counterKeys triple).forM increment
  return !stored

structure Report where
  statements : Nat
  inserted : Nat
deriving DecidableEq

def ordinal (index : Nat) : Except StoreError UInt32 :=
  if index < UInt32.size then .ok (UInt32.ofNat index) else .error .codec

def insertStatement (document : String) (r : Report) (entry : String × Nat × Statement) :
    Action Transaction StoreError Report := do
  let (graph, index, statement) := entry
  let source := ⟨document, graph, ← ordinal index⟩
  let new ← insert (ground document statement) source
  return ⟨r.statements + 1, r.inserted + if new then 1 else 0⟩

end Index

/-- Indexes every statement of a dataset as a document, in one update. -/
def Store.index (s : Store) (document : String) (d : Dataset) :
    Except StoreError Index.Report × Store :=
  s.update (d.toList.foldlM (Index.insertStatement document) ⟨0, 0⟩)

end TriplePlan
