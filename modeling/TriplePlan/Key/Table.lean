import TriplePlan.Statement
import TriplePlan.Key.Node

/-!
The keys of the three tables of an index. A value key holds a whole triple in one rotation, a minor
key the two key nodes of a rotation, a major key one node at its position. Every key starts with the
byte of its table and position.
-/
namespace TriplePlan.Key

def valueTable : Nat := 0x10
def minorTable : Nat := 0x20
def majorTable : Nat := 0x30

def tableTag (table : Nat) (p : Position) : UInt8 := UInt8.ofNat (table + p.index)

def valuePrefix (unknown : Position) (m n : Node) : Bytes :=
  tableTag valueTable unknown :: (encodeNode m ++ encodeNode n)

def valueKey (unknown : Position) (m n u : Node) : Bytes := valuePrefix unknown m n ++ encodeNode u

def minorKey (unknown : Position) (m n : Node) : Bytes :=
  tableTag minorTable unknown :: (encodeNode m ++ encodeNode n)

def majorKey (position : Position) (constant : Node) : Bytes :=
  tableTag majorTable position :: encodeNode constant

def tripleKey (t : Triple Node) (unknown : Position) : Bytes :=
  let (m, n, u) := t.rotate unknown
  valueKey unknown m n u

/-- The node behind the first `length` bytes of a key. What follows the node is not looked at. -/
def nodeBehind (key : Bytes) (length : Nat) : Except KeyError Node :=
  if length ≤ key.length then (decodeNode (key.drop length)).map (·.1)
  else .error (.truncated length)

def encodeCount (n : Nat) : Bytes :=
  [56, 48, 40, 32, 24, 16, 8, 0].map fun shift => UInt8.ofNat (n >>> shift)

def decodeCount? (bs : Bytes) : Option Nat :=
  if bs.length = 8 then some (bs.foldl (fun n b => n * 256 + b.toNat) 0) else none

end TriplePlan.Key
