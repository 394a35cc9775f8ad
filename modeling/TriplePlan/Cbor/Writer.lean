import TriplePlan.Bytes

/-!
Writing CBOR: definite lengths and the shortest head for every count.
-/
namespace TriplePlan.Cbor

def bigEndian : Nat → Nat → Bytes
  | 0, _ => []
  | n + 1, x => UInt8.ofNat (x >>> (8 * n)) :: bigEndian n x

def unsignedKind : Nat := 0
def textKind : Nat := 3
def arrayKind : Nat := 4
def mapKind : Nat := 5

/-- The head of an item: its kind and its count, in as few bytes as hold the count. -/
def head (kind count : Nat) : Bytes :=
  let first (low : Nat) := UInt8.ofNat (kind * 32 + low)
  if count < 24 then [first count]
  else if count < UInt8.size then first 24 :: bigEndian 1 count
  else if count < UInt16.size then first 25 :: bigEndian 2 count
  else if count < UInt32.size then first 26 :: bigEndian 4 count
  else first 27 :: bigEndian 8 count

def natural (n : Nat) : Bytes := head unsignedKind n

def text (s : String) : Bytes := head textKind (Text.utf8 s).length ++ Text.utf8 s

def null : Bytes := [0xf6]

def array {α : Type} (item : α → Bytes) (l : List α) : Bytes :=
  head arrayKind l.length ++ l.flatMap item

def map (entries : List (String × Bytes)) : Bytes :=
  head mapKind entries.length ++ entries.flatMap fun e => text e.1 ++ e.2

end TriplePlan.Cbor
