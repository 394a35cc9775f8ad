import TriplePlan.Cbor.Reader
import TriplePlan.Store.Map

/-!
The file form of a store: a CBOR array of pairs, each of a key and a value as arrays of numbers.
-/
namespace TriplePlan.Store

def bytesToCbor (bs : Bytes) : Bytes := Cbor.array (fun b : UInt8 => Cbor.natural b.toNat) bs

def entryToCbor (e : Bytes × Bytes) : Bytes :=
  Cbor.head Cbor.arrayKind 2 ++ bytesToCbor e.1 ++ bytesToCbor e.2

def save (s : Store) : Bytes := Cbor.array entryToCbor s.entries

/-- Of entries with one key the last one counts. -/
def load? (bs : Bytes) : Option Store :=
  (Cbor.read? (Cbor.Reader.list (Cbor.Reader.pair Cbor.Reader.bytes Cbor.Reader.bytes)) bs).map
    .ofList

end TriplePlan.Store
