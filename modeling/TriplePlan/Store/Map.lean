import TriplePlan.OrderedMap
import TriplePlan.Store.Error

/-!
A store is an ordered map from keys to values. Readers ask a state of it for single keys and for the
entries under a prefix.
-/
namespace TriplePlan

abbrev Store := OrderedMap Bytes Bytes compare

/-- Entries in ascending key order, from the first key not below the prefix as long as it is one. -/
def scan {υ : Type} (entries : List (Bytes × υ)) (start : Bytes) : List (Bytes × υ) :=
  (entries.dropWhile fun e => compare e.1 start = .lt).takeWhile fun e => start.isPrefixOf e.1

/-- A state of a store. Reading it may fail, as it does where the store is not in memory. -/
class Readable (σ : Type) where
  get? : σ → Bytes → Except StoreError (Option Bytes)
  scan : σ → Bytes → Except StoreError (List (Bytes × Bytes))

instance : Readable Store where
  get? s k := .ok (s.get? k)
  scan s p := .ok (TriplePlan.scan s.entries p)

end TriplePlan
