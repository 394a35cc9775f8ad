import TriplePlan.Key.Table
import TriplePlan.Store.Map

/-!
Reading counters and candidates from a state of the store.
-/
namespace TriplePlan

variable {σ : Type} [Readable σ]

/-- A counter that is not there counts nothing. -/
def readCount (s : σ) (key : Bytes) : Except StoreError Nat := do
  match ← Readable.get? s key with
  | none => return 0
  | some value =>
    match Key.decodeCount? value with
    | some n => return n
    | none => throw (.corruptCounter key value.length)

/-- The node behind a value prefix, encoded anew, so that a malformed key is noticed. -/
def candidate (start key : Bytes) : Except StoreError Bytes :=
  match Key.nodeBehind key start.length with
  | .ok node => .ok (Key.encodeNode node)
  | .error e => .error (.corruptKey e)

/-- The encoded nodes that complete `(m, n)` in the rotation of `unknown`, in ascending order. -/
def candidateValues (s : σ) (unknown : Position) (m n : Node) : Except StoreError (List Bytes) := do
  let start := Key.valuePrefix unknown m n
  (← Readable.scan s start).mapM fun e => candidate start e.1

end TriplePlan
