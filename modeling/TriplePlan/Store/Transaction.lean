import TriplePlan.Action
import TriplePlan.Store.Map

/-!
Updates of a store. A transaction collects writes over a base state and reads through them; its
writes are published together, once the update has succeeded.
-/
namespace TriplePlan

structure Transaction where
  base : Store
  /-- Pending writes; `none` deletes. -/
  writes : OrderedMap Bytes (Option Bytes) compare

namespace Transaction

def start (s : Store) : Transaction := ⟨s, .empty⟩

def put (t : Transaction) (key value : Bytes) : Transaction :=
  { t with writes := t.writes.insert key (some value) }

def delete (t : Transaction) (key : Bytes) : Transaction :=
  { t with writes := t.writes.insert key none }

def applyWrite (m : Store) (w : Bytes × Option Bytes) : Store :=
  match w.2 with
  | some value => m.insert w.1 value
  | none => m.erase w.1

def applyWrites (m : Store) (l : List (Bytes × Option Bytes)) : Store := l.foldl applyWrite m

def get? (t : Transaction) (key : Bytes) : Option Bytes :=
  match t.writes.get? key with
  | some pending => pending
  | none => t.base.get? key

/-- The entries of the base under the prefix, with the pending writes under it carried out. -/
def scan (t : Transaction) (start : Bytes) : List (Bytes × Bytes) :=
  (applyWrites (.ofList (TriplePlan.scan t.base.entries start))
    (TriplePlan.scan t.writes.entries start)).entries

def commit (t : Transaction) : Store := applyWrites t.base t.writes.entries

instance : Readable Transaction where
  get? t key := .ok (t.get? key)
  scan t start := .ok (t.scan start)

end Transaction

/-- Runs an update in a transaction over the store as it is, and then publishes what it wrote. -/
def Transaction.run {ε α : Type} (f : Action Transaction ε α) : Action Store ε α := do
  let (result, t) := f (.start (← get))
  let a ← result
  if !t.writes.isEmpty then set t.commit
  return a

def Store.update {ε α : Type} (s : Store) (f : Action Transaction ε α) : Except ε α × Store :=
  Transaction.run f s

end TriplePlan
