import TriplePlan.Action
import TriplePlan.OrderedMap
import TriplePlan.Plan.Reference
import TriplePlan.StableSort

/-!
The codex of a variable groups its references by shape. A codex map holds all references of a
pattern and one codex for each variable, in first-seen order until it is sorted. Probing attaches
a cursor to every single and double reference and sums up their counts.
-/
namespace TriplePlan

def maxCount : Nat := UInt64.size - 1

structure Stats where
  count : Nat
  norm : Nat
  length : Nat
deriving DecidableEq

namespace Stats

def zero : Stats := ⟨0, 0, 0⟩

def add (s : Stats) (n : Nat) : Stats :=
  ⟨min (s.count + n) maxCount, min (s.norm + min (n * n) maxCount) maxCount, s.length + 1⟩

end Stats

abbrev Groups := OrderedMap Var (List RefId) Var.cmp

structure Codex.Content where
  constraint : List RefId
  single : List RefId
  /-- The variable stands beside another one, which names the group. -/
  double : Groups
  stats : Stats
deriving DecidableEq

namespace Codex.Content

def empty : Content := ⟨[], [], .empty, .zero⟩

def pushSingle (rid : RefId) (c : Content) : Content := { c with single := c.single ++ [rid] }

def pushConstraint (rid : RefId) (c : Content) : Content :=
  { c with constraint := c.constraint ++ [rid] }

def pushDouble (other : Var) (rid : RefId) (c : Content) : Content :=
  { c with double := c.double.insert other ((c.double.get? other).getD [] ++ [rid]) }

end Codex.Content

structure Codex extends Codex.Content where
  id : Var
deriving DecidableEq

def Codex.probedRefs (c : Codex) : List RefId := c.single ++ c.double.values.flatten

inductive VariableOrder where
  | descendingCount | ascendingCount
deriving DecidableEq

/-- Whether a variable with count `a` may stand before one with count `b`. -/
def VariableOrder.le : VariableOrder → Nat → Nat → Bool
  | .descendingCount, a, b => b ≤ a
  | .ascendingCount, a, b => a ≤ b

@[ext] structure CodexMap where
  references : List Reference
  index : OrderedMap Var Codex.Content Var.cmp
  /-- The variables in first-seen order, until they are sorted. -/
  slice : List Var
  probed : Bool
  slice_nodup : slice.Nodup
  mem_slice : ∀ id, id ∈ slice ↔ index.contains id
deriving DecidableEq

namespace CodexMap

def empty : CodexMap := ⟨[], .empty, [], false, .nil, by simp [OrderedMap.contains, OrderedMap.get?,
  OrderedMap.empty, OrderedMap.lookup]⟩

def size (m : CodexMap) : Nat := m.slice.length
def isEmpty (m : CodexMap) : Bool := m.slice.isEmpty
def ids (m : CodexMap) : List Var := m.slice

def codex? (m : CodexMap) (id : Var) : Option Codex := (m.index.get? id).map (⟨·, id⟩)

def codex (m : CodexMap) (id : Var) : Codex := ⟨(m.index.get? id).getD .empty, id⟩

def codexes (m : CodexMap) : List Codex := m.slice.map m.codex

def see (m : CodexMap) (id : Var) : CodexMap :=
  if hid : m.index.contains id then m
  else { m with
    index := m.index.insert id .empty
    slice := m.slice ++ [id]
    slice_nodup := List.nodup_append.2 ⟨m.slice_nodup, by simp, by
      intro v hv w hw
      rintro rfl
      rw [List.mem_singleton.1 hw] at hv
      exact hid ((m.mem_slice id).1 hv)⟩
    mem_slice := fun v => by
      rw [List.mem_append, m.mem_slice, List.mem_singleton, OrderedMap.contains,
        OrderedMap.contains, OrderedMap.get?_insert]
      by_cases hv : v = id <;> simp [hv] }

def adjust (m : CodexMap) (id : Var) (f : Codex.Content → Codex.Content) : CodexMap :=
  { m with
    index := m.index.modify id f
    mem_slice := fun v => by rw [m.mem_slice, OrderedMap.contains_modify] }

def modify (m : CodexMap) (id : Var) (f : Codex.Content → Codex.Content) : CodexMap :=
  (m.see id).adjust id f

def pushReference (m : CodexMap) (r : Reference) : RefId × CodexMap :=
  (m.references.length, { m with references := m.references ++ [r] })

def insertDouble (m : CodexMap) (a b : Var) (rid : RefId) : CodexMap :=
  m.modify a (·.pushDouble b rid)

/-- Adds both halves of a statement with two variables, linked to each other. -/
def insertPair (m : CodexMap) (a : Var) (refA : Reference) (b : Var) (refB : Reference) :
    CodexMap :=
  let idA := m.references.length
  let idB := idA + 1
  let halves := [{ refA with dual := some idB }, { refB with dual := some idA }]
  ({ m with references := m.references ++ halves }.insertDouble a b idA).insertDouble b a idB

section Probe

variable {σ : Type} [Readable σ]

/-- Probes one reference of `id` and adds its count. One without a count key is passed over. -/
def probeReference (s : σ) (id : Var) (stats : Stats) (rid : RefId) :
    Action (List Reference) PlanError Stats := do
  let references ← get
  match references[rid]? with
  | none => return stats
  | some r =>
    match r.countKey? with
    | none => return stats
    | some key =>
      let count ← (readCount s key).mapError PlanError.store
      set (references.set rid (← r.attach (.probed key count)))
      -- The cursor is there before its count is looked at.
      if count = 0 then throw (.zeroCandidates id r.graph r.index r.permutation)
      return stats.add count

/-- Probes the references of a variable, and keeps the sum if there are candidates for all. -/
def probeVar (s : σ) (id : Var) : Action CodexMap PlanError Unit := fun m =>
  match (m.codex id).probedRefs.foldlM (probeReference s id) .zero m.references with
  | (.ok stats, references) => (.ok (), { m with references }.adjust id ({ · with stats }))
  | (.error e, references) => (.error e, { m with references })

def probeAll (s : σ) : Action CodexMap PlanError Unit := do (← get).slice.forM (probeVar s)

end Probe

def close (m : CodexMap) : CodexMap :=
  { m with references := m.references.map .release, probed := false }

def attachedCursors (m : CodexMap) : Nat := m.references.countP (·.cursor.isSome)

/-- Probes every reference once. When that fails all cursors attached until then are released. -/
def probe {σ : Type} [Readable σ] (m : CodexMap) (s : σ) : Except PlanError Unit × CodexMap :=
  if m.probed then (.error .alreadyProbed, m)
  else
    match probeAll s m with
    | (.ok (), m) => (.ok (), { m with probed := true })
    | (.error e, m) => (.error e, m.close)

/-- Sorts the variables by count; equal counts keep their order. -/
def sort (m : CodexMap) (order : VariableOrder) : CodexMap :=
  { m with
    slice := stableSort
      (fun a b => order.le (m.codex a).stats.count (m.codex b).stats.count) m.slice
    slice_nodup := (stableSort_perm _ _).nodup_iff.2 m.slice_nodup
    mem_slice := fun v => by rw [(stableSort_perm _ _).mem_iff, m.mem_slice] }

def displayRefs (m : CodexMap) (l : List RefId) : String :=
  ", ".intercalate (l.filterMap fun rid => m.references[rid]?.map Reference.display)

def displayCodex (m : CodexMap) (c : Codex) : String :=
  c.id.display ++ ":\n  Constraint: [" ++ m.displayRefs c.constraint ++ "]\n  Singles: ["
    ++ m.displayRefs c.single ++ "]\n  Doubles:\n"
    ++ String.join (c.double.entries.map fun g =>
      "    " ++ g.1.display ++ ": [" ++ m.displayRefs g.2 ++ "]\n")
    ++ "  Count: " ++ toString c.stats.count ++ " Norm: " ++ toString c.stats.norm ++ " Length: "
    ++ toString c.stats.length ++ "\n"

def display (m : CodexMap) : String := String.join (m.codexes.map m.displayCodex)

end CodexMap

end TriplePlan
