import TriplePlan.OrderedMap
import TriplePlan.Plan.Reference
import TriplePlan.StableSort

/-!
The past of a variable: the references it is advanced with in step with earlier variables, group by
group, an index by earlier variable and place, and the order in which they are merged.
-/
namespace TriplePlan

abbrev PastKey := Var × Nat

namespace PastKey

def cmp (a b : PastKey) : Ordering := (Var.cmp a.1 b.1).then (compare a.2 b.2)

instance : Std.TransCmp cmp :=
  inferInstanceAs (Std.TransCmp (compareLex (compareOn fun k : PastKey => Text.utf8 k.1.label)
    (compareOn fun k => k.2)))

instance : Std.LawfulEqCmp cmp where
  eq_of_compare {a b} h := by
    obtain ⟨hdep, hoffset⟩ := Ordering.then_eq_eq.1 h
    exact Prod.ext (Std.LawfulEqCmp.eq_of_compare hdep) (Std.LawfulEqCmp.eq_of_compare hoffset)

end PastKey

abbrev PastIndex := OrderedMap PastKey Nat PastKey.cmp

structure Past where
  cursors : List RefId
  /-- The evaluation position of the variable behind each cursor. -/
  positions : List Nat
  /-- The place of a cursor in these lists, by the variable and the place in its group. -/
  index : PastIndex
  groups : List (Var × Nat)
  /-- The merge order, as places in the lists. -/
  order : List Nat
  positions_length : positions.length = cursors.length
  index_lt : ∀ x ∈ index.entries, x.2 < cursors.length
deriving DecidableEq

namespace Past

def empty : Past := ⟨[], [], .empty, [], [], rfl, by simp [OrderedMap.empty]⟩

def pushCursor (dep : Var) (position : Nat) (p : Past) (x : RefId × Nat) : Past :=
  { p with
    cursors := p.cursors ++ [x.1]
    positions := p.positions ++ [position]
    index := p.index.insert (dep, x.2) p.cursors.length
    positions_length := by simp [p.positions_length]
    index_lt := by
      intro y hy
      rw [List.length_append, List.length_singleton]
      rcases OrderedMap.mem_insertEntry hy with rfl | hy
      · exact Nat.lt_succ_self _
      · exact Nat.lt_succ_of_lt (p.index_lt y hy) }

def push (p : Past) (dep : Var) (position : Nat) (refs : List RefId) : Past :=
  let pushed := refs.zipIdx.foldl (pushCursor dep position) p
  { pushed with groups := pushed.groups ++ [(dep, position)] }

def mark (dep : Var) (offset : Nat) (r : Reference) : Reference :=
  { r with cursor := r.cursor.map fun c => { c with follows := some dep, offset } }

def follow (dep : Var) (refs : List RefId) (references : List Reference) : List Reference :=
  refs.zipIdx.foldl (fun l x => l.modify x.1 (mark dep x.2)) references

def countOf (references : List Reference) (rid : RefId) : Nat :=
  ((references[rid]?.bind (·.cursor)).map (·.count)).getD 0

/-- What the cursor at a place is merged by: the position of its variable, then its own count. -/
def rank (p : Past) (references : List Reference) (i : Nat) : Nat × Nat :=
  ((p.positions[i]?).getD 0, ((p.cursors[i]?).map (countOf references)).getD 0)

def rankLe (a b : Nat × Nat) : Bool := a.1 < b.1 || (a.1 == b.1 && a.2 ≤ b.2)

def finish (p : Past) (references : List Reference) : Past :=
  { p with
    order := stableSort (fun i j => rankLe (p.rank references i) (p.rank references j))
      (List.range p.cursors.length) }

def size (p : Past) : Nat := p.cursors.length
def isEmpty (p : Past) : Bool := p.cursors.isEmpty

def lookup (p : Past) (dep : Var) (offset : Nat) : Option RefId :=
  (p.index.get? (dep, offset)).bind (p.cursors[·]?)

/-- Walks the index from the first place of the variable on, as long as keys are of it. -/
def cursorsFor (p : Past) (dep : Var) : List RefId :=
  let block := (p.index.entries.dropWhile fun x => PastKey.cmp x.1 (dep, 0) = .lt).takeWhile
    fun x => x.1.1 = dep
  block.filterMap fun x => p.cursors[x.2]?

def inMergeOrder (p : Past) : List RefId := p.order.filterMap (p.cursors[·]?)

end Past

end TriplePlan
