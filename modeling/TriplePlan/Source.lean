import TriplePlan.Bytes

/-!
Where a stored triple was stated: the document, the graph and the index of a statement, a number
of 32 bits. A list of sources is kept in ascending order without repetition: a new one is put where
a binary search for it ends.
-/
namespace TriplePlan

structure Source where
  document : String
  graph : String
  index : UInt32
deriving DecidableEq

def Source.cmp (a b : Source) : Ordering :=
  (Text.cmp a.document b.document).then
    ((Text.cmp a.graph b.graph).then (compare a.index.toNat b.index.toNat))

structure SourceList where
  sources : List Source
deriving DecidableEq

namespace SourceList

def empty : SourceList := ⟨[]⟩

inductive Site where
  | taken (index : Nat)
  | free (index : Nat)
deriving DecidableEq

/-- Searches sources in ascending order, the first of which has the index `start`: the one in the
middle tells which half to go on in. It may be unfolded, so that a search in a given list can be
decided. -/
@[semireducible]
def search (s : Source) (l : List Source) (start : Nat) : Site :=
  match _ : l.drop (l.length / 2) with
  | [] => .free start
  | t :: r =>
    match t.cmp s with
    | .lt => search s r (start + l.length / 2 + 1)
    | .eq => .taken (start + l.length / 2)
    | .gt => search s (l.take (l.length / 2)) start
termination_by l.length
decreasing_by
  all_goals
    have hlength := congrArg List.length ‹l.drop (l.length / 2) = t :: r›
    simp only [List.length_drop, List.length_cons, List.length_take] at hlength ⊢
    omega

def insert (l : SourceList) (s : Source) : Bool × SourceList :=
  match search s l.sources 0 with
  | .taken _ => (false, l)
  | .free index => (true, ⟨l.sources.insertIdx index s⟩)

def size (l : SourceList) : Nat := l.sources.length
def isEmpty (l : SourceList) : Bool := l.sources.isEmpty

end SourceList

end TriplePlan
