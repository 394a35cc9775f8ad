import TriplePlan.Position
import TriplePlan.Term.Display

/-!
Triples, and the statements that are triples of terms.
-/
namespace TriplePlan

@[ext] structure Triple (α : Type) where
  subject : α
  predicate : α
  object : α
deriving DecidableEq

namespace Triple

variable {α β : Type}

def get (t : Triple α) : Position → α
  | .subject => t.subject
  | .predicate => t.predicate
  | .object => t.object

def map (f : α → β) (t : Triple α) : Triple β := ⟨f t.subject, f t.predicate, f t.object⟩

def toList (t : Triple α) : List α := [t.subject, t.predicate, t.object]

/-- The two values after position `unknown`, going round, and then the value there. -/
def rotate (t : Triple α) (unknown : Position) : α × α × α :=
  (t.get (unknown.rotate 1), t.get (unknown.rotate 2), t.get unknown)

theorem ext_get {t u : Triple α} (h : ∀ p, t.get p = u.get p) : t = u :=
  Triple.ext (h .subject) (h .predicate) (h .object)

@[simp] theorem get_map (f : α → β) (t : Triple α) (p : Position) :
    (t.map f).get p = f (t.get p) := by
  cases p <;> rfl

end Triple

abbrev Statement := Triple Term

namespace Statement

def vars (s : Statement) : List Var := s.toList.filterMap Term.var?

def isGround (s : Statement) : Bool := s.vars.isEmpty

def nodes? (s : Statement) : Option (Triple Node) := do
  return ⟨← s.subject.node?, ← s.predicate.node?, ← s.object.node?⟩

def display (s : Statement) : String :=
  s.subject.display ++ " " ++ s.predicate.display ++ " " ++ s.object.display ++ " ."

end Statement

end TriplePlan
