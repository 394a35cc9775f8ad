import TriplePlan.Rdf.Lexeme
import TriplePlan.Rdf.Name
import TriplePlan.Rdf.Quad

/-!
N-Triples and N-Quads documents: one statement a line, blanks and a comment around it.
-/
namespace TriplePlan.Rdf.Lines

def skipBlank (s : List Char) : List Char := s.dropWhile fun c => c = ' ' || c = '\t'

def nextLine (s : List Char) : List Char := (s.dropWhile (· ≠ '\n')).drop 1

def iri? (s : List Char) : Option (Item × List Char) :=
  (Lexeme.iri? none s).map fun x => (.iri x.1, x.2)

def label? (s : List Char) : Option (Item × List Char) :=
  (Name.label? s).map fun x => (.blank x.1, x.2)

def literal? (s : List Char) : Option (Item × List Char) := do
  let (value, r) ← Lexeme.shortString? s
  match skipBlank r with
  | '@' :: r => let (tag, r) ← Lexeme.language? ('@' :: r); return (.tagged value tag, r)
  | '^' :: '^' :: r =>
    let (datatype, r) ← Lexeme.iri? none (skipBlank r)
    return (.typed value datatype, r)
  | '^' :: _ => none
  | r => return (.plain value, r)

def item? (quoted : List Char → Option (Item × List Char)) (literals : Bool) (s : List Char) :
    Option (Item × List Char) :=
  match s with
  | '<' :: '<' :: r => quoted r
  | '_' :: _ => label? s
  | '"' :: _ => if literals then literal? s else none
  | _ => iri? s

/-- A quoted triple behind its opening marks, with at most `room` triples in each other. -/
def quoted? : (room : Nat) → List Char → Option (Item × List Char)
  | 0, _ => none
  | room + 1, s => do
    let (subject, r) ← item? (quoted? room) false (skipBlank s)
    let (predicate, r) ← iri? (skipBlank r)
    let (object, r) ← item? (quoted? room) true (skipBlank r)
    match skipBlank r with
    | '>' :: '>' :: r => return (.quoted subject predicate object, r)
    | _ => none

def graph? (s : List Char) : Option (Option Item × List Char) :=
  match s with
  | '<' :: _ => (iri? s).map fun x => (some x.1, x.2)
  | '_' :: _ => (label? s).map fun x => (some x.1, x.2)
  | _ => some (none, s)

def statement? (quads : Bool) (s : List Char) : Option (Quad × List Char) := do
  let (subject, r) ← item? (quoted? nestingLimit) false s
  let (predicate, r) ← iri? (skipBlank r)
  let (object, r) ← item? (quoted? nestingLimit) true (skipBlank r)
  let (graph, r) ← if quads then graph? (skipBlank r) else some (none, r)
  match skipBlank r with
  | '.' :: r => return (⟨subject, predicate, object, graph⟩, r)
  | _ => none

def atLineEnd (s : List Char) : Bool :=
  match s with
  | c :: _ => c = '#' || c = '\r' || c = '\n'
  | [] => true

def document? (quads : Bool) : (fuel : Nat) → List Char → Option (List Quad)
  | 0, s => if s.isEmpty then some [] else none
  | fuel + 1, s =>
    if s.isEmpty then some []
    else
      let s := skipBlank s
      if atLineEnd s then document? quads fuel (nextLine s)
      else do
        let (q, r) ← statement? quads s
        let r := skipBlank r
        if atLineEnd r then return q :: (← document? quads fuel (nextLine r)) else none

def parse? (quads : Bool) (s : List Char) : Option (List Quad) := document? quads (s.length + 1) s

end TriplePlan.Rdf.Lines
