import TriplePlan.Rdf.Escape
import TriplePlan.Term
import TriplePlan.Text.Blank

/-!
Terms written as single texts: an IRI in angle brackets, a blank label, or a quoted literal with a
language or datatype.
-/
namespace TriplePlan.Rdf

def xsdString : String := "http://www.w3.org/2001/XMLSchema#string"
def langString : String := "http://www.w3.org/1999/02/22-rdf-syntax-ns#langString"

inductive TermError where
  | unclosedLiteral (text : String)
  | unsupported (text : String)
  | literalGraph (text : String)
deriving DecidableEq

def TermError.message : TermError → String
  | .unclosedLiteral text => "invalid literal term (missing closing quote): " ++ text
  | .unsupported text => "unsupported RDF term form: " ++ text
  | .literalGraph text => "literal graph name: " ++ text

def bracketed? : List Char → Option (List Char)
  | '<' :: r => if r.getLast? = some '>' then some r.dropLast else none
  | _ => none

/-- The text up to the first quote that no backslash escapes, and what follows the quote. -/
def splitQuoted (escaped : Bool) : List Char → Option (List Char × List Char)
  | [] => none
  | c :: r =>
    if c = '"' ∧ ¬escaped then some ([], r)
    else (splitQuoted (c = '\\' && !escaped) r).map fun x => (c :: x.1, x.2)

def datatypeOf (s : List Char) : Option String :=
  let s := Text.trim s
  let name := String.ofList ((bracketed? s).getD s)
  if name.isEmpty || name == xsdString || name == langString then none else some name

/-- The datatype and the language that follow a literal. Anything else is passed over. -/
def annotationsOf (s : List Char) : Option String × Option String :=
  match Text.trim s with
  | '@' :: language => (none, some (String.ofList language))
  | '^' :: '^' :: datatype => (datatypeOf datatype, none)
  | _ => (none, none)

def parseTerm (text : String) : Except TermError Term :=
  let s := Text.trim text.toList
  match bracketed? s with
  | some iri => .ok (.node (.iri (String.ofList iri)))
  | none =>
    match s with
    | '_' :: ':' :: label => .ok (.var ⟨String.ofList label⟩)
    | '"' :: r =>
      match splitQuoted false r with
      | none => .error (.unclosedLiteral (String.ofList s))
      | some (value, rest) =>
        let (datatype, language) := annotationsOf rest
        .ok (.node (.literal (String.ofList (unescape value)) datatype language))
    | _ => .error (.unsupported (String.ofList s))

def parseGraph (text : String) : Except TermError String :=
  match parseTerm text with
  | .ok (.node (.iri iri)) => .ok iri
  | .ok (.var v) => .ok ("_:" ++ v.label)
  | .ok (.node (.literal ..)) => .error (.literalGraph text)
  | .error e => .error e

end TriplePlan.Rdf
