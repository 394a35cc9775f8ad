import TriplePlan.Term
import TriplePlan.Text.Quoted

/-!
How terms are shown: a variable as a blank label, an IRI in angle brackets, a literal as its quoted
value with its language, or else its datatype.
-/
namespace TriplePlan

def Var.display (v : Var) : String := "_:" ++ v.label

def Node.display : Node → String
  | .iri text => "<" ++ text ++ ">"
  | .literal value _ (some language) => Text.quote value ++ "@" ++ language
  | .literal value (some datatype) none => Text.quote value ++ "^^<" ++ datatype ++ ">"
  | .literal value none none => Text.quote value

def Term.display : Term → String
  | .var v => v.display
  | .node n => n.display

end TriplePlan
