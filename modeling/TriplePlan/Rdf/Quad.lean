/-!
What RDF documents state: quads of IRIs, blank nodes, literals and quoted triples, and how these are
written as term texts.
-/
namespace TriplePlan.Rdf

inductive Item where
  | iri (text : List Char)
  | blank (label : List Char)
  | plain (value : List Char)
  | tagged (value language : List Char)
  | typed (value datatype : List Char)
  | quoted (subject predicate object : Item)

def escapeChar : Char → List Char
  | '\n' => ['\\', 'n']
  | '\r' => ['\\', 'r']
  | '"' => ['\\', '"']
  | '\\' => ['\\', '\\']
  | c => [c]

def quotedValue (value : List Char) : List Char := '"' :: (value.flatMap escapeChar ++ ['"'])

def bracket (text : List Char) : List Char := '<' :: (text ++ ['>'])

def Item.display : Item → List Char
  | .iri text => bracket text
  | .blank label => '_' :: ':' :: label
  | .plain value => quotedValue value
  | .tagged value language => quotedValue value ++ '@' :: language
  | .typed value datatype => quotedValue value ++ '^' :: '^' :: bracket datatype
  | .quoted s p o =>
    "<< ".toList ++ s.display ++ ' ' :: (p.display ++ ' ' :: (o.display ++ " >>".toList))

/-- How deep a document may nest quoted triples, and lists and brackets with them. -/
def nestingLimit : Nat := 128

structure Quad where
  subject : Item
  predicate : Item
  object : Item
  graph : Option Item

end TriplePlan.Rdf
