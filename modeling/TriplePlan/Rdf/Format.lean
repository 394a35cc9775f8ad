import TriplePlan.Text.FileName

/-!
RDF formats and the file extensions that name them.
-/
namespace TriplePlan.Rdf

inductive Format where
  | nTriples | nQuads | turtle | trig
deriving DecidableEq

namespace Format

def title : Format → String
  | .nTriples => "N-Triples"
  | .nQuads => "N-Quads"
  | .turtle => "Turtle"
  | .trig => "TriG"

def ofExtension? : String → Option Format
  | "nt" => some .nTriples
  | "nq" => some .nQuads
  | "ttl" => some .turtle
  | "trig" => some .trig
  | _ => none

end Format

def fileName? (path : String) : Option (List Char) :=
  match (path.toList.splitOn '/').reverse.dropWhile fun s => s = [] ∨ s = ['.'] with
  | [] => none
  | name :: _ => if name = ['.', '.'] then none else some name

def extensionOf (path : String) : String :=
  String.ofList ((((fileName? path).bind Text.extension?).getD []).map Char.toLower)

def Format.ofPath (path : String) : Except String Format :=
  match ofExtension? (extensionOf path) with
  | some f => .ok f
  | none => .error (extensionOf path)

def extensionMessage (path extension : String) : String :=
  "unsupported RDF file extension `" ++ extension ++ "` for " ++ path

end TriplePlan.Rdf
