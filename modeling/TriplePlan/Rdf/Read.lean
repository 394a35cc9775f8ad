import TriplePlan.Rdf.Format
import TriplePlan.Rdf.Lines
import TriplePlan.Rdf.Sink
import TriplePlan.Rdf.Turtle

/-!
Reading RDF documents into datasets. One error anywhere refuses the whole document.
-/
namespace TriplePlan.Rdf

inductive ReadError where
  | syntaxError (format : Format)
  | unreadable
  | extension (path extension : String)
deriving DecidableEq

def syntaxMessage (format : Format) : String := "failed to parse " ++ format.title

def parseQuads? (format : Format) (s : List Char) : Option (List Quad) :=
  match format with
  | .nTriples => Lines.parse? false s
  | .nQuads => Lines.parse? true s
  | .turtle => Turtle.parse? false s
  | .trig => Turtle.parse? true s

def itemText (i : Item) : String := String.ofList i.display

def Sink.pushQuad (k : Sink) (q : Quad) : Except TermError Sink := do
  let graph ← q.graph.mapM fun g => parseGraph (itemText g)
  match k.push ⟨itemText q.subject, itemText q.predicate, itemText q.object⟩ graph with
  | (.ok (), k) => return k
  | (.error e, _) => throw e

def read (format : Format) (bytes : Bytes) : Except ReadError Dataset :=
  match parseQuads? format (Text.octets bytes) with
  | none => .error (.syntaxError format)
  | some quads =>
    match quads.foldlM Sink.pushQuad .empty with
    | .ok k => .ok k.dataset
    | .error _ => .error (.syntaxError format)

def readNamed (path : String) (contents : Option Bytes) : Except ReadError Dataset :=
  match Format.ofPath path with
  | .error extension => .error (.extension path extension)
  | .ok format =>
    match contents with
    | none => .error .unreadable
    | some bytes => read format bytes

end TriplePlan.Rdf
