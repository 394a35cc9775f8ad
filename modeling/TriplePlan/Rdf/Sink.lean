import TriplePlan.Dataset
import TriplePlan.Rdf.TermText

/-!
Collecting statements from term texts into a dataset. A statement whose predicate is no IRI is
skipped.
-/
namespace TriplePlan.Rdf

structure Sink where
  dataset : Dataset
  seen : Nat
  /-- Statements skipped for their predicate. -/
  skipped : Nat

namespace Sink

def empty : Sink := ⟨.empty, 0, 0⟩

def isIri : Term → Bool
  | .node (.iri _) => true
  | _ => false

def push (k : Sink) (t : Triple String) (graph : Option String) : Except TermError Unit × Sink :=
  let k := { k with seen := k.seen + 1 }
  match parseTerm t.predicate with
  | .error e => (.error e, k)
  | .ok p =>
    if isIri p then
      match parseTerm t.subject with
      | .error e => (.error e, k)
      | .ok s =>
        match parseTerm t.object with
        | .error e => (.error e, k)
        | .ok o =>
          let name := graph.getD Dataset.defaultGraph
          (.ok (), { k with dataset := (k.dataset.insert name ⟨s, p, o⟩).2 })
    else (.ok (), { k with skipped := k.skipped + 1 })

end Sink

end TriplePlan.Rdf
