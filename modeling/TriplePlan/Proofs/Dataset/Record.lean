import TriplePlan.Dataset.Record
import TriplePlan.Proofs.Dataset
import TriplePlan.Proofs.Term.Record

/-! Datasets are read back from their JSON and CBOR records. Only the lists are written; what was
seen in each graph is made again from them. -/
namespace TriplePlan

namespace Statement

theorem readBack_toJson (s : Statement) : Json.ReadBack s.toJson := by
  apply Json.readBack_record
  simp [Term.readBack_toJson]

theorem ofJson?_toJson (s : Statement) : ofJson? s.toJson = some s := by
  have hrecord : s.toJson.record? ["subject", "predicate", "object"] 0 =
      some [some s.subject.toJson, some s.predicate.toJson, some s.object.toJson] := rfl
  rw [ofJson?, hrecord]
  simp only [Option.bind_eq_bind, Option.bind_some, Term.ofJson?_toJson]
  rfl

end Statement

namespace Json.Value

theorem members?_record (l : List (String × Value)) :
    members? (l.map fun m => (some m.1, m.2)) = some l := by
  induction l with
  | nil => rfl
  | cons m l ih =>
    rw [List.map_cons, members?, ih]
    rfl

theorem list?_array {α : Type} {write : α → Value} {read : Value → Option α}
    (h : ∀ a, read (write a) = some a) (l : List α) :
    (array (l.map write)).list? read = some l := by
  rw [list?]
  induction l with
  | nil => rfl
  | cons a l ih =>
    rw [List.map_cons, List.mapM_cons, h, ih]
    rfl

end Json.Value

namespace Dataset

theorem readBack_toJson (d : Dataset) : Json.ReadBack d.toJson := by
  apply Json.readBack_record
  intro m hm
  obtain ⟨g, -, rfl⟩ := List.mem_map.1 hm
  apply Json.readBack_array
  intro v hv
  obtain ⟨s, -, rfl⟩ := List.mem_map.1 hv
  exact s.readBack_toJson

theorem graphsOfJson?_toJson (d : Dataset) : graphsOfJson? d.toJson = some d.graphs := by
  simp only [toJson, Json.Value.record, graphsOfJson?, Json.Value.members?_record,
    Option.bind_eq_bind, Option.bind_some, List.foldlM_map,
    Json.Value.list?_array Statement.ofJson?_toJson, Option.map_some]
  have hfold := List.foldlM_pure (m := Option) (f := fun (g : Graphs) e => g.insert e.1 e.2)
    (b := .empty) (l := d.graphs.entries)
  rw [← OrderedMap.ofList, OrderedMap.ofList_entries] at hfold
  exact hfold

end Dataset

def Statement.texts (s : Statement) : List String := s.toList.flatMap Term.texts

/-- Eight bytes hold the numbers of graphs and statements and the lengths of all texts, as they do
of everything that stands in memory. -/
structure Dataset.WordSized (d : Dataset) : Prop where
  graphs : d.graphs.entries.length < Cbor.wordSize
  names : ∀ g ∈ d.graphs.entries, (Text.utf8 g.1).length < Cbor.wordSize
  lists : ∀ g ∈ d.graphs.entries, g.2.length < Cbor.wordSize
  texts : ∀ g ∈ d.graphs.entries, ∀ s ∈ g.2, Cbor.WordSized s.texts

namespace Cbor.Reader

theorem statement_toCbor {s : Statement} (h : WordSized s.texts) (room : Nat) (rest : Bytes) :
    statement room (s.toCbor ++ rest) = some (s, rest) := by
  have hterms : ∀ t ∈ s.toList, WordSized t.texts :=
    fun t ht x hx => h x (List.mem_flatMap.2 ⟨t, ht, hx⟩)
  obtain ⟨hs, hp, ho⟩ : WordSized s.subject.texts ∧ WordSized s.predicate.texts ∧
      WordSized s.object.texts := by
    simpa [Triple.toList] using hterms
  have hsubject : ∀ rest, statementField room {} (Text.utf8 "subject") (s.subject.toCbor ++ rest) =
      some ({ subject := some s.subject }, rest) := by
    intro rest
    rw [statementField, if_pos rfl, bind_eq (once_none (term_toCbor hs _ rest))]
    rfl
  have hpredicate : ∀ rest, statementField room { subject := some s.subject }
      (Text.utf8 "predicate") (s.predicate.toCbor ++ rest) =
      some ({ subject := some s.subject, predicate := some s.predicate }, rest) := by
    intro rest
    rw [statementField, if_neg (utf8_ne (by decide)), if_pos rfl,
      bind_eq (once_none (term_toCbor hp _ rest))]
    rfl
  have hobject : ∀ rest, statementField room
      { subject := some s.subject, predicate := some s.predicate }
      (Text.utf8 "object") (s.object.toCbor ++ rest) =
      some ({ subject := some s.subject, predicate := some s.predicate, object := some s.object },
        rest) := by
    intro rest
    rw [statementField, if_neg (utf8_ne (by decide)), if_neg (utf8_ne (by decide)), if_pos rfl,
      bind_eq (once_none (term_toCbor ho _ rest))]
    rfl
  have hfields : ReadsFields (statementField room) {}
      [("subject", s.subject.toCbor), ("predicate", s.predicate.toCbor),
        ("object", s.object.toCbor)]
      { subject := some s.subject, predicate := some s.predicate, object := some s.object } :=
    .cons (by decide) hsubject (.cons (by decide) hpredicate (.cons (by decide) hobject (.nil _)))
  rw [statement, Statement.toCbor,
    bind_eq (hfields.entries (by simp [wordSize, UInt64.size]) rest)]
  rfl

theorem graphs_toCbor {d : Dataset} (h : d.WordSized) (rest : Bytes) :
    graphs (d.toCbor ++ rest) = some (d.graphs, rest) := by
  have hlists : ∀ g ∈ d.graphs.entries, ∀ rest,
      list (statement (depth - 3)) (Cbor.array Statement.toCbor g.2 ++ rest) = some (g.2, rest) :=
    fun g hg => list_array (h.lists g hg) fun s hs => statement_toCbor (h.texts g hg s hs) _
  have hread := entries_foldl (f := fun (m : Graphs) name l => m.insert name l) h.graphs h.names
    hlists .empty rest
  rw [← OrderedMap.ofList, OrderedMap.ofList_entries] at hread
  exact hread

end Cbor.Reader

namespace Dataset

def answers (d : Dataset) : List (String × Statement) → List Bool
  | [] => []
  | e :: r => (d.insert e.1 e.2).1 :: answers (d.insert e.1 e.2).2 r

/-- A dataset that stands in for another one: it has the same lists and has seen the same
statements, and whatever is inserted into both gets the same answers. -/
structure Restores (d back : Dataset) : Prop where
  graphs : back.graphs = d.graphs
  seen : back.seen = d.seen
  answers : ∀ l, back.answers l = d.answers l

theorem Restores.refl (d : Dataset) : d.Restores d := ⟨rfl, rfl, fun _ => rfl⟩

/-- The first occurrences of every list, where there are any. -/
structure Collects (graphs : Graphs) (d : Dataset) : Prop where
  statements : ∀ name, d.statements name = ((graphs.get? name).getD []).eraseDups
  nonempty : ∀ name, d.graph? name ≠ some []

theorem collects_ofGraphs (graphs : Graphs) : Collects graphs (ofGraphs graphs) := by
  refine ⟨statements_ofGraphs graphs, fun name h => ?_⟩
  exact (ofGraphs graphs).nonempty _ (OrderedMap.mem_entries.2 h) rfl

/-- A dataset is read back from its JSON text and from its CBOR bytes, and any table of graphs is
read as the first occurrences of its lists. -/
theorem record_roundTrip (d : Dataset) :
    (∃ back, ofJson? d.toJson.render = some back ∧ d.Restores back) ∧
      (d.WordSized → ∃ back, ofCbor? d.toCbor = some back ∧ d.Restores back) ∧
      ∀ graphs, Collects graphs (ofGraphs graphs) := by
  refine ⟨⟨d, ?_, .refl d⟩, fun h => ⟨d, ?_, .refl d⟩, collects_ofGraphs⟩
  · simp only [ofJson?, Json.parse?_render d.readBack_toJson, graphsOfJson?_toJson,
      Option.bind_eq_bind, Option.bind_some, ofGraphs_graphs]
    rfl
  · have hread := Cbor.Reader.graphs_toCbor h []
    rw [List.append_nil] at hread
    rw [ofCbor?, Cbor.read?, hread, Option.map_some, Option.map_some, ofGraphs_graphs]

def edgeDataset : Dataset := (ofStatements
  [⟨.var ⟨"\"\\\n"⟩, .node (.iri "\x00\x7f"), .node (.literal "𝄞" none (some ""))⟩,
    ⟨.var ⟨""⟩, .node (.iri "/"), .node (.literal "" (some "") none)⟩]).insertAll "\t"
  [⟨.node (.iri "é"), .var ⟨"\x1f"⟩, .node (.literal "\r" (some "x") (some "en"))⟩]

theorem record_roundTrip_edgeDataset : edgeDataset.WordSized ∧
    ∃ back, ofCbor? edgeDataset.toCbor = some back ∧ edgeDataset.Restores back := by
  have hsized : edgeDataset.WordSized :=
    ⟨by decide, by decide, by decide, by decide⟩
  exact ⟨hsized, (record_roundTrip edgeDataset).2.1 hsized⟩

end Dataset

end TriplePlan
