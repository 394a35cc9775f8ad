import TriplePlan.Proofs.Dataset
import TriplePlan.Proofs.Except
import TriplePlan.Proofs.Plan.Classify
import TriplePlan.Rdf.Read

/-! Patterns that are collected from term texts. Whatever is offered to a sink, and in whatever
order some of it is refused, every predicate that it keeps is an identifier. So what it holds can
be classified, and no reference asks for a predicate. -/
namespace TriplePlan

def Permutation.unknowns : Permutation → List Position
  | .single u => [u]
  | .pair q => [q.rotate 1, q.rotate 2]
  | .ground => []

theorem Files.isVar_of_mem_unknowns {e : String × Nat × Statement} {f : Filing} (h : Files e f) :
    ∀ p ∈ f.reference.permutation.unknowns, (e.2.2.get p).isVar = true := by
  cases h <;> simp [Reference.plain, Permutation.unknowns, Term.isVar]

/-- A pattern without variable predicates is classified, and no reference leaves one open. -/
theorem classify_of_constant_predicates {pattern : Dataset}
    (h : ∀ e ∈ pattern.toList, (e.2.2.get .predicate).isVar = false) :
    ∃ c, classify pattern = .ok c ∧
      ∀ r ∈ c.constants ++ c.codexMap.references, .predicate ∉ r.permutation.unknowns := by
  obtain ⟨c, hc, -, hd⟩ | ⟨before, e, after, hsplit, -, hopen, -⟩ := classify_eq pattern
  · refine ⟨c, hc, fun r hr => ?_⟩
    cases List.mem_append.1 hr with
    | inl hr =>
      rw [hd.constants] at hr
      obtain ⟨e, -, rfl⟩ := List.mem_map.1 hr
      exact List.not_mem_nil
    | inr hr =>
      obtain ⟨rid, hrid⟩ := List.mem_iff_getElem?.1 hr
      obtain ⟨f, hf, hcore⟩ := hd.filed.references.exists_filing hrid
      obtain ⟨e, he, hfe⟩ := List.mem_flatMap.1 (List.mem_of_getElem? hf)
      have hperm : r.permutation = f.reference.permutation := by
        rw [← hcore]
        rfl
      intro hmem
      rw [hperm] at hmem
      have hvar := (files_of_mem hfe).isVar_of_mem_unknowns _ hmem
      rw [h e he] at hvar
      cases hvar
  · have hmem : e ∈ pattern.toList := hsplit ▸ List.mem_append_right _ List.mem_cons_self
    have hconstant := h e hmem
    rw [hopen .predicate] at hconstant
    cases hconstant

namespace Rdf.Sink

/-- How a push ends. It fails on the first text that is no term, the predicate being read before
the subject and the object; it skips a predicate that is no identifier; and otherwise the statement
joins the end of its graph, unless the graph has it. -/
inductive Ends (k : Sink) (t : Triple String) (graph : Option String) :
    Except TermError Unit × Sink → Prop
  | failed {e : TermError} {k' : Sink}
    (hfail : parseTerm t.predicate = .error e ∨
      ∃ iri, parseTerm t.predicate = .ok (.node (.iri iri)) ∧ (parseTerm t.subject = .error e ∨
        ∃ s, parseTerm t.subject = .ok s ∧ parseTerm t.object = .error e))
    (hdataset : k'.dataset = k.dataset) (hskipped : k'.skipped = k.skipped) :
    Ends k t graph (.error e, k')
  | skipped {p : Term} {k' : Sink} (hp : parseTerm t.predicate = .ok p)
    (hiri : ∀ iri, p ≠ .node (.iri iri)) (hdataset : k'.dataset = k.dataset)
    (hskipped : k'.skipped = k.skipped + 1) : Ends k t graph (.ok (), k')
  | added {s o : Term} {iri : String} {k' : Sink}
    (hp : parseTerm t.predicate = .ok (.node (.iri iri)))
    (hs : parseTerm t.subject = .ok s) (ho : parseTerm t.object = .ok o)
    (hgraph : ∀ name, k'.dataset.statements name =
      if name = graph.getD Dataset.defaultGraph ∧
        ⟨s, .node (.iri iri), o⟩ ∉ k.dataset.statements name
      then k.dataset.statements name ++ [⟨s, .node (.iri iri), o⟩] else k.dataset.statements name)
    (hskipped : k'.skipped = k.skipped) : Ends k t graph (.ok (), k')

theorem isIri_iff {p : Term} : isIri p = true ↔ ∃ iri, p = .node (.iri iri) := by
  cases p with
  | var v => simp [isIri]
  | node n => cases n <;> simp [isIri]

theorem push_ends (k : Sink) (t : Triple String) (graph : Option String) :
    Ends k t graph (k.push t graph) := by
  rw [push]
  cases hp : parseTerm t.predicate with
  | error e => exact .failed (.inl hp) rfl rfl
  | ok p =>
    dsimp only
    by_cases hiri : isIri p = true
    · obtain ⟨iri, rfl⟩ := isIri_iff.1 hiri
      rw [if_pos hiri]
      cases hs : parseTerm t.subject with
      | error e => exact .failed (.inr ⟨iri, hp, .inl hs⟩) rfl rfl
      | ok s =>
        cases ho : parseTerm t.object with
        | error e => exact .failed (.inr ⟨iri, hp, .inr ⟨s, hs, ho⟩⟩) rfl rfl
        | ok o => exact .added hp hs ho (fun name => Dataset.statements_insert_eq _ _ name _) rfl
    · rw [if_neg hiri]
      exact .skipped hp (fun iri heq => hiri (isIri_iff.2 ⟨iri, heq⟩)) rfl rfl

abbrev Offer := Triple String × Option String

def after (k : Sink) (p : Offer) : Sink := (k.push p.1 p.2).2

def run (pushes : List Offer) : Sink := pushes.foldl after empty

/-- The predicate of every statement is an identifier. -/
def IriPredicates (d : Dataset) : Prop :=
  ∀ name, ∀ s ∈ d.statements name, ∃ iri, s.predicate = .node (.iri iri)

variable {k : Sink} {t : Triple String} {graph : Option String}

theorem Ends.iriPredicates {out : Except TermError Unit × Sink} (h : Ends k t graph out)
    (hk : IriPredicates k.dataset) : IriPredicates out.2.dataset := by
  cases h with
  | failed hfail hdataset hskipped =>
    rw [hdataset]
    exact hk
  | skipped hp hiri hdataset hskipped =>
    rw [hdataset]
    exact hk
  | added hp hs ho hgraph hskipped =>
    intro name s hmem
    rw [hgraph] at hmem
    split at hmem
    · cases List.mem_append.1 hmem with
      | inl hmem => exact hk name s hmem
      | inr hmem =>
        obtain rfl := List.mem_singleton.1 hmem
        exact ⟨_, rfl⟩
    · exact hk name s hmem

theorem iriPredicates_foldl {pushes : List Offer} (hk : IriPredicates k.dataset) :
    IriPredicates (pushes.foldl after k).dataset := by
  induction pushes generalizing k with
  | nil => exact hk
  | cons p pushes ih => exact ih ((push_ends k p.1 p.2).iriPredicates hk)

theorem iriPredicates_run (pushes : List Offer) : IriPredicates (run pushes).dataset :=
  iriPredicates_foldl nofun

theorem iriPredicates_mem {d : Dataset} (h : IriPredicates d) {e : String × Nat × Statement}
    (he : e ∈ d.toList) : ∃ iri, e.2.2.predicate = .node (.iri iri) :=
  h e.1 e.2.2 (List.mem_of_getElem? (Dataset.mem_toList.1 he))

theorem isVar_predicate {d : Dataset} (h : IriPredicates d) :
    ∀ e ∈ d.toList, (e.2.2.get .predicate).isVar = false := by
  intro e he
  obtain ⟨iri, hiri⟩ := iriPredicates_mem h he
  rw [Triple.get, hiri]
  rfl

/-- Whatever was pushed before, a push ends in one of three ways, and what the sink holds is a
pattern with identifiers for predicates, which is classified without a reference that leaves a
predicate open. -/
theorem run_representable (pushes : List Offer) :
    (∀ e ∈ (run pushes).dataset.toList, ∃ iri, e.2.2.predicate = .node (.iri iri)) ∧
      (∀ t graph, Ends (run pushes) t graph ((run pushes).push t graph)) ∧
      ∃ c, classify (run pushes).dataset = .ok c ∧
        ∀ r ∈ c.constants ++ c.codexMap.references,
          r.permutation ∉ [.single .predicate, .pair .object, .pair .subject] := by
  have hk := iriPredicates_run pushes
  obtain ⟨c, hc, hclosed⟩ := classify_of_constant_predicates (isVar_predicate hk)
  refine ⟨fun e he => iriPredicates_mem hk he, push_ends _, c, hc, fun r hr hmem => ?_⟩
  have hopen : ∀ p ∈ [Permutation.single .predicate, .pair .object, .pair .subject],
      .predicate ∈ p.unknowns := by
    decide
  exact hclosed r hr (hopen _ hmem)

/-- Of a statement, the same one in other words, a literal predicate and a broken object, one
statement stays. -/
example : let k := run [(⟨"<a>", "<p>", "_:x"⟩, none), (⟨" <a>", "<p> ", "_:x"⟩, none),
      (⟨"<a>", "\"p\"", "<b>"⟩, none), (⟨"<a>", "<p>", "\"b"⟩, none)]
    (k.dataset.toList, k.seen, k.skipped) =
      ([("@default", 0, ⟨.node (.iri "a"), .node (.iri "p"), .var ⟨"x"⟩⟩)], 4, 1) := by
  decide +kernel

theorem pushQuad_ok {k k' : Sink} {q : Quad} (h : k.pushQuad q = .ok k') :
    ∃ p, k.after p = k' := by
  obtain ⟨graph, -, h⟩ := bind_eq_ok_iff.1 h
  refine ⟨(⟨itemText q.subject, itemText q.predicate, itemText q.object⟩, graph), ?_⟩
  rw [after]
  split at h
  · rename_i hpush
    cases h
    rw [hpush]
  · cases h

theorem exists_pushes {quads : List Quad} {k k' : Sink} (h : quads.foldlM pushQuad k = .ok k') :
    ∃ pushes : List Offer, pushes.foldl after k = k' := by
  induction quads generalizing k with
  | nil =>
    cases h
    exact ⟨[], rfl⟩
  | cons q quads ih =>
    rw [List.foldlM_cons] at h
    obtain ⟨mid, hstep, hrest⟩ := bind_eq_ok_iff.1 h
    obtain ⟨p, rfl⟩ := pushQuad_ok hstep
    obtain ⟨pushes, hrun⟩ := ih hrest
    exact ⟨p :: pushes, hrun⟩

/-- A document that can be read is a pattern that can be classified. -/
theorem classify_read {format : Format} {bytes : Bytes} {d : Dataset}
    (h : read format bytes = .ok d) : ∃ c, classify d = .ok c := by
  rw [read] at h
  split at h
  · cases h
  · split at h
    · rename_i k hrun
      cases h
      obtain ⟨pushes, rfl⟩ := exists_pushes hrun
      obtain ⟨c, hc, -⟩ :=
        classify_of_constant_predicates (isVar_predicate (iriPredicates_run pushes))
      exact ⟨c, hc⟩
    · cases h

end Rdf.Sink

end TriplePlan
