import TriplePlan.Proofs.Dataset
import TriplePlan.Proofs.Index.Insert
import Mathlib.Algebra.Order.BigOperators.Group.List

/-! Stores that are made by indexing documents one after the other. Such a store has exactly the
content that the statements of its documents give, whatever came first; a document is refused only
for a graph whose indices do not fit into 32 bits, and then nothing changes. -/
namespace TriplePlan

/-- A dataset to be indexed under a name. -/
structure Document where
  name : String
  dataset : Dataset

namespace Document

/-- The index of every statement has 32 bits. -/
def Fits (d : Document) : Prop := ∀ e ∈ d.dataset.toList, e.2.1 < UInt32.size

instance (d : Document) : Decidable d.Fits :=
  inferInstanceAs (Decidable (∀ e ∈ d.dataset.toList, e.2.1 < UInt32.size))

def fact (d : Document) (e : String × Nat × Statement) : Index.Fact :=
  (⟨d.name, e.1, UInt32.ofNat e.2.1⟩, Index.ground d.name e.2.2)

def facts (d : Document) : List Index.Fact := if d.Fits then d.dataset.toList.map d.fact else []

/-- The document states this triple at this place. -/
def States (d : Document) (source : Source) (t : Triple Node) : Prop :=
  source.document = d.name ∧
    ∃ s, d.dataset.statement? source.graph source.index.toNat = some s ∧ Index.ground d.name s = t

theorem mem_facts {d : Document} {source : Source} {t : Triple Node} :
    (source, t) ∈ d.facts ↔ d.Fits ∧ d.States source t := by
  unfold facts
  split
  · rename_i hfits
    simp only [List.mem_map, hfits, true_and, fact, Prod.mk.injEq]
    constructor
    · rintro ⟨⟨g, i, s⟩, he, rfl, rfl⟩
      have hi : (UInt32.ofNat i).toNat = i := UInt32.toNat_ofNat_of_lt' (hfits _ he)
      exact ⟨rfl, s, by simpa [hi] using Dataset.mem_toList.1 he, rfl⟩
    · rintro ⟨hname, s, hs, rfl⟩
      refine ⟨(source.graph, source.index.toNat, s), Dataset.mem_toList.2 hs, ?_, rfl⟩
      rw [← hname, UInt32.ofNat_toNat]
  · rename_i hfits
    simp [hfits]

end Document

namespace Store

def addDocument (s : Store) (d : Document) : Store := (s.index d.name d.dataset).2

def ofDocuments (docs : List Document) : Store := docs.foldl addDocument .empty

end Store

namespace Index

def factsOf (docs : List Document) : Finset Fact := (docs.flatMap Document.facts).toFinset

/-- One of the documents states the triple, at this place. -/
def StatedAt (docs : List Document) (source : Source) (t : Triple Node) : Prop :=
  ∃ d ∈ docs, d.Fits ∧ d.States source t

/-- The triple is what some statement of an indexed document is grounded to. -/
def Indexed (docs : List Document) (t : Triple Node) : Prop :=
  ∃ d ∈ docs, d.Fits ∧ ∃ e ∈ d.dataset.toList, ground d.name e.2.2 = t

/-- Texts have lengths, and the distinct statements a number, that eight bytes hold. -/
structure WordSized (docs : List Document) : Prop where
  names : ∀ d ∈ docs, (Text.utf8 d.name).length < Cbor.wordSize
  graphs : ∀ d ∈ docs, ∀ g ∈ d.dataset.graphs.keys, (Text.utf8 g).length < Cbor.wordSize
  statements : (factsOf docs).card < Cbor.wordSize

theorem mem_factsOf {docs : List Document} {source : Source} {t : Triple Node} :
    (source, t) ∈ factsOf docs ↔ StatedAt docs source t := by
  simp only [factsOf, List.mem_toFinset, List.mem_flatMap, Document.mem_facts, StatedAt]

theorem mem_triples_factsOf {docs : List Document} {t : Triple Node} :
    t ∈ triples (factsOf docs) ↔ Indexed docs t := by
  simp only [mem_triples, mem_factsOf, StatedAt, Indexed]
  constructor
  · rintro ⟨source, d, hd, hfits, -, s, hs, ht⟩
    exact ⟨d, hd, hfits, (source.graph, source.index.toNat, s), Dataset.mem_toList.2 hs, ht⟩
  · rintro ⟨d, hd, hfits, ⟨g, i, s⟩, he, ht⟩
    have hmem : d.fact (g, i, s) ∈ d.facts := by
      rw [Document.facts, if_pos hfits]
      exact List.mem_map_of_mem he
    exact ⟨_, d, hd, hfits, ht ▸ (Document.mem_facts.1 hmem).2⟩

theorem factsOf_append (docs docs' : List Document) :
    factsOf (docs ++ docs') = factsOf docs ∪ factsOf docs' := by
  simp [factsOf]

theorem factsOf_singleton (d : Document) : factsOf [d] = d.facts.toFinset := by simp [factsOf]

theorem factsOf_congr {docs docs' : List Document} (h : ∀ d, d ∈ docs ↔ d ∈ docs') :
    factsOf docs = factsOf docs' := by
  ext ⟨source, t⟩
  simp only [mem_factsOf, StatedAt, h]

theorem WordSized.bounded {docs : List Document} (h : WordSized docs) : Bounded (factsOf docs) := by
  refine ⟨h.statements, ?_⟩
  rintro ⟨source, t⟩ hf
  obtain ⟨d, hd, -, hname, s, hs, -⟩ := mem_factsOf.1 hf
  refine ⟨?_, h.graphs d hd _ (Dataset.graph_mem_keys (Dataset.mem_toList.2 hs))⟩
  rw [hname]
  exact h.names d hd

theorem WordSized.subset {docs docs' : List Document} (h : WordSized docs') (hs : docs ⊆ docs') :
    WordSized docs := by
  refine ⟨fun d hd => h.names d (hs hd), fun d hd => h.graphs d (hs hd), ?_⟩
  refine (Finset.card_le_card ?_).trans_lt h.statements
  rintro ⟨source, t⟩ hf
  obtain ⟨d, hd, hfits, hstates⟩ := mem_factsOf.1 hf
  exact mem_factsOf.2 ⟨d, hs hd, hfits, hstates⟩

theorem length_facts_le (d : Document) : d.facts.length ≤ d.dataset.size := by
  unfold Document.facts
  split
  · rw [List.length_map, Dataset.length_toList]
  · exact Nat.zero_le _

theorem wordSized_of_size {docs : List Document}
    (hnames : ∀ d ∈ docs, (Text.utf8 d.name).length < Cbor.wordSize)
    (hgraphs : ∀ d ∈ docs, ∀ g ∈ d.dataset.graphs.keys, (Text.utf8 g).length < Cbor.wordSize)
    (hsize : (docs.map (·.dataset.size)).sum < Cbor.wordSize) : WordSized docs := by
  refine ⟨hnames, hgraphs, ?_⟩
  have hlength : (docs.flatMap Document.facts).length ≤ (docs.map (·.dataset.size)).sum := by
    rw [List.length_flatMap]
    exact List.sum_le_sum fun d _ => length_facts_le d
  have hcard : (factsOf docs).card ≤ (docs.flatMap Document.facts).length := List.toFinset_card_le _
  omega

theorem ordinal_eq {i : Nat} (h : i < UInt32.size) : ordinal i = .ok (UInt32.ofNat i) := if_pos h

theorem card_insert_sdiff {α : Type} [DecidableEq α] (a : α) (s t : Finset α) :
    (Insert.insert a s \ t).card = (if a ∉ t then 1 else 0) + (s \ Insert.insert a t).card := by
  by_cases h : a ∈ t
  · rw [Finset.insert_sdiff_of_mem s h, Finset.insert_eq_of_mem h, if_neg (not_not.2 h),
      Nat.zero_add]
  · have hset : Insert.insert a s \ t = Insert.insert a (s \ Insert.insert a t) := by
      ext x
      by_cases hx : x = a <;> simp [hx, h]
    rw [hset, Finset.card_insert_of_notMem (by simp), if_pos h, Nat.add_comm]

theorem insertStatement_eq {d : Document} {e : String × Nat × Statement}
    (hfits : e.2.1 < UInt32.size) (r : Report) : insertStatement d.name r e = (do
      let new ← insert (d.fact e).2 (d.fact e).1
      return ⟨r.statements + 1, r.inserted + if new then 1 else 0⟩) := by
  obtain ⟨g, i, s⟩ := e
  simp only [insertStatement, ordinal_eq hfits]
  rfl

/-- Listed statements are stored one by one; the new triples among them are counted once each. -/
theorem foldlM_insertStatement {d : Document} {es : List (String × Nat × Statement)}
    (hfits : ∀ e ∈ es, e.2.1 < UInt32.size) {facts : Finset Fact}
    (hb : Bounded (facts ∪ (es.map d.fact).toFinset)) (r : Report) {t : Transaction}
    (h : Content facts t.get?) :
    ∃ t', es.foldlM (insertStatement d.name) r t =
        (.ok ⟨r.statements + es.length,
          r.inserted + (triples (es.map d.fact).toFinset \ triples facts).card⟩, t') ∧
      Content (facts ∪ (es.map d.fact).toFinset) t'.get? := by
  induction es generalizing facts r t with
  | nil => exact ⟨t, by simp [triples], by simpa using h⟩
  | cons e es ih =>
    obtain ⟨g, i, s⟩ := e
    have hunion : facts ∪ (((g, i, s) :: es).map d.fact).toFinset =
        Insert.insert (d.fact (g, i, s)) facts ∪ (es.map d.fact).toFinset := by
      simp [Finset.insert_union, Finset.union_insert]
    rw [hunion] at hb ⊢
    obtain ⟨t₁, hrun₁, hc₁⟩ :=
      insert_eq (hb.subset (Finset.subset_insert _ _ |>.trans Finset.subset_union_left)) h
      (ground d.name s) ⟨d.name, g, UInt32.ofNat i⟩
    obtain ⟨t₂, hrun₂, hc₂⟩ := ih (fun e he => hfits e (List.mem_cons_of_mem _ he)) hb
      ⟨r.statements + 1, r.inserted + if ground d.name s ∉ triples facts then 1 else 0⟩ hc₁
    refine ⟨t₂, ?_, hc₂⟩
    have hstep : insertStatement d.name r (g, i, s) t =
        (.ok ⟨r.statements + 1,
          r.inserted + if ground d.name s ∉ triples facts then 1 else 0⟩, t₁) := by
      rw [insertStatement_eq (hfits _ List.mem_cons_self)]
      exact (Action.bind_ok hrun₁).trans (by simp)
    have hcard : (triples (((g, i, s) :: es).map d.fact).toFinset \ triples facts).card =
        (if ground d.name s ∉ triples facts then 1 else 0) +
          (triples (es.map d.fact).toFinset \ triples
          (Insert.insert (d.fact (g, i, s)) facts)).card := by
      have hlist : (((g, i, s) :: es).map d.fact).toFinset =
          Insert.insert (d.fact (g, i, s)) (es.map d.fact).toFinset := by
        rw [List.map_cons, List.toFinset_cons]
      rw [hlist, triples_insert, triples_insert]
      exact card_insert_sdiff _ _ _
    rw [List.foldlM_cons, Action.bind_ok hstep, hrun₂, hcard, List.length_cons]
    simp only [Nat.add_assoc, Nat.add_comm 1]

theorem get?_commit_eq (t : Transaction) : t.commit.get? = t.get? :=
  funext (Transaction.get?_commit t)

theorem index_eq {d : Document} (hfits : d.Fits) {facts : Finset Fact}
    (hb : Bounded (facts ∪ d.facts.toFinset)) {s : Store} (h : Content facts s.get?) :
    ∃ s', s.index d.name d.dataset =
        (.ok ⟨d.dataset.size, (triples d.facts.toFinset \ triples facts).card⟩, s') ∧
      Content (facts ∪ d.facts.toFinset) s'.get? := by
  have hfacts : d.facts = d.dataset.toList.map d.fact := if_pos hfits
  rw [hfacts] at hb ⊢
  obtain ⟨t, hrun, hc⟩ := foldlM_insertStatement hfits hb ⟨0, 0⟩ (t := .start s) h
  refine ⟨t.commit, ?_, by rwa [get?_commit_eq]⟩
  rw [Store.index, (isScript_statements d.name d.dataset).update_ok hrun, Dataset.length_toList]
  simp only [Nat.zero_add]

theorem foldlM_error {σ ε α β : Type} {f : α → β → Action σ ε α} {l : List β} {b : β} (hb : b ∈ l)
    (h : ∀ a s, ∃ e s', f a b s = (.error e, s')) (a : α) (s : σ) :
    ∃ e s', l.foldlM f a s = (.error e, s') := by
  induction l generalizing a s with
  | nil => cases hb
  | cons c l ih =>
    rw [List.foldlM_cons, Action.bind_apply]
    cases hc : f a c s with
    | mk result s' =>
      cases result with
      | error e => exact ⟨e, s', rfl⟩
      | ok a' =>
        cases hb with
        | head =>
          obtain ⟨e, _, he⟩ := h a s
          rw [hc] at he
          cases he
        | tail _ hb => exact ih hb a' s'

/-- An index beyond 32 bits refuses the whole document. -/
theorem index_error {d : Document} (hfits : ¬ d.Fits) (s : Store) :
    ∃ e, s.index d.name d.dataset = (.error e, s) := by
  simp only [Document.Fits, not_forall] at hfits
  obtain ⟨⟨g, i, statement⟩, he, hi⟩ := hfits
  have hstep : ∀ r t, insertStatement d.name r (g, i, statement) t = (.error .codec, t) := by
    intro r t
    rw [insertStatement, ordinal, if_neg hi]
    rfl
  obtain ⟨e, t, hrun⟩ := foldlM_error he (fun r t => ⟨_, _, hstep r t⟩) ⟨0, 0⟩ (.start s)
  exact ⟨e, Transaction.update_error hrun⟩

theorem ofDocuments_append (docs : List Document) (d : Document) :
    Store.ofDocuments (docs ++ [d]) = (Store.ofDocuments docs).addDocument d := by
  simp [Store.ofDocuments]

/-- A store that is made from documents has the content of the facts they state. -/
theorem content_ofDocuments {docs : List Document} (h : WordSized docs) :
    Content (factsOf docs) (Store.ofDocuments docs).get? := by
  induction docs using List.reverseRecOn with
  | nil => exact content_empty
  | append_singleton docs d ih =>
    have hdocs := ih (h.subset (List.subset_append_left _ _))
    have hb := h.bounded
    rw [factsOf_append, factsOf_singleton] at hb ⊢
    rw [ofDocuments_append, Store.addDocument]
    by_cases hfits : d.Fits
    · obtain ⟨s', hrun, hc⟩ := index_eq hfits hb hdocs
      rw [hrun]
      exact hc
    · obtain ⟨e, hrun⟩ := index_error hfits (Store.ofDocuments docs)
      rw [hrun]
      have hnone : d.facts = [] := if_neg hfits
      simpa [hnone] using hdocs

/-- The next document is indexed if it fits, and refused without a trace if not. -/
theorem index_ofDocuments {docs : List Document} {d : Document} (h : WordSized (docs ++ [d])) :
    if d.Fits then (Store.ofDocuments docs).index d.name d.dataset =
        (.ok ⟨d.dataset.size, (triples d.facts.toFinset \ triples (factsOf docs)).card⟩,
          Store.ofDocuments (docs ++ [d]))
      else ∃ e, (Store.ofDocuments docs).index d.name d.dataset =
          (.error e, Store.ofDocuments docs) ∧
        Store.ofDocuments (docs ++ [d]) = Store.ofDocuments docs := by
  have hdocs := content_ofDocuments (h.subset (List.subset_append_left _ _))
  have hb := h.bounded
  rw [factsOf_append, factsOf_singleton] at hb
  rw [ofDocuments_append, Store.addDocument]
  split
  · rename_i hfits
    obtain ⟨s', hrun, -⟩ := index_eq hfits hb hdocs
    rw [hrun]
  · rename_i hfits
    obtain ⟨e, hrun⟩ := index_error hfits (Store.ofDocuments docs)
    rw [hrun]
    exact ⟨e, rfl, rfl⟩

def blankTwin : Document := ⟨"a", .ofStatements [⟨.var ⟨"x"⟩, .node (.iri "p"), .node (.iri "o")⟩]⟩

def namedTwin : Document :=
  ⟨"b", .ofStatements [⟨.node (.iri "a#_:x"), .node (.iri "p"), .node (.iri "o")⟩]⟩

theorem wordSized_twins : WordSized [blankTwin, namedTwin] :=
  wordSized_of_size (by decide) (by decide) (by decide)

end Index

end TriplePlan
