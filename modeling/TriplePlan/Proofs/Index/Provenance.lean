import TriplePlan.Proofs.Index.Documents
import TriplePlan.Proofs.Index.Lookup

/-! The entries of an index are those of the indexed triples, each with the places where it is
stated, and their counters. So documents may be indexed in any order and repeatedly, with the same
store as the result. -/
namespace TriplePlan.Index

variable {docs : List Document}

theorem Content.sources {facts : Finset Fact} (hb : Bounded facts) {g : Bytes → Option Bytes}
    (h : Content facts g) {t : Triple Node} (ht : t ∈ triples facts) (u : Position) :
    ∃ l, (g (Key.tripleKey t u)).bind SourceList.ofBytes? = some l ∧ Lists facts t l := by
  obtain ⟨l, hl, hg⟩ := h.value t u
  refine ⟨l, ?_, hl⟩
  rw [hg, entry, if_neg (fun hnil => hl.eq_nil_iff.1 hnil ht)]
  exact SourceList.ofBytes?_toBytes (hl.length_le.trans_lt hb.card) fun s hs =>
    hb.sized _ ((hl.mem s).1 hs)

theorem WordSized.congr {docs docs' : List Document} (h : WordSized docs)
    (hd : ∀ d, d ∈ docs' ↔ d ∈ docs) :
    WordSized docs' := h.subset fun d => (hd d).1

theorem ofDocuments_congr {docs' : List Document} (h : WordSized docs)
    (hd : ∀ d, d ∈ docs' ↔ d ∈ docs) :
    Store.ofDocuments docs' = Store.ofDocuments docs := by
  have hc := content_ofDocuments (h.congr hd)
  rw [factsOf_congr hd] at hc
  exact OrderedMap.ext_get? (congrFun (hc.unique (content_ofDocuments h)))

/-- A document that was indexed adds nothing when it is indexed again. -/
theorem index_again {d : Document} (h : WordSized docs) (hd : d ∈ docs) (hfits : d.Fits) :
    (Store.ofDocuments docs).index d.name d.dataset =
      (.ok ⟨d.dataset.size, 0⟩, Store.ofDocuments docs) := by
  have hsame : ∀ e, e ∈ docs ++ [d] ↔ e ∈ docs := by
    intro e
    simp only [List.mem_append, List.mem_singleton]
    constructor
    · intro he
      rcases he with he | rfl
      · exact he
      · exact hd
    · exact .inl
  have hword : WordSized (docs ++ [d]) := h.congr hsame
  have hrun := index_ofDocuments hword
  rw [if_pos hfits, ofDocuments_congr h hsame] at hrun
  have hsub : triples d.facts.toFinset ⊆ triples (factsOf docs) := by
    rw [← factsOf_singleton]
    intro t ht
    obtain ⟨e, he, hfits, hstate⟩ := mem_triples_factsOf.1 ht
    obtain rfl := List.mem_singleton.1 he
    exact mem_triples_factsOf.2 ⟨e, hd, hfits, hstate⟩
  rwa [Finset.sdiff_eq_empty_iff_subset.2 hsub, Finset.card_empty] at hrun

/-- What a store made from documents holds: no key but the value keys and counters of indexed
triples; under all three value keys of a triple the ascending list of exactly the places where it
is stated. Documents in another order, or with repetitions, make the same store, and one that was
indexed just before has nothing new. -/
theorem provenance_exact (docs : List Document) (h : WordSized docs) :
    (∀ k, ((Store.ofDocuments docs).get? k).isSome ↔
      ∃ t, Indexed docs t ∧ (k ∈ valueKeys t ∨ k ∈ counterKeys t)) ∧
    (∀ t u, ((Store.ofDocuments docs).get? (Key.tripleKey t u)).isSome ↔ Indexed docs t) ∧
    (∀ t u, Indexed docs t →
      ∃ l, ((Store.ofDocuments docs).get? (Key.tripleKey t u)).bind SourceList.ofBytes? = some l ∧
        l.Ascending ∧ ∀ source, source ∈ l.sources ↔ StatedAt docs source t) ∧
    (∀ docs', (∀ d, d ∈ docs' ↔ d ∈ docs) → Store.ofDocuments docs' = Store.ofDocuments docs) ∧
    ∀ earlier d, docs = earlier ++ [d] → d.Fits →
      (Store.ofDocuments docs).index d.name d.dataset =
        (.ok ⟨d.dataset.size, 0⟩, Store.ofDocuments docs) := by
  have hc := content_ofDocuments h
  refine ⟨fun k => ?_, fun t u => ?_, fun t u ht => ?_, fun docs' hd => ofDocuments_congr h hd, ?_⟩
  · constructor
    · intro hk
      obtain ⟨t, ht, hkey⟩ := hc.key_of_isSome hk
      exact ⟨t, mem_triples_factsOf.1 ht, hkey⟩
    · intro hk
      obtain ⟨t, ht, hkey⟩ := hk
      exact hc.isSome_of_key (mem_triples_factsOf.2 ht) hkey
  · rw [hc.isSome_tripleKey, mem_triples_factsOf]
  · obtain ⟨l, hget, hl⟩ := hc.sources h.bounded (mem_triples_factsOf.2 ht) u
    exact ⟨l, hget, hl.ascending, fun source => (hl.mem source).trans mem_factsOf⟩
  · intro earlier d hsplit hfits
    exact index_again h (hsplit ▸ List.mem_append_right _ List.mem_cons_self) hfits

theorem provenance_exact_twins : WordSized [blankTwin, namedTwin] ∧
    Store.ofDocuments [namedTwin, blankTwin, namedTwin] =
      Store.ofDocuments [blankTwin, namedTwin] := by
  refine ⟨wordSized_twins, ?_⟩
  refine (provenance_exact [blankTwin, namedTwin] wordSized_twins).2.2.2.1 _ ?_
  intro d
  simp only [List.mem_cons, List.not_mem_nil, or_false]
  constructor
  · intro h
    obtain rfl | rfl | rfl := h
    · exact .inr rfl
    · exact .inl rfl
    · exact .inr rfl
  · intro h
    obtain rfl | rfl := h
    · exact .inr (.inl rfl)
    · exact .inl rfl

end TriplePlan.Index
