import TriplePlan.Proofs.Index.Documents
import TriplePlan.Proofs.Index.Lookup
import Mathlib.Data.Set.Card

/-! Counters are exact after every document: a minor counter has the number of nodes that complete
its pair, a major counter the number of triples with its node, and a report the number of triples
that were not stored. -/
namespace TriplePlan.Index

variable {docs : List Document}

theorem setOf_indexed (p : Triple Node → Prop) [DecidablePred p] :
    {t | Indexed docs t ∧ p t} = ((triples (factsOf docs)).filter p : Finset (Triple Node)) := by
  ext t
  simp [mem_triples_factsOf]

theorem ncard_indexed (p : Triple Node → Prop) [DecidablePred p] :
    {t | Indexed docs t ∧ p t}.ncard = ((triples (factsOf docs)).filter p).card := by
  rw [setOf_indexed, Set.ncard_coe_finset]

theorem ncard_completions (u : Position) (m n : Node) :
    {x | Indexed docs (.ofRotation u m n x)}.ncard =
      ((triples (factsOf docs)).filter fun t =>
        t.get (u.rotate 1) = m ∧ t.get (u.rotate 2) = n).card := by
  rw [← ncard_indexed, ← Set.ncard_image_of_injective _ (Triple.ofRotation_injective u m n)]
  congr 1
  ext t
  constructor
  · intro ht
    obtain ⟨x, hx, rfl⟩ := ht
    obtain ⟨hm, hn, -⟩ := Triple.eq_ofRotation_iff.1 (rfl : Triple.ofRotation u m n x = _)
    exact ⟨hx, hm, hn⟩
  · intro ht
    obtain ⟨ht, hm, hn⟩ := ht
    have heq := Triple.eq_ofRotation_iff.2 ⟨hm, hn, rfl⟩
    exact ⟨t.get u, by rwa [Set.mem_ofPred_eq, ← heq], heq.symm⟩

theorem setOf_completions {xs : List Node} {u : Position} {m n : Node}
    (hmem : ∀ x, x ∈ xs ↔ .ofRotation u m n x ∈ triples (factsOf docs)) :
    {x | Indexed docs (.ofRotation u m n x)} = (xs.toFinset : Set Node) := by
  ext x
  simp [hmem, mem_triples_factsOf]

theorem length_eq_ncard {xs : List Node} {u : Position} {m n : Node} (hnodup : xs.Nodup)
    (hmem : ∀ x, x ∈ xs ↔ .ofRotation u m n x ∈ triples (factsOf docs)) :
    xs.length = {x | Indexed docs (.ofRotation u m n x)}.ncard := by
  rw [setOf_completions hmem, Set.ncard_coe_finset, List.toFinset_card_of_nodup hnodup]

theorem ncard_new (docs : List Document) {d : Document} (hfits : d.Fits) :
    (triples d.facts.toFinset \ triples (factsOf docs)).card =
      {t | (∃ e ∈ d.dataset.toList, ground d.name e.2.2 = t) ∧ ¬ Indexed docs t}.ncard := by
  rw [← Set.ncard_coe_finset]
  congr 1
  ext t
  have hd : t ∈ triples d.facts.toFinset ↔ ∃ e ∈ d.dataset.toList, ground d.name e.2.2 = t := by
    rw [← factsOf_singleton, mem_triples_factsOf]
    simp [Indexed, hfits]
  simp [hd, mem_triples_factsOf]

/-- After each document of a run, whether it is indexed or refused: what the call reports, and
what every counter and every list of candidates holds. -/
theorem counters_exact (docs : List Document) (d : Document) (h : WordSized (docs ++ [d])) :
    (if d.Fits then (Store.ofDocuments docs).index d.name d.dataset =
        (.ok ⟨d.dataset.size,
          {t | (∃ e ∈ d.dataset.toList, ground d.name e.2.2 = t) ∧ ¬ Indexed docs t}.ncard⟩,
          Store.ofDocuments (docs ++ [d]))
      else ∃ e, (Store.ofDocuments docs).index d.name d.dataset =
          (.error e, Store.ofDocuments docs) ∧
        Store.ofDocuments (docs ++ [d]) = Store.ofDocuments docs) ∧
    (∀ u m n, ∃ l, candidateValues (Store.ofDocuments (docs ++ [d])) u m n = .ok l ∧
      l.length = {x | Indexed (docs ++ [d]) (.ofRotation u m n x)}.ncard ∧
      readCount (Store.ofDocuments (docs ++ [d])) (Key.minorKey u m n) = .ok l.length) ∧
    ∀ q c, readCount (Store.ofDocuments (docs ++ [d])) (Key.majorKey q c) =
      .ok {t | Indexed (docs ++ [d]) t ∧ t.get q = c}.ncard := by
  have hc := content_ofDocuments h
  refine ⟨?_, ?_, ?_⟩
  · have hrun := index_ofDocuments h
    split
    · rename_i hfits
      rw [if_pos hfits, ncard_new docs hfits] at hrun
      exact hrun
    · rename_i hfits
      rw [if_neg hfits] at hrun
      exact hrun
  · intro u m n
    obtain ⟨xs, hrun, hsorted, hmem⟩ := hc.candidateValues u m n
    have hlen := length_eq_ncard (nodup_of_ascending hsorted).of_map hmem
    refine ⟨_, hrun, by rw [List.length_map, hlen], ?_⟩
    rw [hc.readCount_minor h.bounded, List.length_map, hlen, ncard_completions]
  · intro q c
    rw [hc.readCount_major h.bounded, ncard_indexed]

theorem counters_exact_twins : WordSized ([blankTwin] ++ [namedTwin]) ∧
    readCount (Store.ofDocuments ([blankTwin] ++ [namedTwin]))
      (Key.majorKey .predicate (.iri "p")) =
      .ok {t | Indexed ([blankTwin] ++ [namedTwin]) t ∧ t.get .predicate = .iri "p"}.ncard :=
  ⟨wordSized_twins, (counters_exact [blankTwin] namedTwin wordSized_twins).2.2 .predicate
    (.iri "p")⟩

example : readCount (Store.ofDocuments [blankTwin, namedTwin])
    (Key.majorKey .predicate (.iri "p")) = .ok 1 := by decide

end TriplePlan.Index
