import TriplePlan.Proofs.Index.Effect

/-! Storing a fact: the source joins the list under the three value keys of its triple, and a
triple that was not stored before is counted once at each of its counters. -/
namespace TriplePlan

namespace Index

theorem sourcesIn?_entry {l : SourceList} (hlen : l.sources.length < Cbor.wordSize)
    (hsized : ∀ s ∈ l.sources, s.WordSized) : sourcesIn? (entry l) = some l := by
  rw [entry]
  split
  · rename_i hnil
    exact congrArg some (congrArg SourceList.mk hnil).symm
  · exact SourceList.ofBytes?_toBytes hlen hsized

theorem withSource_entry {l : SourceList} (hlen : l.sources.length < Cbor.wordSize)
    (hsized : ∀ s ∈ l.sources, s.WordSized) (source : Source) :
    withSource source (entry l) = some (entry (l.insert source).2) := by
  have hne : (l.insert source).2.sources ≠ [] :=
    List.ne_nil_of_mem ((SourceList.mem_insert l source source).2 (.inl rfl))
  rw [withSource_eq (sourcesIn?_entry hlen hsized)]
  split
  · rw [entry, if_neg hne]
  · rename_i hold
    rw [SourceList.insert_snd_of_not_added (Bool.eq_false_iff.2 hold)]

theorem countIn?_counter {n : Nat} (hn : n < Cbor.wordSize) : countIn? (counter n) = some n := by
  rw [counter]
  split
  · rename_i hzero
    exact congrArg some hzero.symm
  · exact Key.decodeCount?_encodeCount hn

theorem countedUp_counter {n : Nat} (hn : n < Cbor.wordSize) :
    countedUp (counter n) = some (counter (n + 1)) := by
  rw [countedUp, countIn?_counter hn, Option.map_some, counter, if_neg (Nat.succ_ne_zero n)]

theorem Lists.insert {facts : Finset Fact} {t : Triple Node} {l : SourceList} (h : Lists facts t l)
    (source : Source) : Lists (Insert.insert (source, t) facts) t (l.insert source).2 := by
  refine ⟨h.ascending.insert source, fun s => ?_⟩
  rw [SourceList.mem_insert, Finset.mem_insert, h.mem]
  simp

theorem Lists.insert_of_ne {facts : Finset Fact} {t : Triple Node} {l : SourceList}
    (h : Lists facts t l) {f : Fact}
    (hne : t ≠ f.2) : Lists (Insert.insert f facts) t l := by
  refine ⟨h.ascending, fun s => ?_⟩
  rw [h.mem, Finset.mem_insert]
  constructor
  · exact .inr
  · rintro (rfl | hs)
    · exact absurd rfl hne
    · exact hs

theorem countAt_insert_of_mem {facts : Finset Fact} {f : Fact} (h : f.2 ∈ triples facts)
    (k : Bytes) :
    countAt (Insert.insert f facts) k = countAt facts k := by
  rw [countAt_eq, triples_insert, Finset.insert_eq_of_mem h, countAt_eq]

theorem countAt_insert {facts : Finset Fact} {f : Fact} (h : f.2 ∉ triples facts) (k : Bytes) :
    countAt (Insert.insert f facts) k =
      if k ∈ counterKeys f.2 then countAt facts k + 1 else countAt facts k := by
  rw [countAt_eq, triples_insert, counted_insert h, countAt_eq]

theorem Content.isSome_tripleKey {facts : Finset Fact} {get? : Bytes → Option Bytes}
    (h : Content facts get?) (t : Triple Node) (u : Position) :
    (get? (Key.tripleKey t u)).isSome ↔ t ∈ triples facts := by
  obtain ⟨l, hl, hg⟩ := h.value t u
  rw [hg, entry, ← not_iff_not, ← hl.eq_nil_iff]
  split <;> simp_all

/-- What is read once the sources are written and, if the triple is new, counted. -/
theorem content_insert {facts : Finset Fact} {g g' : Bytes → Option Bytes} (h : Content facts g)
    {triple : Triple Node} {source : Source} {l : SourceList} (hl : Lists facts triple l)
    (hvalue : ∀ k ∈ valueKeys triple, g' k = entry (l.insert source).2)
    (hcounter : ∀ k ∉ valueKeys triple, g' k =
      if triple ∉ triples facts ∧ k ∈ counterKeys triple then counter (countAt facts k + 1)
        else g k) :
    Content (Insert.insert (source, triple) facts) g' := by
  refine ⟨fun t u => ?_, fun k hk => ?_⟩
  · by_cases ht : t = triple
    · subst ht
      exact ⟨_, hl.insert source, hvalue _ (tripleKey_mem_valueKeys.2 rfl)⟩
    · obtain ⟨lt, hlt, hg⟩ := h.value t u
      refine ⟨lt, hlt.insert_of_ne ht, ?_⟩
      rw [hcounter _ (mt tripleKey_mem_valueKeys.1 ht),
        if_neg fun hc => tripleKey_not_mem_counterKeys _ _ _ hc.2, hg]
  · have hnot : k ∉ valueKeys triple := fun hm => by
      obtain ⟨u, hu⟩ := mem_valueKeys.1 hm
      exact hk _ _ hu
    rw [hcounter k hnot, h.counter k hk]
    by_cases hnew : triple ∈ triples facts
    · rw [countAt_insert_of_mem hnew]
      simp [hnew]
    · rw [countAt_insert hnew]
      by_cases hmem : k ∈ counterKeys triple <;> simp [hnew, hmem]

/-- Storing a fact tells whether its triple is new, and adds it to the content. -/
theorem insert_eq {facts : Finset Fact} (hb : Bounded facts) {t : Transaction}
    (h : Content facts t.get?) (triple : Triple Node) (source : Source) :
    ∃ t', insert triple source t = (.ok (decide (triple ∉ triples facts)), t') ∧
      Content (Insert.insert (source, triple) facts) t'.get? := by
  obtain ⟨l, hl, hsubject⟩ := h.value triple .subject
  have hlen := hl.length_le.trans_lt hb.card
  have hsized : ∀ s ∈ l.sources, s.WordSized := fun s hs => hb.sized _ ((hl.mem s).1 hs)
  have hvalue : ∀ k ∈ valueKeys triple, t.get? k = entry l := by
    intro k hk
    obtain ⟨u, rfl⟩ := mem_valueKeys.1 hk
    obtain ⟨l', hl', hget⟩ := h.value triple u
    rw [hget, hl'.ext hl]
  have hcounter : ∀ k ∈ counterKeys triple, t.get? k = counter (countAt facts k) := fun k hk =>
    h.counter k (ne_tripleKey hk)
  have hcount : ∀ k, countAt facts k < Cbor.wordSize := fun k =>
    (countAt_le facts k).trans_lt hb.card
  have hstorable : Storable t.get? triple := by
    refine ⟨fun k hk => ?_, fun _ k hk => ?_⟩
    · rw [hvalue k hk, sourcesIn?_entry hlen hsized]
      rfl
    · rw [hcounter k hk, countIn?_counter (hcount k)]
      rfl
  have hstores := insert_stores t triple source
  generalize insert triple source t = result at hstores ⊢
  cases hstores with
  | refused hs => exact absurd hstorable hs
  | @done new t' _ hstored =>
    have hnew : new = true ↔ triple ∉ triples facts := by
      rw [hstored.new_iff, hsubject, ← hl.eq_nil_iff, entry]
      split <;> simp [*]
    refine ⟨t', by rw [← Bool.decide_coe new, decide_eq_decide.2 hnew],
      content_insert h hl (fun k hk => ?_) fun k hk => ?_⟩
    · have hwritten := hstored.value k hk
      rw [hvalue k hk, withSource_entry hlen hsized] at hwritten
      exact (Option.some.inj hwritten).symm
    · by_cases hc : k ∈ counterKeys triple
      · have hwritten := hstored.counter k hc
        cases new with
        | false => rw [hwritten, if_neg fun hn => Bool.false_ne_true (hnew.2 hn.1)]
        | true =>
          rw [if_pos rfl, hcounter k hc, countedUp_counter (hcount k)] at hwritten
          rw [if_pos ⟨hnew.1 rfl, hc⟩]
          exact (Option.some.inj hwritten).symm
      · rw [hstored.kept k hk hc, if_neg fun hn => hc hn.2]

end Index

end TriplePlan
