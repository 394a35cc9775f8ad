import TriplePlan.Proofs.Index.Insert
import TriplePlan.Proofs.Scan

/-! Reading an index with known content: counters count triples, and the candidates between two
nodes are the nodes that complete them to a stored triple. -/
namespace TriplePlan

namespace Index

theorem tripleKey_ofRotation (u : Position) (m n x : Node) :
    Key.tripleKey (.ofRotation u m n x) u = Key.valueKey u m n x := by
  rw [Key.tripleKey, Triple.rotate_ofRotation]

variable {facts : Finset Fact}

theorem Content.readCount {s : Store} (hb : Bounded facts) (h : Content facts s.get?) {k : Bytes}
    (hk : ∀ t u, k ≠ Key.tripleKey t u) : readCount s k = .ok (countAt facts k) := by
  have hcount := countIn?_counter ((countAt_le facts k).trans_lt hb.card)
  rw [← h.counter k hk] at hcount
  exact (readCount_ok_iff rfl).2 hcount

theorem Content.readCount_minor {s : Store} (hb : Bounded facts) (h : Content facts s.get?)
    (u : Position) (m n : Node) : TriplePlan.readCount s (Key.minorKey u m n) =
      .ok ((triples facts).filter fun t =>
        t.get (u.rotate 1) = m ∧ t.get (u.rotate 2) = n).card := by
  rw [h.readCount hb (minorKey_ne_tripleKey u m n), countAt_eq, counted_minorKey]

theorem Content.readCount_major {s : Store} (hb : Bounded facts) (h : Content facts s.get?)
    (q : Position) (c : Node) : TriplePlan.readCount s (Key.majorKey q c) =
      .ok ((triples facts).filter fun t => t.get q = c).card := by
  rw [h.readCount hb (majorKey_ne_tripleKey q c), countAt_eq, counted_majorKey]

/-- A store holds no key but those of stored triples. -/
theorem Content.key_of_isSome {g : Bytes → Option Bytes} (h : Content facts g) {k : Bytes}
    (hk : (g k).isSome) : ∃ t ∈ triples facts, k ∈ valueKeys t ∨ k ∈ counterKeys t := by
  by_cases hv : ∃ t u, k = Key.tripleKey t u
  · obtain ⟨t, u, rfl⟩ := hv
    exact ⟨t, (h.isSome_tripleKey t u).1 hk, .inl (mem_valueKeys.2 ⟨u, rfl⟩)⟩
  · simp only [not_exists] at hv
    rw [h.counter k hv, Index.counter] at hk
    have hne : countAt facts k ≠ 0 := by
      intro h0
      simp [h0] at hk
    obtain ⟨t, ht⟩ := Finset.card_ne_zero.1 hne
    obtain ⟨ht, hmem⟩ := Finset.mem_filter.1 ht
    exact ⟨t, ht, .inr hmem⟩

theorem Content.isSome_of_key {g : Bytes → Option Bytes} (h : Content facts g) {t : Triple Node}
    (ht : t ∈ triples facts) {k : Bytes} (hk : k ∈ valueKeys t ∨ k ∈ counterKeys t) :
    (g k).isSome := by
  cases hk with
  | inl hk =>
    obtain ⟨u, rfl⟩ := mem_valueKeys.1 hk
    exact (h.isSome_tripleKey t u).2 ht
  | inr hk =>
    have hne : countAt facts k ≠ 0 := counted_ne_zero ht hk
    rw [h.counter k (ne_tripleKey hk), Index.counter, if_neg hne]
    rfl

theorem Content.valueKey_of_prefix {g : Bytes → Option Bytes} (h : Content facts g) {u : Position}
    {m n : Node} {k : Bytes} (hk : (g k).isSome) (hp : Key.valuePrefix u m n <+: k) :
    ∃ x, Key.valueKey u m n x = k := by
  obtain ⟨r, hr⟩ := hp
  obtain ⟨t, -, hv | hv⟩ := h.key_of_isSome hk
  · obtain ⟨v, rfl⟩ := mem_valueKeys.1 hv
    obtain ⟨⟨rfl, rfl, rfl⟩, -⟩ :=
      Key.valuePrefix_append_inj (r := r) (s := Key.encodeNode (t.get v)) hr
    exact ⟨t.get u, rfl⟩
  · rcases mem_counterKeys.1 hv with ⟨v, hkv⟩ | ⟨q, hkq⟩
    · cases Key.Entry.table_eq_of_valuePrefix (e := .minor ..) (hr.trans hkv)
    · cases Key.Entry.table_eq_of_valuePrefix (e := .major ..) (hr.trans hkq)

/-- The candidates between two nodes, in ascending order. -/
theorem Content.candidateValues {s : Store} (h : Content facts s.get?) (u : Position) (m n : Node) :
    ∃ xs : List Node, TriplePlan.candidateValues s u m n = .ok (xs.map Key.encodeNode) ∧
      (xs.map Key.encodeNode).Pairwise (fun a b => compare a b = .lt) ∧
      ∀ x, x ∈ xs ↔ .ofRotation u m n x ∈ triples facts := by
  obtain ⟨xs, hrun, hsorted, hmem⟩ := candidateValues_eq (s := s) fun k hk hp =>
    h.valueKey_of_prefix (u := u) (m := m) (n := n) hk hp
  refine ⟨xs, hrun, hsorted, fun x => ?_⟩
  rw [hmem, ← tripleKey_ofRotation, h.isSome_tripleKey]

end Index

end TriplePlan
