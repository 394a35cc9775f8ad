import TriplePlan.Proofs.Index.Documents
import TriplePlan.Proofs.Index.Lookup
import TriplePlan.Proofs.Plan.Filing

/-! What the reference of a filing reads from an index: its counter is zero exactly if no stored
triple agrees with the constants of its statement, and its keys are those of the stored triples
that the statement becomes. -/
namespace TriplePlan

open Index

namespace Statement

/-- The triple has every constant of the statement in its position. -/
def Agrees (s : Statement) (t : Triple Node) : Prop := ∀ p c, s.get p = .node c → t.get p = c

theorem agrees_ofRotation {u : Position} {a b c : Term} {t : Triple Node} :
    Agrees (.ofRotation u a b c) t ↔ (∀ n, a = .node n → t.get (u.rotate 1) = n) ∧
      (∀ n, b = .node n → t.get (u.rotate 2) = n) ∧ ∀ n, c = .node n → t.get u = n := by
  constructor
  · intro h
    exact ⟨fun n hn => h _ n (by simpa using hn), fun n hn => h _ n (by simpa using hn),
      fun n hn => h _ n (by simpa using hn)⟩
  · intro h
    obtain ⟨h₁, h₂, h₃⟩ := h
    intro p
    cases u <;> cases p <;> assumption

theorem isOnly_iff {s : Statement} {u : Position} {v : Var} :
    s.IsOnly u v ↔ ∃ m n, s = .ofRotation u (.node m) (.node n) (.var v) := by
  constructor
  · intro h
    obtain ⟨hu, hother⟩ := h
    have hconstant : ∀ p, p ≠ u → ∃ n, s.get p = .node n := by
      intro p hp
      have := hother p hp
      cases hs : s.get p with
      | node n => exact ⟨n, rfl⟩
      | var w => simp [hs, Term.isVar] at this
    obtain ⟨m, hm⟩ := hconstant (u.rotate 1) (by cases u <;> decide)
    obtain ⟨n, hn⟩ := hconstant (u.rotate 2) (by cases u <;> decide)
    exact ⟨m, n, Triple.eq_ofRotation_iff.2 ⟨hm, hn, hu⟩⟩
  · intro h
    obtain ⟨m, n, rfl⟩ := h
    refine ⟨Triple.get_ofRotation _ _ _ _, fun p hp => ?_⟩
    cases u <;> cases p <;> first | rfl | exact absurd rfl hp

end Statement

section

variable {docs : List Document} {e : String × Nat × Statement} {f : Filing}

theorem readCount_minor_iff (h : WordSized docs) (u : Position) (m n : Node) :
    ∃ k, readCount (Store.ofDocuments docs) (Key.minorKey u m n) = .ok k ∧
      (k ≠ 0 ↔ ∃ t, Indexed docs t ∧ t.get (u.rotate 1) = m ∧ t.get (u.rotate 2) = n) := by
  refine ⟨_, (content_ofDocuments h).readCount_minor h.bounded u m n, ?_⟩
  rw [Finset.card_ne_zero, Finset.filter_nonempty_iff]
  simp only [mem_triples_factsOf]

theorem readCount_major_iff (h : WordSized docs) (q : Position) (c : Node) :
    ∃ k, readCount (Store.ofDocuments docs) (Key.majorKey q c) = .ok k ∧
      (k ≠ 0 ↔ ∃ t, Indexed docs t ∧ t.get q = c) := by
  refine ⟨_, (content_ofDocuments h).readCount_major h.bounded q c, ?_⟩
  rw [Finset.card_ne_zero, Finset.filter_nonempty_iff]
  simp only [mem_triples_factsOf]

/-- The counter of a single or double reference tells whether a stored triple has its constants. -/
theorem readCount_filing (h : WordSized docs) (hf : Files e f) (hs : f.shape ≠ .constraint) :
    ∃ key n, f.reference.countKey? = some key ∧ readCount (Store.ofDocuments docs) key = .ok n ∧
      (n ≠ 0 ↔ ∃ t, Indexed docs t ∧ Statement.Agrees e.2.2 t) := by
  cases hf with
  | single g i u m n v =>
    obtain ⟨k, hread, hk⟩ := readCount_minor_iff h u m n
    refine ⟨_, k, rfl, hread, ?_⟩
    simp [hk, Statement.agrees_ofRotation]
  | constraint => exact absurd rfl hs
  | next g i u c =>
    obtain ⟨k, hread, hk⟩ := readCount_major_iff h (u.rotate 2) c
    refine ⟨_, k, rfl, hread, ?_⟩
    simp [hk, Statement.agrees_ofRotation]
  | last g i u c =>
    obtain ⟨k, hread, hk⟩ := readCount_major_iff h (u.rotate 1) c
    refine ⟨_, k, rfl, hread, ?_⟩
    simp [hk, Statement.agrees_ofRotation]

theorem candidateValues_filing (h : WordSized docs) (hf : Files e f) (hs : f.shape = .single) :
    ∃ xs : List Node, f.reference.candidateValues (Store.ofDocuments docs) =
      .ok (some (xs.map Key.encodeNode)) ∧
      (xs.map Key.encodeNode).Pairwise (fun a b => compare a b = .lt) ∧
      ∀ x, x ∈ xs ↔ Indexed docs (Statement.under (fun _ => x) e.2.2) := by
  cases hf with
  | single g i u m n v =>
    obtain ⟨xs, hrun, hsorted, hmem⟩ := (content_ofDocuments h).candidateValues u m n
    refine ⟨xs, ?_, hsorted, fun x => ?_⟩
    · simp [Reference.candidateValues, Reference.plain, Permutation.unknown, Reference.knownNodes?,
        hrun, Except.map]
    · rw [hmem, mem_triples_factsOf, Statement.under_ofRotation]
      rfl
  | constraint => cases hs
  | next => cases hs
  | last => cases hs

theorem isSome_value_iff (h : WordSized docs) (u : Position) (m n x : Node) :
    ((Store.ofDocuments docs).get? (Key.valuePrefix u m n ++ Key.encodeNode x)).isSome ↔
      Indexed docs (.ofRotation u m n x) := by
  rw [← mem_triples_factsOf, ← (content_ofDocuments h).isSome_tripleKey _ u, tripleKey_ofRotation]
  rfl

/-- A double reference finds a node exactly if that makes its statement a stored triple. -/
theorem seekPrefix_filing (h : WordSized docs) (hf : Files e f) {w : Var} (hs : f.shape = .double w)
    (σ : Var → Node) : ∃ start, f.reference.seekPrefix? (σ w) = some start ∧
      (((Store.ofDocuments docs).get? (start ++ Key.encodeNode (σ f.owner))).isSome ↔
        Indexed docs (e.2.2.under σ)) := by
  cases hf with
  | single => cases hs
  | constraint => cases hs
  | next g i u c hne =>
    cases hs
    exact ⟨_, rfl, by rw [isSome_value_iff h, Statement.under_ofRotation]; rfl⟩
  | last g i u c hne =>
    cases hs
    exact ⟨_, rfl, by rw [isSome_value_iff h, Statement.under_ofRotation]; rfl⟩

theorem constraint_filing (hf : Files e f) (hs : f.shape = .constraint) :
    ∃ q c, f.reference.permutation.constantPosition = some q ∧ f.reference.knownB = some (.node c) ∧
      ∀ σ : Var → Node, e.2.2.under σ = .ofRotation q (σ f.owner) (σ f.owner) c := by
  cases hf with
  | single => cases hs
  | constraint g i q v c => exact ⟨q, c, rfl, rfl, fun σ => Statement.under_ofRotation σ _ _ _ _⟩
  | next => cases hs
  | last => cases hs

end

end TriplePlan
