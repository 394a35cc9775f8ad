import TriplePlan.Plan.Classify
import TriplePlan.Proofs.Statement

/-! What a statement is filed as: nothing for a ground one, one reference for one variable, and
one reference for each of two. Every reference determines the statement it was made from. -/
namespace TriplePlan

namespace Statement

/-- The variable stands here, and in no other position. -/
def IsOnly (s : Statement) (u : Position) (v : Var) : Prop :=
  s.get u = .var v ∧ ∀ p, p ≠ u → (s.get p).isVar = false

def IsOpen (s : Statement) : Prop := ∀ p, (s.get p).isVar = true

end Statement

open Classified

/-- By its variables a statement is ground, or has one beside two constants, or the same one twice
or two different ones beside a constant, or is open. -/
inductive Form : Statement → Prop
  | ground (t : Triple Node) : Form (t.map .node)
  | one (u : Position) (m n : Node) (v : Var) : Form (.ofRotation u (.node m) (.node n) (.var v))
  | repeated (q : Position) (a : Var) (c : Node) : Form (.ofRotation q (.var a) (.var a) (.node c))
  | pair (q : Position) (a b : Var) (hab : a ≠ b) (c : Node) : Form
    (.ofRotation q (.var a) (.var b) (.node c))
  | allVars (a b c : Var) : Form ⟨.var a, .var b, .var c⟩

theorem form_two (q : Position) (a b : Var) (c : Node) :
    Form (.ofRotation q (.var a) (.var b) (.node c)) := by
  by_cases hab : a = b
  · subst hab
    exact .repeated q a c
  · exact .pair q a b hab c

theorem form (s : Statement) : Form s := by
  obtain ⟨x, y, z⟩ := s
  cases x with
  | node x => cases y with
    | node y => cases z with
      | node z => exact .ground ⟨x, y, z⟩
      | var z => exact .one .object x y z
    | var y => cases z with
      | node z => exact .one .predicate z x y
      | var z => exact form_two .subject y z x
  | var x => cases y with
    | node y => cases z with
      | node z => exact .one .subject y z x
      | var z => exact form_two .predicate z x y
    | var y => cases z with
      | node z => exact form_two .object x y z
      | var z => exact .allVars x y z

theorem varPositions_ground (t : Triple Node) : varPositions (t.map .node) = [] := rfl

theorem varPositions_one (u : Position) (m n : Node) (v : Var) :
    varPositions (.ofRotation u (.node m) (.node n) (.var v)) = [(u, v)] := by
  cases u <;> rfl

theorem varPositions_two (q : Position) (a b : Var) (c : Node) :
    (varPositions (.ofRotation q (.var a) (.var b) (.node c))).Perm
    [(q.rotate 1, a), (q.rotate 2, b)] := by
  cases q with
  | subject => exact .refl _
  | predicate => exact .swap _ _ _
  | object => exact .refl _

/-- The group of a variable that a reference belongs to. -/
inductive Shape where
  | constraint | single | double (other : Var)
deriving DecidableEq

/-- A reference, not yet linked or probed, with the place where it is filed. -/
structure Filing where
  owner : Var
  shape : Shape
  reference : Reference
deriving DecidableEq

/-- The filings of a statement, in the order of its variable positions. -/
def filings (e : String × Nat × Statement) : List Filing :=
  match varPositions e.2.2 with
  | [(u, v)] => [⟨v, .single, rotated e.1 e.2.1 e.2.2 u⟩]
  | [(i, a), (j, b)] =>
    if a = b then match Permutation.between i j with
      | none => []
      | some p => [⟨a, .constraint, .plain e.1 e.2.1 p none (p.constantPosition.map e.2.2.get)⟩]
    else [⟨a, .double b, rotated e.1 e.2.1 e.2.2 i⟩, ⟨b, .double a, rotated e.1 e.2.1 e.2.2 j⟩]
  | _ => []

variable {graph : String} {index : Nat}

theorem filings_ground (t : Triple Node) : filings (graph, index, t.map .node) = [] := rfl

theorem filings_one (u : Position) (m n : Node) (v : Var) :
    filings (graph, index, .ofRotation u (.node m) (.node n) (.var v)) =
      [⟨v, .single, .plain graph index (.single u) (some (.node m)) (some (.node n))⟩] := by
  cases u <;> rfl

theorem filings_repeated (q : Position) (a : Var) (c : Node) :
    filings (graph, index, .ofRotation q (.var a) (.var a) (.node c)) =
      [⟨a, .constraint, .plain graph index (.pair q) none (some (.node c))⟩] := by
  cases q <;> simp [filings, varPositions, Position.all, Triple.ofRotation, Triple.get, Term.var?,
    Permutation.between, Permutation.constantPosition]

theorem filings_pair (q : Position) {a b : Var} (hab : a ≠ b) (c : Node) :
    (filings (graph, index, .ofRotation q (.var a) (.var b) (.node c))).Perm
      [⟨a, .double b, .plain graph index (.single (q.rotate 1)) (some (.var b)) (some (.node c))⟩,
        ⟨b, .double a, .plain graph index (.single (q.rotate 2)) (some (.node c))
          (some (.var a))⟩] := by
  cases q with
  | subject =>
    change (if a = b then _ else _ : List Filing).Perm _
    rw [if_neg hab]
    exact .refl _
  | predicate =>
    change (if b = a then _ else _ : List Filing).Perm _
    rw [if_neg (Ne.symm hab)]
    exact .swap _ _ _
  | object =>
    change (if a = b then _ else _ : List Filing).Perm _
    rw [if_neg hab]
    exact .refl _

theorem mem_filings_pair {q : Position} {a b : Var} (hab : a ≠ b) {c : Node} {f : Filing} :
    f ∈ filings (graph, index, .ofRotation q (.var a) (.var b) (.node c)) ↔
      f = ⟨a, .double b, .plain graph index (.single (q.rotate 1)) (some (.var b))
        (some (.node c))⟩ ∨
      f = ⟨b, .double a, .plain graph index (.single (q.rotate 2)) (some (.node c))
        (some (.var a))⟩ := by
  rw [(filings_pair q hab c).mem_iff, List.mem_cons, List.mem_singleton]

/-- The ways in which a statement is filed under a variable of its own: beside two constants,
beside itself, and with another variable in the position that follows or in the one after that. -/
inductive Files : String × Nat × Statement → Filing → Prop
  | single (g : String) (i : Nat) (u : Position) (m n : Node) (v : Var) :
    Files (g, i, .ofRotation u (.node m) (.node n) (.var v))
      ⟨v, .single, .plain g i (.single u) (some (.node m)) (some (.node n))⟩
  | constraint (g : String) (i : Nat) (q : Position) (v : Var) (c : Node) :
    Files (g, i, .ofRotation q (.var v) (.var v) (.node c))
      ⟨v, .constraint, .plain g i (.pair q) none (some (.node c))⟩
  | next (g : String) (i : Nat) (u : Position) (c : Node) {v w : Var} (h : v ≠ w) :
    Files (g, i, .ofRotation u (.var w) (.node c) (.var v))
      ⟨v, .double w, .plain g i (.single u) (some (.var w)) (some (.node c))⟩
  | last (g : String) (i : Nat) (u : Position) (c : Node) {v w : Var} (h : v ≠ w) :
    Files (g, i, .ofRotation u (.node c) (.var w) (.var v))
      ⟨v, .double w, .plain g i (.single u) (some (.node c)) (some (.var w))⟩

variable {e : String × Nat × Statement} {f : Filing}

theorem files_of_mem (h : f ∈ filings e) : Files e f := by
  obtain ⟨g, i, s⟩ := e
  cases form s with
  | ground t => cases h
  | one u m n v =>
    rw [filings_one] at h
    obtain rfl := List.mem_singleton.1 h
    exact .single ..
  | repeated q a c =>
    rw [filings_repeated] at h
    obtain rfl := List.mem_singleton.1 h
    exact .constraint ..
  | pair q a b hab c =>
    rw [mem_filings_pair hab] at h
    cases h with
    | inl h =>
      rw [h, Triple.ofRotation_next]
      exact .next _ _ _ _ hab
    | inr h =>
      rw [h, Triple.ofRotation_last]
      exact .last _ _ _ _ (Ne.symm hab)
  | allVars a b c => cases h

theorem Files.inj {e' : String × Nat × Statement} (h : Files e f) (h' : Files e' f) : e = e' := by
  cases h with
  | single => cases h'; rfl
  | constraint => cases h'; rfl
  | next => cases h'; rfl
  | last => cases h'; rfl

theorem Files.ne_of_double (h : Files e f) {w : Var} (hs : f.shape = .double w) : f.owner ≠ w := by
  cases h with
  | single => cases hs
  | constraint => cases hs
  | next g i u c hne => cases hs; exact hne
  | last g i u c hne => cases hs; exact hne

/-- Every reference has a counter, except that of a repeated variable. -/
theorem Files.countKey_isSome_iff (h : Files e f) :
    f.reference.countKey?.isSome ↔ f.shape ≠ .constraint := by
  cases h <;> simp [Reference.countKey?, Reference.plain]

theorem countKey_isSome_iff {es : List (String × Nat × Statement)} :
    ∀ f ∈ es.flatMap filings, f.reference.countKey?.isSome ↔ f.shape ≠ .constraint := by
  intro f hf
  obtain ⟨e, -, hfe⟩ := List.mem_flatMap.1 hf
  exact (files_of_mem hfe).countKey_isSome_iff

theorem ground_or_open_of_filings (h : filings e = []) :
    (∃ t : Triple Node, e.2.2 = t.map .node) ∨ e.2.2.IsOpen := by
  obtain ⟨g, i, s⟩ := e
  cases form s with
  | ground t => exact .inl ⟨t, rfl⟩
  | one u m n v =>
    rw [filings_one] at h
    cases h
  | repeated q a c =>
    rw [filings_repeated] at h
    cases h
  | pair q a b hab c =>
    have hperm : (filings (g, i, .ofRotation q (.var a) (.var b) (.node c))).Perm _ :=
      filings_pair q hab c
    rw [h] at hperm
    cases hperm.length_eq
  | allVars a b c =>
    refine .inr ?_
    intro p
    cases p <;> rfl

theorem exists_filing_swap {a b : Var} (h : f ∈ filings e) (ha : f.owner = a)
    (hb : f.shape = .double b) :
    ∃ f' ∈ filings e, f'.owner = b ∧ f'.shape = .double a := by
  obtain ⟨g, i, s⟩ := e
  cases form s with
  | ground t => cases h
  | one u m n v =>
    rw [filings_one] at h
    obtain rfl := List.mem_singleton.1 h
    cases hb
  | repeated q x c =>
    rw [filings_repeated] at h
    obtain rfl := List.mem_singleton.1 h
    cases hb
  | pair q x y hxy c =>
    simp only [mem_filings_pair hxy] at h ⊢
    cases h with
    | inl h =>
      subst h ha
      cases hb
      exact ⟨_, .inr rfl, rfl, rfl⟩
    | inr h =>
      subst h ha
      cases hb
      exact ⟨_, .inl rfl, rfl, rfl⟩
  | allVars x y z => cases h

end TriplePlan
