import TriplePlan.Statement

/-! A triple seen from one of its positions, and a statement whose variables have values. -/
namespace TriplePlan

theorem Position.rotate_cases (r p : Position) : p = r ∨ p = r.rotate 1 ∨ p = r.rotate 2 := by
  cases r <;> cases p <;> decide

namespace Triple

variable {α β : Type}

theorem ext_rotate {t t' : Triple α} {u : Position} (h : t.rotate u = t'.rotate u) : t = t' := by
  simp only [rotate, Prod.mk.injEq] at h
  obtain ⟨h1, h2, h3⟩ := h
  refine ext_get ?_
  intro p
  cases u <;> cases p <;> assumption

/-- The triple with `x` at one position and `m`, `n` at the two that follow it. -/
def ofRotation (u : Position) (m n x : α) : Triple α :=
  match u with
  | .subject => ⟨x, m, n⟩
  | .predicate => ⟨n, x, m⟩
  | .object => ⟨m, n, x⟩

@[simp] theorem rotate_ofRotation (u : Position) (m n x : α) :
    (ofRotation u m n x).rotate u = (m, n, x) := by
  cases u <;> rfl

theorem ofRotation_rotate (t : Triple α) (u : Position) :
    ofRotation u (t.get (u.rotate 1)) (t.get (u.rotate 2)) (t.get u) = t :=
  ext_rotate (rotate_ofRotation u _ _ _)

theorem eq_ofRotation_iff {t : Triple α} {u : Position} {m n x : α} :
    t = ofRotation u m n x ↔ t.get (u.rotate 1) = m ∧ t.get (u.rotate 2) = n ∧ t.get u = x := by
  constructor
  · intro h
    subst h
    have := rotate_ofRotation u m n x
    simpa [rotate] using this
  · intro h
    obtain ⟨rfl, rfl, rfl⟩ := h
    exact (ofRotation_rotate t u).symm

theorem ofRotation_injective (u : Position) (m n : α) : Function.Injective (ofRotation u m n) := by
  intro x y h
  exact (eq_ofRotation_iff.1 h).2.2.symm.trans (eq_ofRotation_iff.1 rfl).2.2 |>.symm

theorem ofRotation_next (u : Position) (m n x : α) :
    ofRotation u m n x = ofRotation (u.rotate 1) n x m := by
  cases u <;> rfl

theorem ofRotation_last (u : Position) (m n x : α) :
    ofRotation u m n x = ofRotation (u.rotate 2) x m n := by
  cases u <;> rfl

@[simp] theorem map_ofRotation (f : α → β) (u : Position) (m n x : α) :
    (ofRotation u m n x).map f = ofRotation u (f m) (f n) (f x) := by
  cases u <;> rfl

@[simp] theorem get_ofRotation (u : Position) (m n x : α) : (ofRotation u m n x).get u = x := by
  cases u <;> rfl

@[simp] theorem get_ofRotation_next (u : Position) (m n x : α) :
    (ofRotation u m n x).get (u.rotate 1) = m := by
  cases u <;> rfl

@[simp] theorem get_ofRotation_last (u : Position) (m n x : α) :
    (ofRotation u m n x).get (u.rotate 2) = n := by
  cases u <;> rfl

end Triple

/-- What a term stands for once its variables have values. -/
def Term.under (σ : Var → Node) : Term → Node
  | .var v => σ v
  | .node n => n

namespace Statement

def under (σ : Var → Node) (s : Statement) : Triple Node := s.map (Term.under σ)

@[simp] theorem under_map_node (σ : Var → Node) (t : Triple Node) : under σ (t.map .node) = t := rfl

@[simp] theorem under_ofRotation (σ : Var → Node) (u : Position) (a b c : Term) :
    under σ (.ofRotation u a b c) = .ofRotation u (a.under σ) (b.under σ) (c.under σ) :=
  Triple.map_ofRotation _ u a b c

@[simp] theorem nodes?_map_node (t : Triple Node) : nodes? (t.map .node) = some t := rfl

end Statement

end TriplePlan
