import TriplePlan.Action

/-! What a run of actions keeps, whether it ends with a result or an error. -/
namespace TriplePlan.Action

variable {σ ε α β : Type} {P : σ → Prop}

theorem forM_cons (f : α → Action σ ε PUnit) (a : α) (l : List α) :
    (a :: l).forM f = (f a >>= fun _ => l.forM f) := rfl

theorem bind_eq_ok_iff {x : Action σ ε α} {f : α → Action σ ε β} {b : β} {s s' : σ} :
    (x >>= f) s = (.ok b, s') ↔ ∃ a s₁, x s = (.ok a, s₁) ∧ f a s₁ = (.ok b, s') := by
  constructor
  · intro h
    cases hx : x s with
    | mk result s₁ =>
      cases result with
      | error e =>
        rw [bind_error hx] at h
        cases h
      | ok a =>
        rw [bind_ok hx] at h
        exact ⟨a, s₁, rfl, h⟩
  · intro h
    obtain ⟨a, s₁, hx, hf⟩ := h
    rw [bind_ok hx, hf]

theorem bind_preserves {x : Action σ ε α} {f : α → Action σ ε β} {s : σ} (hx : P (x s).2)
    (hf : ∀ a s', P s' → P (f a s').2) : P ((x >>= f) s).2 := by
  rw [bind_apply]
  generalize x s = first at hx ⊢
  obtain ⟨result, s'⟩ := first
  cases result with
  | error e => exact hx
  | ok a => exact hf a s' hx

theorem foldlM_preserves {f : β → α → Action σ ε β} (h : ∀ b a s, P s → P (f b a s).2)
    (l : List α) (b : β) {s : σ} (hs : P s) : P (l.foldlM f b s).2 := by
  induction l generalizing b s with
  | nil => exact hs
  | cons a l ih =>
    rw [List.foldlM_cons]
    exact bind_preserves (h b a s hs) fun b' s' hs' => ih b' hs'

theorem forM_preserves {f : α → Action σ ε PUnit} (h : ∀ a s, P s → P (f a s).2) (l : List α)
    {s : σ} (hs : P s) : P (l.forM f s).2 := by
  induction l generalizing s with
  | nil => exact hs
  | cons a l ih =>
    rw [forM_cons]
    exact bind_preserves (h a s hs) fun _ s' hs' => ih hs'

theorem forM_comm {f : α → Action σ ε PUnit} {g : σ → σ}
    (h : ∀ a s, f a (g s) = ((f a s).1, g (f a s).2)) (l : List α) (s : σ) :
    l.forM f (g s) = ((l.forM f s).1, g (l.forM f s).2) := by
  induction l generalizing s with
  | nil => rfl
  | cons a l ih =>
    rw [forM_cons, bind_apply, bind_apply, h]
    obtain ⟨result, s'⟩ := f a s
    cases result with
    | error e => rfl
    | ok _ => exact ih s'

end TriplePlan.Action
