/-! What a computation did on the way to its result or its error. -/
namespace TriplePlan

variable {ε α β : Type}

theorem map_eq_ok_iff {f : α → β} {x : Except ε α} {b : β} :
    x.map f = .ok b ↔ ∃ a, x = .ok a ∧ f a = b := by
  cases x <;> simp [Except.map]

theorem map_eq_error_iff {f : α → β} {x : Except ε α} {e : ε} :
    x.map f = .error e ↔ x = .error e := by
  cases x <;> simp [Except.map]

theorem bind_eq_ok_iff {f : α → Except ε β} {x : Except ε α} {b : β} :
    (x >>= f) = .ok b ↔ ∃ a, x = .ok a ∧ f a = .ok b := by
  cases x <;> simp [bind, Except.bind]

theorem bind_eq_error_iff {f : α → Except ε β} {x : Except ε α} {e : ε} :
    (x >>= f) = .error e ↔ x = .error e ∨ ∃ a, x = .ok a ∧ f a = .error e := by
  cases x <;> simp [bind, Except.bind]

theorem mapM_eq_ok_iff {f : α → Except ε β} {l : List α} {out : List β} :
    l.mapM f = .ok out ↔ l.map f = out.map .ok := by
  induction l generalizing out with
  | nil => cases out <;> simp [pure, Except.pure]
  | cons a l ih =>
    simp only [List.mapM_cons, bind_eq_ok_iff, ih, List.map_cons]
    constructor
    · rintro ⟨b, hb, bs, hbs, heq⟩
      cases heq
      rw [hb, hbs, List.map_cons]
    · intro h
      cases out with
      | nil => cases h
      | cons b bs =>
        obtain ⟨hb, hbs⟩ := List.cons.inj h
        exact ⟨b, hb, bs, hbs, rfl⟩

theorem mapM_eq_error_iff {f : α → Except ε β} {l : List α} {e : ε} :
    l.mapM f = .error e ↔ ∃ before a after, l = before ++ a :: after ∧
      (∀ b ∈ before, ∃ y, f b = .ok y) ∧ f a = .error e := by
  induction l with
  | nil => simp [pure, Except.pure]
  | cons a l ih =>
    rw [List.mapM_cons]
    constructor
    · intro h
      cases ha : f a with
      | error e' =>
        rw [ha] at h
        cases h
        exact ⟨[], a, l, rfl, nofun, ha⟩
      | ok y =>
        have hrest : l.mapM f = .error e := by
          cases hl : l.mapM f with
          | error e' => rw [ha, hl] at h; exact h
          | ok ys => rw [ha, hl] at h; cases h
        obtain ⟨before, b, after, rfl, hbefore, hb⟩ := ih.1 hrest
        exact ⟨a :: before, b, after, rfl, List.forall_mem_cons.2 ⟨⟨y, ha⟩, hbefore⟩, hb⟩
    · rintro ⟨before, b, after, hl, hbefore, hb⟩
      cases before with
      | nil =>
        cases hl
        rw [hb]
        rfl
      | cons b' before =>
        cases hl
        obtain ⟨⟨y, hy⟩, hrest⟩ := List.forall_mem_cons.1 hbefore
        rw [hy, ih.2 ⟨before, b, after, rfl, hrest, hb⟩]
        rfl

end TriplePlan
