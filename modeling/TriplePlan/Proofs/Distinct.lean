import Mathlib.Data.List.Induction

/-! Lists without their repetitions: the first occurrence of every element stays where it is. -/
namespace TriplePlan

variable {α β : Type} [DecidableEq α] [DecidableEq β]

theorem eraseDups_snoc (l : List α) (a : α) :
    (l ++ [a]).eraseDups = if a ∈ l then l.eraseDups else l.eraseDups ++ [a] := by
  rw [List.eraseDups_append]
  by_cases h : a ∈ l <;> simp [List.removeAll, h, List.eraseDups_cons]

theorem nodup_eraseDups (l : List α) : l.eraseDups.Nodup := by
  induction l using List.reverseRecOn with
  | nil => simp
  | append_singleton l a ih =>
    rw [eraseDups_snoc]
    split
    · exact ih
    · rename_i ha
      refine List.nodup_append.2 ⟨ih, by simp, ?_⟩
      intro x hx y hy hxy
      obtain rfl := List.mem_singleton.1 hy
      exact ha (List.mem_eraseDups.1 (hxy ▸ hx))

theorem eraseDups_of_nodup {l : List α} (h : l.Nodup) : l.eraseDups = l := by
  induction l using List.reverseRecOn with
  | nil => rfl
  | append_singleton l a ih =>
    obtain ⟨hl, -, hdisj⟩ := List.nodup_append.1 h
    have ha : a ∉ l := fun hmem => hdisj a hmem a List.mem_cons_self rfl
    rw [eraseDups_snoc, if_neg ha, ih hl]

theorem eraseDups_append_eraseDups (l m : List α) :
    (l ++ m.eraseDups).eraseDups = (l ++ m).eraseDups := by
  induction m using List.reverseRecOn with
  | nil => rfl
  | append_singleton m a ih =>
    rw [eraseDups_snoc, ← List.append_assoc, eraseDups_snoc, ← ih]
    by_cases ha : a ∈ m
    · simp [ha]
    · rw [if_neg ha, ← List.append_assoc, eraseDups_snoc]
      simp

theorem eraseDups_append_congr {l l' : List α} (h : l.eraseDups = l'.eraseDups) (m : List α) :
    (l ++ m).eraseDups = (l' ++ m).eraseDups := by
  have hmem : ∀ a, a ∈ l ↔ a ∈ l' := by
    intro a
    rw [← List.mem_eraseDups, h, List.mem_eraseDups]
  induction m using List.reverseRecOn with
  | nil => simpa using h
  | append_singleton m a ih =>
    rw [← List.append_assoc, ← List.append_assoc, eraseDups_snoc, eraseDups_snoc, ih]
    simp [hmem]

omit [DecidableEq α] in
theorem eraseDups_flatMap (g : α → List β) (l : List α) :
    (l.flatMap fun a => (g a).eraseDups).eraseDups = (l.flatMap g).eraseDups := by
  induction l using List.reverseRecOn with
  | nil => rfl
  | append_singleton l a ih =>
    rw [List.flatMap_append, List.flatMap_append, List.flatMap_singleton, List.flatMap_singleton,
      eraseDups_append_eraseDups]
    exact eraseDups_append_congr ih (g a)

end TriplePlan
