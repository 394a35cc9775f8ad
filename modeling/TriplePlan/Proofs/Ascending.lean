import Mathlib.Data.List.Nodup

/-! Lists in strictly ascending order do not repeat an element and are known by their elements. -/
namespace TriplePlan

variable {α : Type} {cmp : α → α → Ordering} [Std.OrientedCmp cmp]

theorem nodup_of_ascending {l : List α} (h : l.Pairwise fun a b => cmp a b = .lt) : l.Nodup := by
  refine h.imp ?_
  rintro a _ hlt rfl
  have : cmp a a = .eq := Std.ReflCmp.compare_self
  rw [this] at hlt
  cases hlt

theorem eq_of_ascending {l k : List α} (hl : l.Pairwise fun a b => cmp a b = .lt)
    (hk : k.Pairwise fun a b => cmp a b = .lt) (h : ∀ a, a ∈ l ↔ a ∈ k) : l = k := by
  have hperm : l.Perm k :=
    (List.perm_ext_iff_of_nodup (nodup_of_ascending hl) (nodup_of_ascending hk)).2 h
  refine hperm.eq_of_pairwise ?_ hl hk
  intro a b _ _ hab hba
  rw [Std.OrientedCmp.gt_of_lt hab] at hba
  cases hba

end TriplePlan
