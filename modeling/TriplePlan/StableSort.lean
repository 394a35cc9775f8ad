/-!
Stable sorting by insertion: equal elements keep their order.
-/
namespace TriplePlan

variable {α : Type}

def insertSorted (le : α → α → Bool) (a : α) : List α → List α
  | [] => [a]
  | b :: r => if le a b then a :: b :: r else b :: insertSorted le a r

def stableSort (le : α → α → Bool) (l : List α) : List α := l.foldr (insertSorted le) []

theorem insertSorted_perm (le : α → α → Bool) (a : α) (l : List α) :
    (insertSorted le a l).Perm (a :: l) := by
  induction l with
  | nil => exact .refl _
  | cons b r ih =>
    rw [insertSorted]
    split
    · exact .refl _
    · exact (ih.cons b).trans (.swap a b r)

theorem stableSort_perm (le : α → α → Bool) (l : List α) : (stableSort le l).Perm l := by
  induction l with
  | nil => exact .refl _
  | cons a r ih => exact (insertSorted_perm le a _).trans (ih.cons a)

section

variable {le : α → α → Bool} (htrans : ∀ a b c, le a b → le b c → le a c)
  (htotal : ∀ a b, le a b ∨ le b a) {R : α → α → Prop}
include htrans htotal

theorem insertSorted_pairwise {a : α} {l : List α}
    (hl : l.Pairwise fun b c => le b c ∧ (le c b → R b c)) (ha : ∀ b ∈ l, R a b) :
    (insertSorted le a l).Pairwise fun b c => le b c ∧ (le c b → R b c) := by
  induction l with
  | nil => exact List.pairwise_singleton ..
  | cons b r ih =>
    obtain ⟨hb, hr⟩ := List.pairwise_cons.1 hl
    rw [insertSorted]
    split
    · rename_i hab
      refine List.pairwise_cons.2 ⟨fun c hc => ⟨?_, fun _ => ha c hc⟩, hl⟩
      cases hc with
      | head => exact hab
      | tail _ hc => exact htrans a b c hab (hb c hc).1
    · rename_i hab
      have hba : le b a := (htotal a b).resolve_left hab
      refine List.pairwise_cons.2 ⟨fun c hc => ?_, ih hr fun c hc => ha c (.tail _ hc)⟩
      cases List.mem_cons.1 ((insertSorted_perm le a r).mem_iff.1 hc) with
      | inl hca => exact hca ▸ ⟨hba, fun h => absurd h hab⟩
      | inr hc => exact hb c hc

theorem stableSort_pairwise {l : List α} (hl : l.Pairwise R) :
    (stableSort le l).Pairwise fun a b => le a b ∧ (le b a → R a b) := by
  induction l with
  | nil => exact .nil
  | cons a r ih =>
    obtain ⟨ha, hr⟩ := List.pairwise_cons.1 hl
    exact insertSorted_pairwise htrans htotal (ih hr)
      fun b hb => ha b ((stableSort_perm le r).mem_iff.1 hb)

end

end TriplePlan
