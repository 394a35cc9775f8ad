import TriplePlan.Plan.Assignment

/-! The common elements of ascending lists. Two lists are intersected with multiplicities, so the
elements of the intersection of several are those that all of them have, each as often as in the
list that has it least often. -/
namespace TriplePlan.Assignment

def Ascending (l : List Bytes) : Prop := l.Pairwise fun a b => (compare a b).isLE

theorem ascending_of_lt {l : List Bytes} (h : l.Pairwise fun a b => compare a b = .lt) :
    Ascending l :=
  h.imp fun hlt => by rw [hlt]; rfl

theorem eq_of_count {l l' : List Bytes} (h : Ascending l) (h' : Ascending l')
    (hcount : ∀ v, l.count v = l'.count v) : l = l' := by
  refine (List.perm_iff_count.2 hcount).eq_of_pairwise (fun a b _ _ hab hba => ?_) h h'
  exact Std.LawfulEqOrd.eq_of_compare (Std.OrientedCmp.isLE_antisymm hab hba)

theorem intersect_sublist (as bs : List Bytes) : (intersect as bs).Sublist as := by
  induction as generalizing bs with
  | nil => exact .refl _
  | cons a as ih =>
    rw [intersect]
    split
    · exact List.nil_sublist _
    · split
      · exact (ih _).cons_cons a
      · exact (ih _).cons a

theorem intersect_cons_cons (a b : Bytes) (as bs : List Bytes) :
    intersect (a :: as) (b :: bs) =
      if compare a b = .lt then intersect as (b :: bs)
      else if compare a b = .gt then intersect (a :: as) bs
      else a :: intersect as bs := by
  have hswap : compare b a = (compare a b).swap := Std.OrientedCmp.eq_swap
  cases hab : compare a b with
  | lt =>
    have hne : b ≠ a := by
      rintro rfl
      rw [Std.ReflOrd.compare_self] at hab
      cases hab
    simp [intersect, hswap, hab, hne]
  | eq =>
    obtain rfl := Std.LawfulEqOrd.eq_of_compare hab
    simp [intersect]
  | gt => simp [intersect, hswap, hab]

theorem count_eq_zero_of_lt {b v : Bytes} {r : List Bytes} (h : Ascending (b :: r))
    (hv : compare v b = .lt) : (b :: r).count v = 0 := by
  have hlt : ∀ x ∈ b :: r, compare v x = .lt := by
    intro x hx
    cases hx with
    | head => exact hv
    | tail _ hx => exact Std.TransCmp.lt_of_lt_of_isLE hv ((List.pairwise_cons.1 h).1 x hx)
  rw [List.count_eq_zero]
  intro hmem
  have hself := hlt v hmem
  rw [Std.ReflOrd.compare_self] at hself
  cases hself

theorem min_count_cons {a b : Bytes} {as bs : List Bytes} (hb : Ascending (b :: bs))
    (hab : compare a b = .lt) (v : Bytes) :
    min (as.count v) ((b :: bs).count v) = min ((a :: as).count v) ((b :: bs).count v) := by
  by_cases hav : a = v
  · subst hav
    rw [count_eq_zero_of_lt hb hab, Nat.min_zero, Nat.min_zero]
  · rw [List.count_cons_of_ne hav]

theorem count_intersect {as bs : List Bytes} (ha : Ascending as) (hb : Ascending bs) (v : Bytes) :
    (intersect as bs).count v = min (as.count v) (bs.count v) := by
  induction as generalizing bs with
  | nil => simp [intersect]
  | cons a as iha =>
    have has : Ascending as := (List.pairwise_cons.1 ha).2
    induction bs with
    | nil => simp [intersect]
    | cons b bs ihb =>
      have hbs : Ascending bs := (List.pairwise_cons.1 hb).2
      rw [intersect_cons_cons]
      split
      · rename_i hlt
        rw [iha has hb, min_count_cons hb hlt]
      · split
        · rename_i hgt
          rw [ihb hbs, Nat.min_comm, min_count_cons ha (Std.OrientedCmp.lt_of_gt hgt), Nat.min_comm]
        · rename_i hlt hgt
          have heq : compare a b = .eq := by
            cases hab : compare a b with
            | lt => exact absurd hab hlt
            | eq => rfl
            | gt => exact absurd hab hgt
          obtain rfl := Std.LawfulEqOrd.eq_of_compare heq
          rw [List.count_cons, List.count_cons, List.count_cons, iha has hbs]
          omega

theorem foldl_intersect (first : List Bytes) (sets : List (List Bytes)) :
    sets.foldl (fun root set => if root.isEmpty then root else intersect root set) first =
      sets.foldl intersect first := by
  induction sets generalizing first with
  | nil => rfl
  | cons set sets ih =>
    have hstep : (if first.isEmpty then first else intersect first set) = intersect first set := by
      cases first <;> rfl
    rw [List.foldl_cons, List.foldl_cons, hstep, ih]

theorem foldl_intersect_sublist (first : List Bytes) (sets : List (List Bytes)) :
    (sets.foldl intersect first).Sublist first := by
  induction sets generalizing first with
  | nil => exact .refl _
  | cons set sets ih => exact (ih _).trans (intersect_sublist first set)

theorem count_foldl_intersect {first : List Bytes} {sets : List (List Bytes)}
    (hfirst : Ascending first) (h : ∀ set ∈ sets, Ascending set) (v : Bytes) :
    (sets.foldl intersect first).count v =
      (sets.map fun set => set.count v).foldl min (first.count v) := by
  induction sets generalizing first with
  | nil => rfl
  | cons set sets ih =>
    obtain ⟨hset, hsets⟩ := List.forall_mem_cons.1 h
    have hnext : Ascending (intersect first set) := hfirst.sublist (intersect_sublist first set)
    rw [List.foldl_cons, ih hnext hsets, count_intersect hfirst hset, List.map_cons,
      List.foldl_cons]

theorem intersectAll_eq (sets : List (List Bytes)) (hne : sets ≠ []) :
    ∃ first rest, (first :: rest).Perm sets ∧ intersectAll sets = rest.foldl intersect first := by
  have hperm := stableSort_perm (fun a b : List Bytes => decide (a.length ≤ b.length)) sets
  rw [intersectAll]
  cases hsort : stableSort (fun a b : List Bytes => decide (a.length ≤ b.length)) sets with
  | nil =>
    rw [hsort] at hperm
    exact absurd hperm.nil_eq.symm hne
  | cons first rest => exact ⟨first, rest, hsort ▸ hperm, foldl_intersect first rest⟩

theorem intersectAll_sublist {sets : List (List Bytes)} (hne : sets ≠ []) :
    ∃ set ∈ sets, (intersectAll sets).Sublist set := by
  obtain ⟨first, rest, hperm, heq⟩ := intersectAll_eq sets hne
  exact ⟨first, hperm.subset List.mem_cons_self, heq ▸ foldl_intersect_sublist first rest⟩

section

variable {sets : List (List Bytes)} (hne : sets ≠ []) (h : ∀ set ∈ sets, Ascending set)
include hne h

theorem intersectAll_ascending : Ascending (intersectAll sets) := by
  obtain ⟨set, hset, hsub⟩ := intersectAll_sublist hne
  exact (h set hset).sublist hsub

/-- Every element counts as often as in the list that has it least often. -/
theorem min?_count (v : Bytes) :
    (sets.map fun set => set.count v).min? = some ((intersectAll sets).count v) := by
  obtain ⟨first, rest, hperm, heq⟩ := intersectAll_eq sets hne
  have hall : ∀ set ∈ first :: rest, Ascending set := fun set hset => h set (hperm.subset hset)
  obtain ⟨hfirst, hrest⟩ := List.forall_mem_cons.1 hall
  have hmin : ((first :: rest).map fun set => set.count v).min? =
      some ((intersectAll sets).count v) := by
    rw [heq, count_foldl_intersect hfirst hrest]
    rfl
  rw [List.min?_eq_some_iff] at hmin ⊢
  simpa only [(hperm.map _).mem_iff] using hmin

theorem mem_intersectAll (v : Bytes) : v ∈ intersectAll sets ↔ ∀ set ∈ sets, v ∈ set := by
  have hmin := List.min?_eq_some_iff.1 (min?_count hne h v)
  constructor
  · intro hv set hset
    have hle := hmin.2 _ (List.mem_map_of_mem hset)
    exact List.count_pos_iff.1 (Nat.lt_of_lt_of_le (List.count_pos_iff.2 hv) hle)
  · intro hv
    obtain ⟨set, hset, hcount⟩ := List.mem_map.1 hmin.1
    rw [← List.count_pos_iff, ← hcount, List.count_pos_iff]
    exact hv set hset

theorem intersectAll_perm {sets' : List (List Bytes)} (hperm : sets'.Perm sets) :
    intersectAll sets' = intersectAll sets := by
  have hne' : sets' ≠ [] := by
    rintro rfl
    exact hne hperm.nil_eq.symm
  have h' : ∀ set ∈ sets', Ascending set := fun set hset => h set (hperm.subset hset)
  refine eq_of_count (intersectAll_ascending hne' h') (intersectAll_ascending hne h) fun v => ?_
  obtain ⟨hmem, hle⟩ := List.min?_eq_some_iff.1 (min?_count hne h v)
  obtain ⟨hmem', hle'⟩ := List.min?_eq_some_iff.1 (min?_count hne' h' v)
  have hcounts := hperm.map fun set : List Bytes => set.count v
  exact Nat.le_antisymm (hle' _ (hcounts.mem_iff.2 hmem)) (hle _ (hcounts.mem_iff.1 hmem'))

end

/-- The intersection of strictly ascending lists is one too, and has what all of them have. -/
theorem intersectAll_spec {sets : List (List Bytes)} (hne : sets ≠ [])
    (h : ∀ set ∈ sets, set.Pairwise fun a b => compare a b = .lt) :
    ((intersectAll sets).Pairwise fun a b => compare a b = .lt) ∧
      ∀ v, v ∈ intersectAll sets ↔ ∀ set ∈ sets, v ∈ set := by
  obtain ⟨set, hset, hsub⟩ := intersectAll_sublist hne
  exact ⟨(h set hset).sublist hsub,
    mem_intersectAll hne fun set hset => ascending_of_lt (h set hset)⟩

/-- The intersection of ascending lists is the ascending list that has every element as often as
the list that has it least often, in whatever order the lists come; without repetitions it has what
all of them have. -/
theorem intersectAll_multiplicities (sets : List (List Bytes)) (hne : sets ≠ [])
    (h : ∀ set ∈ sets, Ascending set) :
    Ascending (intersectAll sets) ∧
      (∀ v, (sets.map fun set => set.count v).min? = some ((intersectAll sets).count v)) ∧
      (∀ sets', sets'.Perm sets → intersectAll sets' = intersectAll sets) ∧
      ((∀ set ∈ sets, set.Nodup) → (intersectAll sets).Nodup ∧
        ∀ v, v ∈ intersectAll sets ↔ ∀ set ∈ sets, v ∈ set) := by
  refine ⟨intersectAll_ascending hne h, min?_count hne h, fun sets' => intersectAll_perm hne h,
    fun hnodup => ⟨?_, mem_intersectAll hne h⟩⟩
  obtain ⟨set, hset, hsub⟩ := intersectAll_sublist hne
  exact (hnodup set hset).sublist hsub

def repeatedSets : List (List Bytes) :=
  [[[1], [1], [1], [2], [5], [5]], [[1], [1], [5]], [[0], [1], [1], [5], [5], [7]]]

theorem intersectAll_multiplicities_repeated :
    (∀ set ∈ repeatedSets, Ascending set) ∧ intersectAll repeatedSets = [[1], [1], [5]] ∧
      intersectAll repeatedSets.reverse = [[1], [1], [5]] ∧
      (repeatedSets.map fun set => set.count [5]).min? = some 1 := by
  have hascending : ∀ set ∈ repeatedSets, Ascending set := by
    unfold Ascending
    decide
  obtain ⟨-, hcount, hperm, -⟩ :=
    intersectAll_multiplicities repeatedSets (by decide) hascending
  have hroot : intersectAll repeatedSets = [[1], [1], [5]] := by decide
  have hleast := hcount [5]
  rw [hroot] at hleast
  exact ⟨hascending, hroot, (hperm _ (List.reverse_perm _)).trans hroot, hleast⟩

end TriplePlan.Assignment
