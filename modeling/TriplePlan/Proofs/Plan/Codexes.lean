import TriplePlan.Plan.Codex

/-! The codexes of a map, in the order of its variables. A change to one variable leaves those of
all others alone, and sorting moves them as they are. -/
namespace TriplePlan

theorem insertSorted_map {α β : Type} (g : α → β) (le : β → β → Bool) (a : α) (l : List α) :
    insertSorted le (g a) (l.map g) = (insertSorted (fun a b => le (g a) (g b)) a l).map g := by
  induction l with
  | nil => rfl
  | cons b l ih =>
    rw [List.map_cons, insertSorted, insertSorted, ih]
    split <;> rfl

theorem stableSort_map {α β : Type} (g : α → β) (le : β → β → Bool) (l : List α) :
    stableSort le (l.map g) = (stableSort (fun a b => le (g a) (g b)) l).map g := by
  induction l with
  | nil => rfl
  | cons a l ih =>
    change insertSorted le (g a) (stableSort le (l.map g)) = _
    rw [ih, insertSorted_map]
    rfl

namespace CodexMap

variable {m m' : CodexMap} {id v : Var} {c : Codex} {f : Codex.Content → Codex.Content}

theorem map_id_codexes (m : CodexMap) : m.codexes.map (·.id) = m.ids := by
  rw [codexes, List.map_map]
  exact List.map_id _

theorem mem_codexes : c ∈ m.codexes ↔ c.id ∈ m.ids ∧ m.codex c.id = c := by
  rw [codexes, List.mem_map]
  constructor
  · rintro ⟨v, hv, rfl⟩
    exact ⟨hv, rfl⟩
  · exact fun h => ⟨c.id, h⟩

theorem codex_mem_codexes (hv : v ∈ m.ids) : m.codex v ∈ m.codexes := List.mem_map_of_mem hv

theorem codex?_eq_some_iff : m.codex? v = some c ↔ c ∈ m.codexes ∧ c.id = v := by
  rw [mem_codexes, ids, m.mem_slice, OrderedMap.contains, codex, codex?]
  constructor
  · intro h
    obtain ⟨content, hget, rfl⟩ := Option.map_eq_some_iff.1 h
    simp [hget]
  · rintro ⟨⟨hsome, hc⟩, rfl⟩
    obtain ⟨content, hget⟩ := Option.isSome_iff_exists.1 hsome
    rw [hget] at hc ⊢
    exact congrArg some hc

theorem codex?_congr (hp : m'.codexes.Perm m.codexes) (v : Var) : m'.codex? v = m.codex? v := by
  ext c
  rw [codex?_eq_some_iff, codex?_eq_some_iff, hp.mem_iff]

theorem ids_modify (m : CodexMap) (id : Var) (f : Codex.Content → Codex.Content) :
    (m.modify id f).ids = if id ∈ m.ids then m.ids else m.ids ++ [id] := by
  simp only [ids, m.mem_slice]
  change (m.see id).slice = _
  rw [see]
  split <;> rfl

theorem codex_adjust (hid : id ∈ m.ids) :
    (m.adjust id f).codex v = if v = id then ⟨f (m.codex id).toContent, id⟩ else m.codex v := by
  obtain ⟨content, hget⟩ := Option.isSome_iff_exists.1 ((m.mem_slice id).1 hid)
  rw [codex, adjust, OrderedMap.get?_modify]
  split
  · rename_i hv
    subst hv
    simp [codex, hget]
  · rfl

theorem codex_see (m : CodexMap) (id v : Var) : (m.see id).codex v = m.codex v := by
  rw [see]
  split
  · rfl
  · rename_i hid
    rw [codex, codex, OrderedMap.get?_insert]
    split
    · rename_i hv
      subst hv
      rw [Option.not_isSome_iff_eq_none.1 hid]
      rfl
    · rfl

/-- A variable that was not there begins with nothing. -/
theorem codex_modify (m : CodexMap) (id : Var) (f : Codex.Content → Codex.Content) (v : Var) :
    (m.modify id f).codex v =
      if v = id then ⟨f (m.codex id).toContent, id⟩ else m.codex v := by
  have hid : id ∈ (m.see id).ids := by
    have hids : (m.see id).ids = _ := ids_modify m id f
    rw [hids]
    split
    · assumption
    · simp
  rw [modify, codex_adjust hid, codex_see, codex_see]

theorem codex_of_not_mem (hv : v ∉ m.ids) : m.codex v = ⟨.empty, v⟩ := by
  have hnone : m.index.get? v = none :=
    Option.not_isSome_iff_eq_none.1 fun hsome => hv ((m.mem_slice v).2 hsome)
  rw [codex, hnone]
  rfl

theorem mem_codexes_modify : c ∈ (m.modify id f).codexes ↔
    (c ∈ m.codexes ∧ c.id ≠ id) ∨ c = ⟨f (m.codex id).toContent, id⟩ := by
  rw [mem_codexes, mem_codexes, codex_modify, ids_modify]
  by_cases hc : c.id = id
  · have hmem : id ∈ if id ∈ m.ids then m.ids else m.ids ++ [id] := by
      split
      · assumption
      · simp
    simp only [hc, hmem, true_and, if_pos, ne_eq, not_true, and_false, false_or]
    exact eq_comm
  · have hne : c ≠ ⟨f (m.codex id).toContent, id⟩ := fun h => hc (congrArg Codex.id h)
    by_cases hid : id ∈ m.ids <;> simp [hc, hid, hne]

@[simp] theorem references_modify (m : CodexMap) (id : Var) (f : Codex.Content → Codex.Content) :
    (m.modify id f).references = m.references := by
  change (m.see id).references = m.references
  rw [see]
  split <;> rfl

@[simp] theorem probed_modify (m : CodexMap) (id : Var) (f : Codex.Content → Codex.Content) :
    (m.modify id f).probed = m.probed := by
  change (m.see id).probed = m.probed
  rw [see]
  split <;> rfl

theorem modify_with_references (m : CodexMap) (id : Var) (f : Codex.Content → Codex.Content)
    (references : List Reference) : { m.modify id f with references } =
      { m with references }.modify id f := by
  simp only [modify, see]
  by_cases hid : m.index.contains id <;> simp only [hid] <;> rfl

theorem codexes_sort (m : CodexMap) (order : VariableOrder) : (m.sort order).codexes =
    stableSort (fun a b => order.le a.stats.count b.stats.count) m.codexes :=
  (stableSort_map m.codex (fun a b => order.le a.stats.count b.stats.count) m.slice).symm

theorem codexes_sort_perm (m : CodexMap) (order : VariableOrder) :
    (m.sort order).codexes.Perm m.codexes :=
  m.codexes_sort order ▸ stableSort_perm _ _

end CodexMap

end TriplePlan
