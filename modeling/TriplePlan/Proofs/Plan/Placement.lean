import TriplePlan.Plan.Assignment
import TriplePlan.Proofs.Plan.Past
import TriplePlan.Proofs.Plan.Probe

/-! Assigning the variables in turn puts every reference of a codex in one place of its assignment:
the double groups of the variables before it are its past, those of the others its future. This
holds on every store, whatever the roots are. -/
namespace TriplePlan.Assignment

def uses (a : Assignment) : List RefId :=
  a.constraint ++ a.present ++ a.past.cursors ++ a.future.values.flatten

/-- What an assignment after certain others has of its codex, and where. -/
structure Placed (before : List Assignment) (c : Codex) (a : Assignment) : Prop where
  id : a.id = c.id
  stats : a.stats = c.stats
  constraint : a.constraint = c.constraint
  present : a.present = c.single
  past : ∃ references, a.past = Past.gathered (pastGroups before c) references
  dependencies : a.dependencies = dependenciesOf before (pastGroups before c)
  future : a.future = c.double.filterKeys fun v => (positionOf before v).isNone

/-- The assignments of codexes after certain others, each after those that precede it. -/
inductive Placement : List Assignment → List Codex → List Assignment → Prop
  | nil (before : List Assignment) : Placement before [] []
  | cons {before : List Assignment} {c : Codex} {a : Assignment} {codexes : List Codex}
    {assigned : List Assignment} (first : Placed before c a)
    (rest : Placement (before ++ [a]) codexes assigned) :
    Placement before (c :: codexes) (a :: assigned)

variable {before : List Assignment} {c : Codex} {a : Assignment} {y : Var} {offset : Nat}
  {rid : RefId}

theorem positionOf_isSome {assigned : List Assignment} {v : Var} :
    (positionOf assigned v).isSome ↔ v ∈ assigned.map (·.id) := by
  rw [positionOf, List.findIdx?_isSome, List.any_eq_true, List.mem_map]
  simp

theorem positionOf_eq_some_iff {assigned : List Assignment} (hn : (assigned.map (·.id)).Nodup)
    {v : Var} {i : Nat} : positionOf assigned v = some i ↔ (assigned.map (·.id))[i]? = some v := by
  constructor
  · intro h
    obtain ⟨hi, hv, -⟩ := List.findIdx?_eq_some_iff_getElem.1 h
    rw [List.getElem?_map, List.getElem?_eq_getElem hi]
    exact congrArg some (of_decide_eq_true hv)
  · intro h
    have hmem : (positionOf assigned v).isSome := positionOf_isSome.2 (List.mem_of_getElem? h)
    obtain ⟨j, hj⟩ := Option.isSome_iff_exists.1 hmem
    obtain ⟨hlt, hv, -⟩ := List.findIdx?_eq_some_iff_getElem.1 hj
    have hj' : (assigned.map (·.id))[j]? = some v := by
      rw [List.getElem?_map, List.getElem?_eq_getElem hlt]
      exact congrArg some (of_decide_eq_true hv)
    have hji : j = i := by
      refine (List.getElem?_inj ?_ hn).1 (hj'.trans h.symm)
      rw [List.length_map]
      exact hlt
    rw [hj, hji]

theorem mem_pastGroups_iff {g : Var × Nat × List RefId} : g ∈ pastGroups before c ↔
    positionOf before g.1 = some g.2.1 ∧ c.double.get? g.1 = some g.2.2 := by
  simp only [pastGroups, List.mem_filterMap, Option.map_eq_some_iff, ← OrderedMap.mem_entries]
  constructor
  · intro h
    obtain ⟨e, he, i, hi, rfl⟩ := h
    exact ⟨hi, he⟩
  · intro h
    exact ⟨_, h.2, _, h.1, rfl⟩

theorem nodup_pastGroups (before : List Assignment) (c : Codex) :
    ((pastGroups before c).map (·.1)).Nodup := by
  refine List.pairwise_map.2 (List.pairwise_filterMap.2 ?_)
  refine (List.pairwise_map.1 c.double.keys_nodup).imp fun hne g hg g' hg' => ?_
  obtain ⟨_, -, rfl⟩ := Option.map_eq_some_iff.1 hg
  obtain ⟨_, -, rfl⟩ := Option.map_eq_some_iff.1 hg'
  exact hne

theorem getElem?_group_double : (c.group (.double y))[offset]? = some rid ↔
    ∃ l, c.double.get? y = some l ∧ l[offset]? = some rid := by
  rw [Codex.group]
  cases c.double.get? y <;> simp

variable {σ : Type} [Readable σ] {s : σ} {requireRoot : Bool} {refs refs' : List Reference}

/-- Assigning a variable marks the references of its past, unless it gets no root. -/
theorem assign_cases (requireRoot : Bool) (s : σ) (before : List Assignment) (c : Codex)
    (refs : List Reference) :
    (∃ e, valueRootOf requireRoot s refs c = .error e ∧
      assign requireRoot s before c refs = (.error e, refs)) ∨
    ∃ a, Placed before c a ∧ valueRootOf requireRoot s refs c = .ok a.valueRoot ∧
      a.past = Past.gathered (pastGroups before c) (Past.markAll a.past.marks refs) ∧
      assign requireRoot s before c refs =
        (.ok (before ++ [a]), Past.markAll a.past.marks refs) := by
  cases hroot : valueRootOf requireRoot s refs c with
  | error e =>
    refine .inl ⟨e, rfl, ?_⟩
    rw [assign, Action.bind_ok (Action.get_apply refs), Action.lift_bind_error hroot]
  | ok root =>
    let followed := (pastGroups before c).foldl (fun l g => Past.follow g.1 g.2.2 l) refs
    let a : Assignment := {
      id := c.id, stats := c.stats, constraint := c.constraint, present := c.single
      valueRoot := root, past := Past.gathered (pastGroups before c) followed
      future := c.double.filterKeys fun v => (positionOf before v).isNone
      dependencies := dependenciesOf before (pastGroups before c) }
    have hrun : assign requireRoot s before c refs = (.ok (before ++ [a]), followed) := by
      rw [assign, Action.bind_ok (Action.get_apply refs), Action.lift_bind_ok hroot]
      rfl
    have hmarks : a.past.marks = (pastGroups before c).flatMap fun g => Past.marksOf g.1 g.2.2 :=
      Past.marks_gathered (nodup_pastGroups before c) followed
    have hfollowed : Past.markAll a.past.marks refs = followed := by
      rw [hmarks, ← Past.foldl_follow]
    refine .inr ⟨a, ⟨rfl, rfl, rfl, rfl, ⟨followed, rfl⟩, rfl, rfl⟩, rfl, ?_, ?_⟩
    · rw [hfollowed]
    · rw [hrun, hfollowed]

/-- The references of all pasts are marked, one variable after the other, up to a variable that gets
no root. -/
theorem foldlM_assign_cases (requireRoot : Bool) (s : σ) (before : List Assignment)
    (codexes : List Codex) (refs : List Reference) :
    (∃ e marks, codexes.foldlM (assign requireRoot s) before refs =
      (.error e, Past.markAll marks refs)) ∨
    ∃ assigned, Placement before codexes assigned ∧
      codexes.foldlM (assign requireRoot s) before refs =
        (.ok (before ++ assigned), Past.markAll (assigned.flatMap (·.past.marks)) refs) := by
  induction codexes generalizing before refs with
  | nil =>
    refine .inr ⟨[], .nil before, ?_⟩
    rw [List.append_nil]
    rfl
  | cons c codexes ih =>
    rw [List.foldlM_cons]
    obtain ⟨e, -, hstep⟩ | ⟨a, ha, -, -, hstep⟩ := assign_cases requireRoot s before c refs
    · exact .inl ⟨e, [], Action.bind_error hstep⟩
    · rw [Action.bind_ok hstep]
      obtain ⟨e, marks, hrest⟩ | ⟨assigned, hplace, hrest⟩ :=
        ih (before ++ [a]) (Past.markAll a.past.marks refs)
      · exact .inl ⟨e, a.past.marks ++ marks, by rw [hrest, Past.markAll_append]⟩
      · refine .inr ⟨a :: assigned, .cons ha hplace, ?_⟩
        rw [hrest, List.append_assoc, List.singleton_append, List.flatMap_cons,
          Past.markAll_append]

namespace Placed

theorem groups (h : Placed before c a) :
    a.past.groups = (pastGroups before c).map fun g => (g.1, g.2.1) := by
  obtain ⟨references, hpast⟩ := h.past
  rw [hpast]
  exact Past.groups_filled _

theorem lookup_eq_some_iff (h : Placed before c a) : a.past.lookup y offset = some rid ↔
    y ∈ before.map (·.id) ∧ (c.group (.double y))[offset]? = some rid := by
  obtain ⟨references, hpast⟩ := h.past
  rw [hpast, ← positionOf_isSome, Option.isSome_iff_exists, getElem?_group_double]
  refine (Past.lookup_filled_eq_some_iff (nodup_pastGroups before c)).trans ?_
  simp only [mem_pastGroups_iff]
  constructor
  · intro hasked
    obtain ⟨g, ⟨hposition, hl⟩, rfl, href⟩ := hasked
    exact ⟨⟨_, hposition⟩, _, hl, href⟩
  · intro hgroup
    obtain ⟨⟨position, hposition⟩, l, hl, href⟩ := hgroup
    exact ⟨(y, position, l), ⟨hposition, hl⟩, rfl, href⟩

theorem mem_marks (h : Placed before c a) {e : Past.Mark} :
    e ∈ a.past.marks ↔ a.past.lookup e.dep e.offset = some e.ref := by
  obtain ⟨references, hpast⟩ := h.past
  rw [hpast]
  exact Past.mem_marks_gathered (nodup_pastGroups before c)

theorem map_ref_marks (h : Placed before c a) : a.past.marks.map (·.ref) = a.past.cursors := by
  obtain ⟨references, hpast⟩ := h.past
  rw [hpast]
  exact Past.map_ref_marks_gathered (nodup_pastGroups before c) references

theorem future_eq_some_iff (h : Placed before c a) :
    (a.future.get? y).bind (·[offset]?) = some rid ↔
      y ∉ before.map (·.id) ∧ (c.group (.double y))[offset]? = some rid := by
  rw [h.future, OrderedMap.get?_filterKeys, ← positionOf_isSome, getElem?_group_double]
  by_cases hy : (positionOf before y).isNone
  · rw [if_pos hy, Option.bind_eq_some_iff]
    exact (and_iff_right (by simpa using hy)).symm
  · rw [if_neg hy]
    simp only [Option.bind_none, reduceCtorEq, false_iff]
    exact fun hno => hy (by simpa using hno.1)

/-- Past and future share the double references between them. -/
theorem probed_perm (h : Placed before c a) :
    (a.present ++ a.past.cursors ++ a.future.values.flatten).Perm c.probedRefs := by
  have hpast : a.past.cursors =
      (c.double.entries.filter fun g => (positionOf before g.1).isSome).flatMap (·.2) := by
    obtain ⟨references, hreferences⟩ := h.past
    have hcursors : a.past.cursors = (pastGroups before c).flatMap (·.2.2) :=
      hreferences ▸ Past.cursors_filled _
    rw [hcursors, pastGroups]
    induction c.double.entries with
    | nil => rfl
    | cons g groups ih =>
      cases hg : positionOf before g.1 <;> simp [hg, ih]
  have hfuture : a.future.values.flatten =
      (c.double.entries.filter fun g => !(positionOf before g.1).isSome).flatMap (·.2) := by
    rw [h.future, OrderedMap.values, ← List.flatMap_def]
    simp only [Option.not_isSome]
    rfl
  rw [h.present, Codex.probedRefs, List.append_assoc, hpast, hfuture, ← List.flatMap_append,
    OrderedMap.values, ← List.flatMap_def]
  exact ((List.filter_append_perm _ _).flatMap_right _).append_left _

theorem uses_perm (h : Placed before c a) : a.uses.Perm c.refs := by
  rw [uses, h.constraint, List.append_assoc, List.append_assoc, ← List.append_assoc a.present]
  exact h.probed_perm.append_left _

end Placed

namespace Placement

variable {codexes : List Codex} {assigned : List Assignment}

theorem map_id (h : Placement before codexes assigned) :
    assigned.map (·.id) = codexes.map (·.id) := by
  induction h with
  | nil => rfl
  | cons first rest ih => rw [List.map_cons, List.map_cons, first.id, ih]

theorem uses_perm (h : Placement before codexes assigned) :
    (assigned.flatMap uses).Perm (codexes.flatMap Codex.refs) := by
  induction h with
  | nil => exact .refl _
  | cons first rest ih =>
    rw [List.flatMap_cons, List.flatMap_cons]
    exact first.uses_perm.append ih

theorem get (h : Placement before codexes assigned) {i : Nat} {a : Assignment}
    (ha : assigned[i]? = some a) :
    ∃ c, codexes[i]? = some c ∧ Placed (before ++ assigned.take i) c a := by
  induction h generalizing i with
  | nil => cases ha
  | cons first rest ih =>
    cases i with
    | zero =>
      cases ha
      refine ⟨_, rfl, ?_⟩
      rw [List.take_zero, List.append_nil]
      exact first
    | succ i =>
      obtain ⟨c, hc, hplaced⟩ := ih ha
      refine ⟨c, hc, ?_⟩
      rwa [List.append_assoc] at hplaced

theorem exists_placed (h : Placement before codexes assigned) (ha : a ∈ assigned) :
    ∃ c ∈ codexes, ∃ before, Placed before c a := by
  obtain ⟨i, hi⟩ := List.mem_iff_getElem?.1 ha
  obtain ⟨c, hc, hplaced⟩ := h.get hi
  exact ⟨c, List.mem_of_getElem? hc, _, hplaced⟩

theorem mem_marks (h : Placement before codexes assigned) (ha : a ∈ assigned) {e : Past.Mark} :
    e ∈ a.past.marks ↔ a.past.lookup e.dep e.offset = some e.ref := by
  obtain ⟨c, -, before, hplaced⟩ := h.exists_placed ha
  exact hplaced.mem_marks

theorem map_ref_marks (h : Placement before codexes assigned) (ha : a ∈ assigned) :
    a.past.marks.map (·.ref) = a.past.cursors := by
  obtain ⟨c, -, before, hplaced⟩ := h.exists_placed ha
  exact hplaced.map_ref_marks

section

variable {filed : List Filing}

theorem getElem?_places (h : Placement before codexes assigned) (hcover : Covers filed codexes)
    (ha : a ∈ assigned) (hlookup : a.past.lookup y offset = some rid) :
    (places filed a.id (.double y))[offset]? = some rid := by
  obtain ⟨c, hc, before, hplaced⟩ := h.exists_placed ha
  rw [hplaced.id, ← hcover.group c hc]
  exact (hplaced.lookup_eq_some_iff.1 hlookup).2

theorem mem_uses_iff (h : Placement before codexes assigned) (hcover : Covers filed codexes)
    (ha : a ∈ assigned) : rid ∈ a.uses ↔ ∃ f, filed[rid]? = some f ∧ f.owner = a.id := by
  obtain ⟨c, hc, before, hplaced⟩ := h.exists_placed ha
  rw [hplaced.uses_perm.mem_iff, hcover.mem_refs hc, hplaced.id]

theorem eq_of_id (h : Placement before codexes assigned) (hcover : Covers filed codexes)
    {b : Assignment} (ha : a ∈ assigned) (hb : b ∈ assigned) (hid : b.id = a.id) : b = a := by
  have hn : (assigned.map (·.id)).Nodup := by
    rw [h.map_id]
    exact hcover.nodup
  exact List.inj_on_of_nodup_map hn hb ha hid

theorem uses_nodup (hcover : Covers filed codexes)
    (h : Placement before codexes assigned) : (assigned.flatMap uses).Nodup :=
  h.uses_perm.nodup_iff.2 hcover.all_refs_nodup

theorem past_nodup (hcover : Covers filed codexes)
    (h : Placement before codexes assigned) :
    ((assigned.flatMap (·.past.marks)).map (·.ref)).Nodup := by
  rw [List.map_flatMap]
  refine (List.Sublist.flatMap_right assigned fun a ha => ?_).nodup (h.uses_nodup hcover)
  rw [h.map_ref_marks ha]
  exact (List.sublist_append_right _ _).trans (List.sublist_append_left _ _)

end

end Placement

theorem release_markAll (marks : List Past.Mark) (refs : List Reference) :
    (Past.markAll marks refs).map Reference.release = refs.map Reference.release :=
  Past.map_markAll (fun _ _ _ => rfl) marks refs

/-- What a build leaves of a map: all of it if it was not probed, no cursor if some variable has no
root, and otherwise the marks of all pasts. -/
theorem build_cases (m : CodexMap) (requireRoot : Bool) (s : σ) :
    (m.probed = false ∧ m.build requireRoot s = (.error .unprobed, m)) ∨
    (m.probed = true ∧ ∃ e, m.build requireRoot s = (.error e, m.close)) ∨
    (m.probed = true ∧ ∃ assigned, Placement [] m.codexes assigned ∧
      m.build requireRoot s = (.ok assigned, { m with
        references := Past.markAll (assigned.flatMap (·.past.marks)) m.references })) := by
  by_cases hm : m.probed = true
  · rw [CodexMap.build, if_pos hm]
    obtain ⟨e, marks, hrun⟩ | ⟨assigned, hplace, hrun⟩ :=
      foldlM_assign_cases requireRoot s [] m.codexes m.references
    · -- The references that were followed until then are released with all others.
      refine .inr (.inl ⟨hm, e, ?_⟩)
      rw [hrun]
      simp only [CodexMap.close, release_markAll]
    · exact .inr (.inr ⟨hm, assigned, hplace, by rw [hrun]; rfl⟩)
  · rw [CodexMap.build, if_neg hm]
    exact .inl ⟨by simpa using hm, rfl⟩

theorem build_ok {m m' : CodexMap} {assigned : List Assignment}
    (h : m.build requireRoot s = (.ok assigned, m')) :
    m.probed = true ∧ Placement [] m.codexes assigned ∧ m' = { m with
      references := Past.markAll (assigned.flatMap (·.past.marks)) m.references } := by
  obtain ⟨-, hrun⟩ | ⟨-, e, hrun⟩ | ⟨hm, assigned', hplace, hrun⟩ := build_cases m requireRoot s
  · rw [hrun] at h
    cases h
  · rw [hrun] at h
    cases h
  · rw [hrun] at h
    cases h
    exact ⟨hm, hplace, rfl⟩

end TriplePlan.Assignment
