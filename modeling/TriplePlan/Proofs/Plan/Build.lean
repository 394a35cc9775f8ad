import TriplePlan.Proofs.Plan.Placement
import TriplePlan.Proofs.Plan.Root

/-! Assigning the variables in turn: each gets its root, and in its past the double groups of the
variables before it. The first variable without a root ends the run. -/
namespace TriplePlan

open Index

namespace Assignment

theorem mem_pastGroups {assigned : List Assignment} {c : Codex} {y : Var} {rid : RefId} :
    (∃ g ∈ pastGroups assigned c, g.1 = y ∧ rid ∈ g.2.2) ↔
      y ∈ assigned.map (·.id) ∧ rid ∈ c.group (.double y) := by
  have hgroup : rid ∈ c.group (.double y) ↔ ∃ l, (y, l) ∈ c.double.entries ∧ rid ∈ l := by
    simp only [OrderedMap.mem_entries, Codex.group]
    cases c.double.get? y <;> simp
  rw [hgroup, ← positionOf_isSome, Option.isSome_iff_exists]
  constructor
  · intro h
    obtain ⟨g, hg, rfl, hrid⟩ := h
    obtain ⟨hi, hl⟩ := mem_pastGroups_iff.1 hg
    exact ⟨⟨_, hi⟩, _, OrderedMap.mem_entries.2 hl, hrid⟩
  · intro h
    obtain ⟨⟨i, hi⟩, l, hl, hrid⟩ := h
    exact ⟨(y, i, l), mem_pastGroups_iff.2 ⟨hi, OrderedMap.mem_entries.1 hl⟩, rfl, hrid⟩

end Assignment

/-- The assignment of a variable after certain others. -/
structure Resolves (docs : List Document) (es : List (String × Nat × Statement)) (before : List Var)
    (c : Codex) (a : Assignment) : Prop where
  id : a.id = c.id
  constraint : a.constraint = c.constraint
  present : a.present = c.single
  root : IsRoot docs es c.id a.valueRoot
  cursors : ∀ rid, rid ∈ a.past.cursors ↔ ∃ y, rid ∈ a.past.cursorsFor y
  past : ∀ y rid, rid ∈ a.past.cursorsFor y ↔ y ∈ before ∧ rid ∈ c.group (.double y)

section

variable {docs : List Document} {es : List (String × Nat × Statement)} {codexes : List Codex}

open Assignment

theorem assign_eq (h : WordSized docs) (hcover : Covers (es.flatMap filings) codexes) {c : Codex}
    (hc : c ∈ codexes) (requireRoot : Bool) (assigned : List Assignment) {refs : List Reference}
    (hrefs : Cores (es.flatMap filings) refs) :
    (Rootless docs es requireRoot c.id ∧
      assign requireRoot (Store.ofDocuments docs) assigned c refs =
        (.error (.emptyValueRoot c.id), refs)) ∨
    (¬ Rootless docs es requireRoot c.id ∧ ∃ a, Resolves docs es (assigned.map (·.id)) c a ∧
      assign requireRoot (Store.ofDocuments docs) assigned c refs =
        (.ok (assigned ++ [a]), Past.markAll a.past.marks refs)) := by
  have hroots := valueRootOf_eq h hcover hc hrefs requireRoot
  obtain ⟨e, herr, hrun⟩ | ⟨a, hplaced, hroot, hpast, hrun⟩ :=
    assign_cases requireRoot (Store.ofDocuments docs) assigned c refs
  · rw [herr] at hroots
    obtain ⟨hless, heq⟩ | ⟨-, _, -, heq⟩ := hroots
    · cases heq
      exact .inl ⟨hless, hrun⟩
    · cases heq
  · rw [hroot] at hroots
    obtain ⟨-, heq⟩ | ⟨hnot, root, hisroot, heq⟩ := hroots
    · cases heq
    · have hn := nodup_pastGroups assigned c
      refine .inr ⟨hnot, a, ⟨hplaced.id, hplaced.constraint, hplaced.present,
        (Except.ok.inj heq).symm ▸ hisroot, ?_, ?_⟩, hrun⟩
      · rw [hpast]
        exact fun rid => Past.mem_cursors_gathered hn
      · rw [hpast]
        exact fun y rid => (Past.mem_cursorsFor_gathered hn).trans mem_pastGroups

variable {filed : List Filing} {c : Codex} {assigned : List Assignment} {refs : List Reference}

theorem Attached.mark (h : Attached filed refs) (marks : List Past.Mark) :
    Attached filed (Past.markAll marks refs) := by
  refine ⟨(Past.core_markAll _ refs).trans h.cores, ?_⟩
  intro rid f hf hs
  obtain ⟨r, hr, hcursor⟩ := h.cursors rid f hf hs
  have hkeep := congrArg (·[rid]?)
    (Past.map_markAll (g := fun r => r.cursor.isSome) (fun _ _ _ => Option.isSome_map)
      marks refs)
  simp only [List.getElem?_map, hr, Option.map_some, hcursor] at hkeep
  exact Option.map_eq_some_iff.1 hkeep

def Tracks (refs : List Reference) (assigned : List Assignment) : Prop :=
  ∀ a ∈ assigned, ∀ y, ∀ rid ∈ a.past.cursorsFor y, ∃ r : Reference,
    refs[rid]? = some r ∧ r.followed? = some y

/-- The assignments of codexes in their order. -/
structure Built (docs : List Document) (es : List (String × Nat × Statement)) (codexes : List Codex)
    (assigned : List Assignment) : Prop where
  length : assigned.length = codexes.length
  resolves : ∀ i c a, codexes[i]? = some c → assigned[i]? = some a →
    Resolves docs es ((codexes.take i).map (·.id)) c a

namespace Built

variable {assigned : List Assignment}

theorem exists_codex (h : Built docs es codexes assigned) {i : Nat} {a : Assignment}
    (ha : assigned[i]? = some a) :
    ∃ c, codexes[i]? = some c ∧ Resolves docs es ((codexes.take i).map (·.id)) c a := by
  have hlt : i < codexes.length := by
    rw [← h.length]
    exact (List.getElem?_eq_some_iff.1 ha).1
  have hc := List.getElem?_eq_getElem hlt
  exact ⟨_, hc, h.resolves i _ a hc ha⟩

theorem exists_assigned (h : Built docs es codexes assigned) {i : Nat} {c : Codex}
    (hc : codexes[i]? = some c) :
    ∃ a, assigned[i]? = some a ∧ Resolves docs es ((codexes.take i).map (·.id)) c a := by
  have hlt : i < assigned.length := by
    rw [h.length]
    exact (List.getElem?_eq_some_iff.1 hc).1
  have ha := List.getElem?_eq_getElem hlt
  exact ⟨_, ha, h.resolves i c _ hc ha⟩

theorem map_id (h : Built docs es codexes assigned) : assigned.map (·.id) = codexes.map (·.id) := by
  refine List.ext_getElem (by simp [h.length]) ?_
  intro i ha hc
  rw [List.length_map] at ha hc
  rw [List.getElem_map, List.getElem_map]
  exact (h.resolves i _ _ (List.getElem?_eq_getElem hc) (List.getElem?_eq_getElem ha)).id

theorem snoc (h : Built docs es codexes assigned) {c : Codex} {a : Assignment}
    (ha : Resolves docs es (assigned.map (·.id)) c a) :
    Built docs es (codexes ++ [c]) (assigned ++ [a]) := by
  refine ⟨by simp [h.length], ?_⟩
  intro i c' a' hc' ha'
  by_cases hi : i < codexes.length
  · rw [List.getElem?_append_left hi] at hc'
    rw [List.getElem?_append_left (by rw [h.length]; exact hi)] at ha'
    rw [List.take_append_of_le_length hi.le]
    exact h.resolves i c' a' hc' ha'
  · have hle : codexes.length ≤ i := by omega
    have hi : i = codexes.length := by
      have := (List.getElem?_eq_some_iff.1 hc').1
      simp at this
      omega
    subst hi
    rw [← h.length] at ha'
    simp only [List.getElem?_concat_length, Option.some.injEq] at hc' ha'
    subst hc' ha'
    rw [List.take_left, ← h.map_id]
    exact ha

end Built

/-- No past shares a reference with another one, so each mark stays as it was made. -/
theorem tracks_markAll (hcover : Covers filed codexes) (h : Placement [] codexes assigned)
    (hrefs : Attached filed refs) :
    Tracks (Past.markAll (assigned.flatMap (·.past.marks)) refs) assigned := by
  intro a ha y rid hrid
  obtain ⟨offset, hlookup⟩ := Past.mem_cursorsFor_iff.1 hrid
  have hmark : (⟨y, offset, rid⟩ : Past.Mark) ∈ assigned.flatMap (·.past.marks) :=
    List.mem_flatMap.2 ⟨a, ha, (h.mem_marks ha).2 hlookup⟩
  obtain ⟨f, hf, -, hs⟩ :=
    mem_places.1 (List.mem_of_getElem? (h.getElem?_places hcover ha hlookup))
  obtain ⟨r, hr, hcursor⟩ := hrefs.cursors rid f hf (by simp [hs])
  obtain ⟨cursor, hcursor⟩ := Option.isSome_iff_exists.1 hcursor
  refine ⟨Past.mark y offset r, ?_, ?_⟩
  · rw [Past.getElem?_markAll (h.past_nodup hcover) hmark, hr]
    rfl
  · rw [Reference.followed?, Past.mark, hcursor]
    rfl

/-- The run ends at the first variable without a root, or assigns every one. -/
theorem foldlM_assign (h : WordSized docs) (hcover : Covers (es.flatMap filings) codexes)
    (requireRoot : Bool) {done rest : List Codex} (hsplit : done ++ rest = codexes)
    (hbuilt : Built docs es done assigned) (hrefs : Attached (es.flatMap filings) refs) :
    (∃ c ∈ rest, ∃ refs', Rootless docs es requireRoot c.id ∧
      rest.foldlM (assign requireRoot (Store.ofDocuments docs)) assigned refs =
        (.error (.emptyValueRoot c.id), refs')) ∨
    ((∀ c ∈ rest, ¬ Rootless docs es requireRoot c.id) ∧ ∃ assigned' refs',
      rest.foldlM (assign requireRoot (Store.ofDocuments docs)) assigned refs =
        (.ok assigned', refs') ∧
      Built docs es codexes assigned' ∧ Attached (es.flatMap filings) refs') := by
  induction rest generalizing done assigned refs with
  | nil =>
    rw [List.append_nil] at hsplit
    exact .inr ⟨by simp, assigned, refs, rfl, hsplit ▸ hbuilt, hrefs⟩
  | cons c rest ih =>
    have hc : c ∈ codexes := hsplit ▸ List.mem_append_right _ List.mem_cons_self
    rw [List.foldlM_cons]
    obtain ⟨hless, herr⟩ | ⟨hroot, a, ha, hok⟩ :=
      assign_eq h hcover hc requireRoot assigned hrefs.cores
    · exact .inl ⟨c, List.mem_cons_self, refs, hless, Action.bind_error herr⟩
    · rw [Action.bind_ok hok]
      obtain ⟨c', hc', refs', hless, herr⟩ | ⟨hroots, assigned', refs', hrun, hfinal⟩ :=
        ih (by simpa using hsplit) (hbuilt.snoc ha) (hrefs.mark a.past.marks)
      · exact .inl ⟨c', List.mem_cons_of_mem _ hc', refs', hless, herr⟩
      · exact .inr ⟨by simpa [hroot] using hroots, assigned', refs', hrun, hfinal⟩

end

end TriplePlan
