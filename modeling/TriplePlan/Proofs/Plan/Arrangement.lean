import TriplePlan.Proofs.Dataset
import TriplePlan.Proofs.Plan.Links
import TriplePlan.Proofs.Plan.Outcome

/-! How a plan arranges the references of its pattern, whatever store it was compiled on: every
reference is used once, and a statement with two variables is resolved by the later one. -/
namespace TriplePlan

open Assignment Classified Index

section

variable {σ : Type} [Readable σ] {s : σ}

theorem compile_ok {config : CompileConfig} {pattern : Dataset} {plan : Plan}
    (h : compile config pattern s = .ok plan) : ∃ c m assigned m', classify pattern = .ok c ∧
      c.codexMap.probe s = (.ok (), m) ∧
      (m.sort config.order).build config.requireValueRoot s = (.ok assigned, m') ∧
      plan = ⟨assigned, m'.references, c.constants⟩ := by
  have hclassified := h
  rw [compile] at hclassified
  obtain ⟨c, hc, -⟩ := bind_eq_ok_iff.1 hclassified
  have hplan : planOf config s c = .ok plan := by
    rw [compile_eq config pattern s hc] at h
    split at h
    · split at h
      · cases h
      · exact h
    · exact h
  rw [planOf] at hplan
  split at hplan
  · cases hplan
  · rename_i m hprobe
    split at hplan
    · cases hplan
    · rename_i assigned m' hbuild
      cases hplan
      exact ⟨c, m, assigned, m', hc, hprobe, hbuild, rfl⟩

/-- A plan with the classified pattern behind it: the codexes in the order of the plan, their
references as they were classified, and the numbers that were read for them. -/
structure Compiled (s : σ) (es : List (String × Nat × Statement)) (codexes : List Codex)
    (refs : List Reference) (count : RefId → Nat) (plan : Plan) : Prop where
  closed : ∀ e ∈ es, ¬ e.2.2.IsOpen
  covers : Covers (es.flatMap filings) codexes
  cores : Cores (es.flatMap filings) refs
  aligned : Aligned es refs
  counts : ∀ rid f, (es.flatMap filings)[rid]? = some f → f.shape ≠ .constraint →
    count rid ≠ 0 ∧ ∃ key, f.reference.countKey? = some key ∧ readCount s key = .ok (count rid)
  placement : Placement [] codexes plan.assignments
  references : ∃ probed, (∀ j : RefId, probed[j]? = refs[j]?.map (Reference.withCount (count j))) ∧
    plan.references = Past.markAll (plan.assignments.flatMap (·.past.marks)) probed

theorem exists_compiled {config : CompileConfig} {pattern : Dataset} {plan : Plan}
    (h : compile config pattern s = .ok plan) :
    ∃ codexes refs count, Compiled s pattern.toList codexes refs count plan := by
  obtain ⟨c, m, assigned, m', hc, hprobe, hbuild, rfl⟩ := compile_ok h
  obtain ⟨hclosed, hd, haligned⟩ := classify_ok hc
  obtain ⟨count, hcounts, hcodexes, -, hrefs⟩ := hd.waiting.probe_ok hprobe
  obtain ⟨-, hplace, rfl⟩ := build_ok hbuild
  have hcovers : Covers (pattern.toList.flatMap filings) (m.sort config.order).codexes := by
    apply Covers.perm _ (m.codexes_sort_perm config.order)
    rw [hcodexes]
    exact hd.filed.codexes.covers.counted count
  exact ⟨_, c.codexMap.references, count, hclosed, hcovers, hd.filed.references, haligned, hcounts,
    hplace, m.references, hrefs, rfl⟩

namespace Compiled

variable {es : List (String × Nat × Statement)} {codexes : List Codex} {refs : List Reference}
  {count : RefId → Nat} {plan : Plan} {a : Assignment} {rid : RefId}

theorem order_eq (h : Compiled s es codexes refs count plan) :
    plan.order = codexes.map (·.id) :=
  h.placement.map_id

theorem order_nodup (h : Compiled s es codexes refs count plan) : plan.order.Nodup :=
  h.order_eq ▸ h.covers.nodup

theorem mem_order (h : Compiled s es codexes refs count plan) {v : Var} :
    v ∈ plan.order ↔ v ∈ es.flatMap (·.2.2.vars) := by
  rw [h.order_eq, h.covers.mem_ids, mem_all_owners_iff h.closed]

theorem position_eq_some_iff (h : Compiled s es codexes refs count plan) {v : Var} {i : Nat} :
    plan.position? v = some i ↔ plan.order[i]? = some v :=
  positionOf_eq_some_iff h.order_nodup

theorem exists_assignment (h : Compiled s es codexes refs count plan) {v : Var} {i : Nat}
    (hi : plan.position? v = some i) : ∃ a c, plan.assignment? v = some a ∧
      a ∈ plan.assignments ∧ c ∈ codexes ∧ c.id = v ∧ Placed (plan.assignments.take i) c a := by
  have hid := h.position_eq_some_iff.1 hi
  rw [Plan.order, List.getElem?_map, Option.map_eq_some_iff] at hid
  obtain ⟨a, ha, rfl⟩ := hid
  obtain ⟨c, hc, hplaced⟩ := h.placement.get ha
  refine ⟨a, c, ?_, List.mem_of_getElem? ha, List.mem_of_getElem? hc, hplaced.id.symm, hplaced⟩
  rw [Plan.assignment?, hi, Option.bind_some, ha]

theorem positionOf_take_iff (h : Compiled s es codexes refs count plan) {v : Var} {i j : Nat} :
    positionOf (plan.assignments.take j) v = some i ↔ i < j ∧ plan.order[i]? = some v := by
  have hbefore : ((plan.assignments.take j).map (·.id)).Nodup := by
    rw [List.map_take]
    exact (List.take_sublist _ _).nodup h.order_nodup
  rw [positionOf_eq_some_iff hbefore, List.map_take, List.getElem?_take]
  by_cases hij : i < j <;> simp [hij, Plan.order]

theorem mem_take_iff (h : Compiled s es codexes refs count plan) {v : Var} {i j : Nat}
    (hi : plan.position? v = some i) :
    v ∈ (plan.assignments.take j).map (·.id) ↔ i < j := by
  have hv := h.position_eq_some_iff.1 hi
  rw [← positionOf_isSome, Option.isSome_iff_exists]
  constructor
  · intro hsome
    obtain ⟨k, hk⟩ := hsome
    obtain ⟨hkj, hkv⟩ := h.positionOf_take_iff.1 hk
    rw [h.position_eq_some_iff.2 hkv] at hi
    cases hi
    exact hkj
  · intro hij
    exact ⟨i, h.positionOf_take_iff.2 ⟨hij, hv⟩⟩

theorem cores_plan (h : Compiled s es codexes refs count plan) :
    Cores (es.flatMap filings) plan.references := by
  obtain ⟨probed, hprobed, hrefs⟩ := h.references
  have hkeep : probed.map Reference.core = refs.map Reference.core := by
    apply List.ext_getElem?
    intro j
    rw [List.getElem?_map, List.getElem?_map, hprobed, Option.map_map]
    rfl
  rw [Cores, hrefs, Past.core_markAll, hkeep]
  exact h.cores

theorem length_references (h : Compiled s es codexes refs count plan) :
    plan.references.length = (es.flatMap filings).length :=
  h.cores_plan.length_eq

theorem uses_perm (h : Compiled s es codexes refs count plan) :
    (plan.assignments.flatMap uses).Perm (List.range plan.references.length) := by
  rw [h.length_references]
  exact h.placement.uses_perm.trans h.covers.all_refs_perm

theorem not_mem_pasts (h : Compiled s es codexes refs count plan) (ha : a ∈ plan.assignments)
    (hrid : rid ∈ a.constraint ++ a.present ++ a.future.values.flatten) :
    rid ∉ (plan.assignments.flatMap (·.past.marks)).map (·.ref) := by
  have hsplit : (plan.assignments.flatMap uses).Perm
      (plan.assignments.flatMap (fun a => a.constraint ++ a.present ++ a.future.values.flatten) ++
        plan.assignments.flatMap (·.past.cursors)) := by
    refine .trans ?_ (List.flatMap_append_perm _ _ _).symm
    refine List.Perm.flatMap_left _ fun a _ => ?_
    rw [uses, List.append_assoc, List.append_assoc _ a.future.values.flatten]
    exact List.perm_append_comm.append_left _
  have hn := hsplit.nodup_iff.1 (h.placement.uses_nodup h.covers)
  intro hmem
  obtain ⟨e, he, rfl⟩ := List.mem_map.1 hmem
  obtain ⟨b, hb, he⟩ := List.mem_flatMap.1 he
  have hpast : e.ref ∈ b.past.cursors := h.placement.map_ref_marks hb ▸ List.mem_map_of_mem he
  exact (List.nodup_append.1 hn).2.2 e.ref (List.mem_flatMap.2 ⟨a, ha, hrid⟩) e.ref
    (List.mem_flatMap.2 ⟨b, hb, hpast⟩) rfl

theorem getElem?_of_not_mem (h : Compiled s es codexes refs count plan)
    (hrid : rid ∉ (plan.assignments.flatMap (·.past.marks)).map (·.ref)) :
    plan.references[rid]? = refs[rid]?.map (Reference.withCount (count rid)) := by
  obtain ⟨probed, hprobed, hrefs⟩ := h.references
  rw [hrefs, Past.getElem?_markAll_of_not_mem hrid, hprobed]

theorem getElem?_of_mem_past (h : Compiled s es codexes refs count plan)
    (ha : a ∈ plan.assignments) {e : Past.Mark} (he : e ∈ a.past.marks) :
    plan.references[e.ref]? =
      refs[e.ref]?.map fun r => Past.mark e.dep e.offset (r.withCount (count e.ref)) := by
  obtain ⟨probed, hprobed, hrefs⟩ := h.references
  rw [hrefs, Past.getElem?_markAll (h.placement.past_nodup h.covers)
    (List.mem_flatMap.2 ⟨a, ha, he⟩), hprobed, Option.map_map]
  rfl

theorem cursor_of_mem_constraint (h : Compiled s es codexes refs count plan)
    (ha : a ∈ plan.assignments) (hrid : rid ∈ a.constraint) :
    ∃ r, plan.references[rid]? = some r ∧ r.cursor = none := by
  obtain ⟨c, hc, before, hplaced⟩ := h.placement.exists_placed ha
  have hgroup : rid ∈ c.group .constraint := by
    rw [hplaced.constraint] at hrid
    exact hrid
  obtain ⟨f, hf, -, hs⟩ := (h.covers.mem_group hc _).1 hgroup
  obtain ⟨r, hr, hcore⟩ := h.cores.get hf
  have hnone : f.reference.countKey? = none := by
    obtain ⟨e, -, hfe⟩ := exists_statement hf
    have hiff := (files_of_mem hfe).countKey_isSome_iff
    simpa [hs] using hiff
  have hrest : rid ∈ a.constraint ++ a.present ++ a.future.values.flatten := by simp [hrid]
  refine ⟨r.withCount (count rid), ?_, ?_⟩
  · rw [h.getElem?_of_not_mem (h.not_mem_pasts ha hrest), hr]
    rfl
  · have hkey : r.countKey? = none := by
      rw [← hnone, ← hcore]
      rfl
    rw [Reference.withCount, hkey]
    rfl

theorem exists_attached (h : Compiled s es codexes refs count plan) (ha : a ∈ plan.assignments)
    (hrid : rid ∈ a.present ++ a.past.cursors ++ a.future.values.flatten) :
    ∃ r key, refs[rid]? = some r ∧ r.countKey? = some key ∧ readCount s key = .ok (count rid) ∧
      count rid ≠ 0 ∧
      r.withCount (count rid) = { r with cursor := some (.probed key (count rid)) } := by
  obtain ⟨c, hc, before, hplaced⟩ := h.placement.exists_placed ha
  obtain ⟨f, hf, -, hs⟩ := (h.covers.mem_probedRefs hc).1 (hplaced.probed_perm.mem_iff.1 hrid)
  obtain ⟨r, hr, hcore⟩ := h.cores.get hf
  obtain ⟨hcount, key, hkey, hread⟩ := h.counts rid f hf hs
  have hrkey : r.countKey? = some key := by
    rw [← hkey, ← hcore]
    rfl
  exact ⟨r, key, hr, hrkey, hread, hcount, by rw [Reference.withCount, hrkey]; rfl⟩

theorem reference_of_waiting (h : Compiled s es codexes refs count plan)
    (ha : a ∈ plan.assignments) (hrid : rid ∈ a.present ++ a.future.values.flatten) :
    ∃ r key, refs[rid]? = some r ∧ r.countKey? = some key ∧ readCount s key = .ok (count rid) ∧
      count rid ≠ 0 ∧
      plan.references[rid]? = some { r with cursor := some (.probed key (count rid)) } := by
  have hprobed : rid ∈ a.present ++ a.past.cursors ++ a.future.values.flatten := by
    cases List.mem_append.1 hrid with
    | inl hrid => simp [hrid]
    | inr hrid => exact List.mem_append_right _ hrid
  have hrest : rid ∈ a.constraint ++ a.present ++ a.future.values.flatten := by
    rw [List.append_assoc]
    exact List.mem_append_right _ hrid
  obtain ⟨r, key, hr, hkey, hread, hcount, hattach⟩ := h.exists_attached ha hprobed
  refine ⟨r, key, hr, hkey, hread, hcount, ?_⟩
  rw [h.getElem?_of_not_mem (h.not_mem_pasts ha hrest), hr, Option.map_some, hattach]

theorem reference_of_past (h : Compiled s es codexes refs count plan)
    (ha : a ∈ plan.assignments) {e : Past.Mark} (he : e ∈ a.past.marks) :
    ∃ r key, refs[e.ref]? = some r ∧ r.countKey? = some key ∧
      readCount s key = .ok (count e.ref) ∧ count e.ref ≠ 0 ∧ plan.references[e.ref]? =
        some { r with cursor := some ⟨count e.ref, some e.dep, e.offset, key⟩ } := by
  have hpast : e.ref ∈ a.past.cursors := h.placement.map_ref_marks ha ▸ List.mem_map_of_mem he
  have hprobed : e.ref ∈ a.present ++ a.past.cursors ++ a.future.values.flatten :=
    List.mem_append_left _ (List.mem_append_right _ hpast)
  obtain ⟨r, key, hr, hkey, hread, hcount, hattach⟩ := h.exists_attached ha hprobed
  refine ⟨r, key, hr, hkey, hread, hcount, ?_⟩
  rw [h.getElem?_of_mem_past ha he, hr, Option.map_some, hattach]
  rfl

theorem exists_early (h : Compiled s es codexes refs count plan) {x y : Var} {i j offset : Nat}
    (hi : plan.position? x = some i) (hj : plan.position? y = some j) (hij : i < j)
    (hrid : (places (es.flatMap filings) x (.double y))[offset]? = some rid) :
    ∃ a, plan.assignment? x = some a ∧ (a.future.get? y).bind (·[offset]?) = some rid ∧
      ∃ r key, refs[rid]? = some r ∧
        plan.references[rid]? = some { r with cursor := some (.probed key (count rid)) } := by
  obtain ⟨a, c, hassignment, ha, hc, rfl, hplaced⟩ := h.exists_assignment hi
  have hlater : y ∉ (plan.assignments.take i).map (·.id) := by
    rw [h.mem_take_iff hj]
    omega
  have hfuture : (a.future.get? y).bind (·[offset]?) = some rid := by
    rw [hplaced.future_eq_some_iff, h.covers.group c hc]
    exact ⟨hlater, hrid⟩
  obtain ⟨l, hl, hget⟩ := Option.bind_eq_some_iff.1 hfuture
  have hmem : rid ∈ a.future.values.flatten :=
    List.mem_flatten.2 ⟨l, List.mem_map.2 ⟨_, OrderedMap.mem_entries.2 hl, rfl⟩,
      List.mem_of_getElem? hget⟩
  obtain ⟨r, key, hr, -, -, -, hplan⟩ := h.reference_of_waiting ha (List.mem_append_right _ hmem)
  exact ⟨a, hassignment, hfuture, r, key, hr, hplan⟩

theorem lookup_iff (h : Compiled s es codexes refs count plan) {x y : Var} {i j offset : Nat}
    (hi : plan.position? x = some i) (hj : plan.position? y = some j) (hij : i < j)
    {b : Assignment} (hb : plan.assignment? y = some b) : b.past.lookup x offset = some rid ↔
      (places (es.flatMap filings) y (.double x))[offset]? = some rid := by
  obtain ⟨b', d, hassignment, -, hd, rfl, hplaced⟩ := h.exists_assignment hj
  rw [hb] at hassignment
  cases hassignment
  rw [hplaced.lookup_eq_some_iff, h.covers.group d hd]
  exact and_iff_right ((h.mem_take_iff hi).2 hij)

theorem exists_late (h : Compiled s es codexes refs count plan) {x y : Var} {i j offset : Nat}
    (hi : plan.position? x = some i) (hj : plan.position? y = some j) (hij : i < j)
    (hrid : (places (es.flatMap filings) y (.double x))[offset]? = some rid) :
    ∃ b, plan.assignment? y = some b ∧ b.past.lookup x offset = some rid ∧
      ∃ r key, refs[rid]? = some r ∧ plan.references[rid]? =
        some { r with cursor := some ⟨count rid, some x, offset, key⟩ } := by
  obtain ⟨b, d, hassignment, hb, hd, rfl, hplaced⟩ := h.exists_assignment hj
  have hlookup := (h.lookup_iff hi hj hij hassignment).2 hrid
  have hmark : (⟨x, offset, rid⟩ : Past.Mark) ∈ b.past.marks := hplaced.mem_marks.2 hlookup
  obtain ⟨r, key, hr, -, -, -, hplan⟩ := h.reference_of_past hb hmark
  exact ⟨b, hassignment, hlookup, r, key, hr, hplan⟩

end Compiled

end

/-- The two references of a statement, of which that of `x` waits in the future of `x`, and that of
`y` follows `x` in the past of `y`, each at the same place. -/
structure Plan.Splits (plan : Plan) (e : String × Nat × Statement) (p q : Position) (x y : Var)
    (offset : Nat) (early late : RefId) : Prop where
  future : ∃ a, plan.assignment? x = some a ∧ (a.future.get? y).bind (·[offset]?) = some early
  past : ∃ b, plan.assignment? y = some b ∧ b.past.lookup x offset = some late
  early_half : ∃ r c, plan.references[early]? = some r ∧ r.core = rotated e.1 e.2.1 e.2.2 p ∧
    r.dual = some late ∧ r.cursor = some c ∧ c.follows = none
  late_half : ∃ r c, plan.references[late]? = some r ∧ r.core = rotated e.1 e.2.1 e.2.2 q ∧
    r.dual = some early ∧ r.cursor = some c ∧ c.follows = some x ∧ c.offset = offset

section

variable {σ : Type} [Readable σ] {s : σ} {es : List (String × Nat × Statement)}
  {codexes : List Codex} {refs : List Reference} {count : RefId → Nat} {plan : Plan}
  {e : String × Nat × Statement} {p q : Position} {x y : Var} {i j : Nat}

theorem Compiled.exists_splits (h : Compiled s es codexes refs count plan) (he : e ∈ es)
    (hxy : x ≠ y) (hp : e.2.2.get p = .var x) (hq : e.2.2.get q = .var y)
    (hi : plan.position? x = some i) (hj : plan.position? y = some j) (hij : i < j) :
    ∃ offset early late, plan.Splits e p q x y offset early late := by
  have hfilings := fun f => mem_filings_iff (f := f) (h.closed e he) hxy hp hq
  have hmem := (hfilings _).2 (.inl rfl)
  obtain ⟨early, hearly⟩ := exists_place he hmem
  obtain ⟨offset, hoffset⟩ := List.mem_iff_getElem?.1 (mem_places.2 ⟨_, hearly, rfl, rfl⟩)
  -- The other half stands at the same place, and is made of the same statement.
  obtain ⟨late, hoffset', e', -, f, hf, g, hg, hfget, hgget, hdual, hdual'⟩ :=
    h.aligned.get hxy hoffset
  rw [hearly] at hfget
  cases hfget
  obtain rfl := (files_of_mem hf).inj (files_of_mem hmem)
  have hg : g = ⟨y, .double x, rotated e'.1 e'.2.1 e'.2.2 q⟩ := by
    obtain ⟨g', hg', howner, -⟩ := mem_places.1 (List.mem_of_getElem? hoffset')
    rw [hgget] at hg'
    cases hg'
    cases (hfilings g).1 hg with
    | inl hg => exact absurd (by rw [← howner, hg]) hxy
    | inr hg => exact hg
  subst hg
  obtain ⟨a, ha, hfuture, r, key, hr, hplan⟩ := h.exists_early hi hj hij hoffset
  obtain ⟨b, hb, hpast, r', key', hr', hplan'⟩ := h.exists_late hi hj hij hoffset'
  rw [hr] at hdual
  rw [hr'] at hdual'
  exact ⟨offset, early, late, ⟨a, ha, hfuture⟩, ⟨b, hb, hpast⟩,
    ⟨_, _, hplan, h.cores_plan.core_eq hearly hplan, hdual, rfl, rfl⟩,
    ⟨_, _, hplan', h.cores_plan.core_eq hgget hplan', hdual', rfl, rfl, rfl⟩⟩

theorem Compiled.offset_unique (h : Compiled s es codexes refs count plan) (hn : es.Nodup)
    (hi : plan.position? x = some i) (hj : plan.position? y = some j) (hij : i < j)
    {offset offset' : Nat} {early early' late late' : RefId}
    (hsplit : plan.Splits e p q x y offset early late)
    (hsplit' : plan.Splits e p q x y offset' early' late') : offset = offset' := by
  have hfiling : ∀ {offset early late}, plan.Splits e p q x y offset early late →
      (places (es.flatMap filings) y (.double x))[offset]? = some late ∧
        (es.flatMap filings)[late]? = some ⟨y, .double x, rotated e.1 e.2.1 e.2.2 q⟩ := by
    intro offset early late hsplit
    obtain ⟨b, hb, hlookup⟩ := hsplit.past
    have hplace := (h.lookup_iff hi hj hij hb).1 hlookup
    obtain ⟨⟨owner, shape, reference⟩, hf, rfl, rfl⟩ :=
      mem_places.1 (List.mem_of_getElem? hplace)
    obtain ⟨r, c, hr, hcore, -⟩ := hsplit.late_half
    have hreference := h.cores_plan.core_eq hf hr
    rw [hcore] at hreference
    cases hreference
    exact ⟨hplace, hf⟩
  obtain ⟨hplace, hlate⟩ := hfiling hsplit
  obtain ⟨hplace', hlate'⟩ := hfiling hsplit'
  have heq : late = late' := by
    refine (List.getElem?_inj ?_ (nodup_flatMap_filings hn)).1 (hlate.trans hlate'.symm)
    exact (List.getElem?_eq_some_iff.1 hlate).1
  subst heq
  exact (places_unique hplace hplace').2.2

/-- The order of a plan has every variable of the pattern once, and its positions are the places
there. Every reference is used once, and a statement with two variables is split between them. A
cursor follows a variable in the pasts only, and has the number that the store counts, which is
not zero. -/
structure Plan.Arranged (plan : Plan) (s : σ) (pattern : Dataset) : Prop where
  order_nodup : plan.order.Nodup
  mem_order : ∀ v, v ∈ plan.order ↔ ∃ e ∈ pattern.toList, v ∈ e.2.2.vars
  position : ∀ v i, plan.position? v = some i ↔ plan.order[i]? = some v
  uses : (plan.assignments.flatMap Assignment.uses).Perm (List.range plan.references.length)
  halves : ∀ e ∈ pattern.toList, ∀ p q x y, x ≠ y → e.2.2.get p = .var x → e.2.2.get q = .var y →
    ∀ i j, plan.position? x = some i → plan.position? y = some j → i < j →
      ∃! offset, ∃ early late, plan.Splits e p q x y offset early late
  constraints : ∀ a ∈ plan.assignments, ∀ rid ∈ a.constraint,
    ∃ r, plan.references[rid]? = some r ∧ r.cursor = none
  waiting : ∀ a ∈ plan.assignments, ∀ rid ∈ a.present ++ a.future.values.flatten,
    ∃ r c, plan.references[rid]? = some r ∧ r.cursor = some c ∧ c.follows = none
  counted : ∀ a ∈ plan.assignments,
    ∀ rid ∈ a.present ++ a.past.cursors ++ a.future.values.flatten,
      ∃ r c, plan.references[rid]? = some r ∧ r.cursor = some c ∧ 1 ≤ c.count ∧
        r.countKey? = some c.key ∧ readCount s c.key = .ok c.count

theorem Compiled.exists_cursor (h : Compiled s es codexes refs count plan) {a : Assignment}
    (ha : a ∈ plan.assignments) {rid : RefId}
    (hrid : rid ∈ a.present ++ a.past.cursors ++ a.future.values.flatten) :
    ∃ r c, plan.references[rid]? = some r ∧ r.cursor = some c ∧ 1 ≤ c.count ∧
      r.countKey? = some c.key ∧ readCount s c.key = .ok c.count := by
  by_cases hpast : rid ∈ a.past.cursors
  · rw [← h.placement.map_ref_marks ha] at hpast
    obtain ⟨e, he, rfl⟩ := List.mem_map.1 hpast
    obtain ⟨r, key, -, hkey, hread, hcount, hplan⟩ := h.reference_of_past ha he
    exact ⟨_, _, hplan, rfl, Nat.one_le_iff_ne_zero.2 hcount, hkey, hread⟩
  · have hwaiting : rid ∈ a.present ++ a.future.values.flatten := by
      simpa [hpast] using hrid
    obtain ⟨r, key, -, hkey, hread, hcount, hplan⟩ := h.reference_of_waiting ha hwaiting
    exact ⟨_, _, hplan, rfl, Nat.one_le_iff_ne_zero.2 hcount, hkey, hread⟩

/-- Whatever store it is compiled on, a plan arranges the references of its pattern. -/
theorem compile_arranged (config : CompileConfig) (pattern : Dataset) (s : σ) (plan : Plan)
    (hplan : compile config pattern s = .ok plan) : plan.Arranged s pattern := by
  obtain ⟨codexes, refs, count, h⟩ := exists_compiled hplan
  refine ⟨h.order_nodup, ?_, fun v i => h.position_eq_some_iff, h.uses_perm, ?_, ?_, ?_, ?_⟩
  · intro v
    rw [h.mem_order, List.mem_flatMap]
  · intro e he p q x y hxy hp hq i j hi hj hij
    obtain ⟨offset, hsplit⟩ := h.exists_splits he hxy hp hq hi hj hij
    refine ⟨offset, hsplit, ?_⟩
    intro offset' hsplit'
    obtain ⟨early, late, hsplit⟩ := hsplit
    obtain ⟨early', late', hsplit'⟩ := hsplit'
    exact h.offset_unique pattern.nodup_toList hi hj hij hsplit' hsplit
  · intro a ha rid hrid
    exact h.cursor_of_mem_constraint ha hrid
  · intro a ha rid hrid
    obtain ⟨r, key, -, -, -, -, hplan⟩ := h.reference_of_waiting ha hrid
    exact ⟨_, _, hplan, rfl, rfl⟩
  · intro a ha rid hrid
    exact h.exists_cursor ha hrid

end

def parallelPattern : Dataset := .ofStatements
  [⟨.var ⟨"x"⟩, .node (.iri "p"), .var ⟨"y"⟩⟩, ⟨.var ⟨"y"⟩, .node (.iri "q"), .var ⟨"x"⟩⟩,
    ⟨.var ⟨"x"⟩, .node (.iri "q"), .var ⟨"y"⟩⟩]

def cycleDocument : Document := ⟨"d", .ofStatements
  [⟨.node (.iri "a"), .node (.iri "p"), .node (.iri "b")⟩,
    ⟨.node (.iri "b"), .node (.iri "q"), .node (.iri "a")⟩]⟩

theorem compile_arranged_parallel :
    ∃ plan, compile {} parallelPattern (Store.ofDocuments [cycleDocument]) = .ok plan ∧
      plan.order = [⟨"x"⟩, ⟨"y"⟩] ∧
      plan.Arranged (Store.ofDocuments [cycleDocument]) parallelPattern := by
  have horder : (compile {} parallelPattern (Store.ofDocuments [cycleDocument])).map Plan.order =
      .ok [⟨"x"⟩, ⟨"y"⟩] := by
    decide +kernel
  cases hplan : compile {} parallelPattern (Store.ofDocuments [cycleDocument]) with
  | error e =>
    rw [hplan] at horder
    cases horder
  | ok plan =>
    rw [hplan] at horder
    exact ⟨plan, rfl, Except.ok.inj horder, compile_arranged {} parallelPattern _ plan hplan⟩

end TriplePlan
