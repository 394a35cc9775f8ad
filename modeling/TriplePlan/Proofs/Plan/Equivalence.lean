import TriplePlan.Plan.Explain
import TriplePlan.Proofs.Plan.Outcome

/-! A plan asks of the values of its variables exactly what the pattern asks: ground statements,
roots, constraints and pasts together hold for those values that make every statement a stored
triple. -/
namespace TriplePlan

open Index

/-- What a plan asks of the values of its variables: that the ground statements are stored, that
every value is in the root of its variable, that repeated variables stand beside their constant,
and that what a past follows leads to a stored triple. -/
structure Plan.Holds (docs : List Document) (pattern : Dataset) (plan : Plan) (σ : Var → Node) :
    Prop where
  constants : plan.missingConstant pattern (Store.ofDocuments docs) = .ok none
  roots : ∀ a ∈ plan.assignments, ∀ root, a.valueRoot = some root → σ a.id ∈ root
  constraints : ∀ a ∈ plan.assignments, ∀ rid ∈ a.constraint, ∃ r q c,
    plan.references[rid]? = some r ∧
    r.permutation.constantPosition = some q ∧ r.knownB = some (.node c) ∧
    Indexed docs (.ofRotation q (σ a.id) (σ a.id) c)
  pasts : ∀ a ∈ plan.assignments, ∀ rid ∈ a.past.cursors, ∃ r y start,
    plan.references[rid]? = some r ∧
    plan.followed? rid = some y ∧ r.seekPrefix? (σ y) = some start ∧
    ((Store.ofDocuments docs).get? (start ++ Key.encodeNode (σ a.id))).isSome

theorem missingConstant_eq (plan : Plan) (pattern : Dataset) (s : Store) :
    plan.missingConstant pattern s =
      .ok ((plan.constants.filterMap fun c => pattern.statement? c.graph c.index).find?
        fun statement =>
          statement.nodes?.any fun t => (s.get? (Key.tripleKey t .subject)).isNone) := by
  refine Eq.trans (congrArg (List.findM? · _) (funext fun statement => ?_)) (List.findM?_pure _ _)
  cases statement.nodes? with
  | none => rfl
  | some t =>
    change Except.ok (!(s.get? (Key.tripleKey t .subject)).isSome) = _
    rw [Option.not_isSome]
    rfl

theorem missingConstant_eq_none_iff {docs : List Document} (h : WordSized docs) {pattern : Dataset}
    {plan : Plan} (hconstants : plan.constants =
      (pattern.toList.filter (·.2.2.isGround)).map fun e => .plain e.1 e.2.1 .ground none none) :
    plan.missingConstant pattern (Store.ofDocuments docs) = .ok none ↔
      ∀ e ∈ pattern.toList, ∀ t : Triple Node, e.2.2 = t.map .node → Indexed docs t := by
  have hstored : ∀ t, ((Store.ofDocuments docs).get? (Key.tripleKey t .subject)).isSome ↔
      Indexed docs t := by
    intro t
    rw [(content_ofDocuments h).isSome_tripleKey, mem_triples_factsOf]
  rw [missingConstant_eq, Except.ok.injEq, List.find?_eq_none, hconstants]
  simp only [List.mem_filterMap, List.mem_map, List.mem_filter]
  constructor
  · intro hnone e he t ht
    have hground : e.2.2.isGround = true := isGround_iff.2 ⟨t, ht⟩
    have := hnone e.2.2 ⟨_, ⟨e, ⟨he, hground⟩, rfl⟩, Dataset.mem_toList.1 he⟩
    rw [ht, Statement.nodes?_map_node] at this
    rw [← hstored, ← Option.ne_none_iff_isSome]
    simpa using this
  · intro hall s hs
    obtain ⟨_, ⟨e, ⟨he, hground⟩, rfl⟩, hget⟩ := hs
    have hes : s = e.2.2 := Option.some.inj (hget.symm.trans (Dataset.mem_toList.1 he))
    obtain ⟨t, ht⟩ := isGround_iff.1 hground
    rw [hes, ht, Statement.nodes?_map_node]
    simpa using Option.ne_none_iff_isSome.2 ((hstored t).2 (hall e he t ht))

namespace Planned

variable {docs : List Document} {es : List (String × Nat × Statement)} {codexes : List Codex}
    {plan : Plan}

theorem exists_codex (h : Planned docs es codexes plan) {a : Assignment}
    (ha : a ∈ plan.assignments) :
    ∃ i, ∃ c ∈ codexes, Resolves docs es ((codexes.take i).map (·.id)) c a := by
  obtain ⟨i, hi⟩ := List.mem_iff_getElem?.1 ha
  obtain ⟨c, hc, hres⟩ := h.built.exists_codex hi
  exact ⟨i, c, List.mem_of_getElem? hc, hres⟩

theorem exists_assignment (h : Planned docs es codexes plan) {e : String × Nat × Statement}
    (he : e ∈ es) {f : Filing} (hf : f ∈ filings e) :
    ∃ i c a, codexes[i]? = some c ∧ plan.assignments[i]? = some a ∧
      c.id = f.owner ∧ Resolves docs es ((codexes.take i).map (·.id)) c a := by
  have howner : f.owner ∈ (es.flatMap filings).map (·.owner) :=
    List.mem_map_of_mem (List.mem_flatMap.2 ⟨e, he, hf⟩)
  obtain ⟨c, hc, hid⟩ := List.mem_map.1 ((h.covers.mem_ids _).2 howner)
  obtain ⟨i, hi⟩ := List.mem_iff_getElem?.1 hc
  obtain ⟨a, ha, hres⟩ := h.built.exists_assigned hi
  exact ⟨i, c, a, hi, ha, hid, hres⟩

theorem followed_eq (h : Planned docs es codexes plan) {a : Assignment} (ha : a ∈ plan.assignments)
    {y : Var} {rid : RefId}
    (hrid : rid ∈ a.past.cursorsFor y) : plan.followed? rid = some y := by
  obtain ⟨r, hr, hfollow⟩ := h.tracks a ha y rid hrid
  rw [Plan.followed?, hr]
  exact hfollow

end Planned

section

variable {docs : List Document} {pattern : Dataset} {codexes : List Codex} {plan : Plan}
    {σ : Var → Node}

theorem holds_of_solves (h : WordSized docs) (hplan : Planned docs pattern.toList codexes plan)
    (hσ : Solves docs pattern.toList σ) : plan.Holds docs pattern σ := by
  refine ⟨?_, ?_, ?_, ?_⟩
  · rw [missingConstant_eq_none_iff h hplan.constants]
    intro e he t ht
    have hstored := hσ e he
    rwa [ht, Statement.under_map_node] at hstored
  · intro a ha root hroot
    obtain ⟨i, c, -, hres⟩ := hplan.exists_codex ha
    rw [hres.root.mem root hroot, hres.id]
    exact hσ.admits c.id
  · intro a ha rid hrid
    obtain ⟨i, c, hc, hres⟩ := hplan.exists_codex ha
    rw [hres.constraint] at hrid
    obtain ⟨f, hf, howner, hs⟩ := (hplan.covers.mem_group hc .constraint).1 hrid
    obtain ⟨e, he, hfe⟩ := exists_statement hf
    obtain ⟨r, hr, hcore⟩ := hplan.references.cores.get hf
    obtain ⟨q, n, hq, hn, hunder⟩ := constraint_filing (files_of_mem hfe) hs
    rw [← hcore] at hq hn
    refine ⟨r, q, n, hr, hq, hn, ?_⟩
    rw [hres.id, ← howner, ← hunder]
    exact hσ e he
  · intro a ha rid hrid
    obtain ⟨i, c, hc, hres⟩ := hplan.exists_codex ha
    obtain ⟨y, hy⟩ := (hres.cursors rid).1 hrid
    obtain ⟨f, hf, howner, hs⟩ := (hplan.covers.mem_group hc _).1 ((hres.past y rid).1 hy).2
    obtain ⟨e, he, hfe⟩ := exists_statement hf
    obtain ⟨r, hr, hcore⟩ := hplan.references.cores.get hf
    obtain ⟨start, hstart, hstored⟩ := seekPrefix_filing h (files_of_mem hfe) hs σ
    rw [← hcore] at hstart
    refine ⟨r, y, start, hr, hplan.followed_eq ha hy, hstart, ?_⟩
    rw [hres.id, ← howner, hstored]
    exact hσ e he

theorem stored_of_later (h : WordSized docs) (hplan : Planned docs pattern.toList codexes plan)
    (hσ : plan.Holds docs pattern σ) {e : String × Nat × Statement} (he : e ∈ pattern.toList)
    {f : Filing} (hf : f ∈ filings e) {w : Var} (hs : f.shape = .double w) {i j : Nat} {c d : Codex}
    (hc : codexes[i]? = some c) (hd : codexes[j]? = some d) (hci : c.id = f.owner) (hdj : d.id = w)
    (hlt : j < i) {a : Assignment} (ha : plan.assignments[i]? = some a)
    (hres : Resolves docs pattern.toList ((codexes.take i).map (·.id)) c a) :
    Indexed docs (e.2.2.under σ) := by
  obtain ⟨rid, hrid⟩ := exists_place he hf
  have hgroup : rid ∈ c.group (.double w) :=
    (hplan.covers.mem_group (List.mem_of_getElem? hc) _).2 ⟨f, hrid, hci.symm, hs⟩
  have hbefore : w ∈ (codexes.take i).map (·.id) := by
    refine List.mem_map.2 ⟨d, ?_, hdj⟩
    refine List.mem_iff_getElem?.2 ⟨j, ?_⟩
    rw [List.getElem?_take_of_lt hlt, hd]
  have hpast := (hres.past w rid).2 ⟨hbefore, hgroup⟩
  have hmem := List.mem_of_getElem? ha
  obtain ⟨r, y, start, hr, hy, hstart, hstored⟩ :=
    hσ.pasts a hmem rid ((hres.cursors rid).2 ⟨w, hpast⟩)
  rw [hplan.followed_eq hmem hpast] at hy
  cases hy
  obtain ⟨start', hstart', hiff⟩ := seekPrefix_filing h (files_of_mem hf) hs σ
  rw [← hplan.references.cores.core_eq hrid hr] at hstart'
  have heq : start' = start := Option.some.inj (hstart'.symm.trans hstart)
  rw [← hiff, heq, ← hci, ← hres.id]
  exact hstored

theorem stored_of_single (hplan : Planned docs pattern.toList codexes plan)
    (hσ : plan.Holds docs pattern σ) {e : String × Nat × Statement} (he : e ∈ pattern.toList)
    {f : Filing} (hf : f ∈ filings e) (hs : f.shape = .single) : Indexed docs (e.2.2.under σ) := by
  obtain ⟨i, c, a, hc, ha, hid, hres⟩ := hplan.exists_assignment he hf
  obtain ⟨u, hu⟩ := exists_single_iff.1 ⟨f, hf, rfl, hs⟩
  rw [← hid] at hu
  have honly : HasOnly pattern.toList c.id := ⟨e, he, u, hu⟩
  obtain ⟨root, hroot⟩ := Option.isSome_iff_exists.1 (hres.root.isSome.2 honly)
  have hin := hσ.roots a (List.mem_of_getElem? ha) root hroot
  rw [hres.root.mem root hroot, hres.id] at hin
  have hadmit := hin e he ⟨u, hu⟩
  rwa [under_of_isOnly hu] at hadmit

theorem stored_of_constraint (hplan : Planned docs pattern.toList codexes plan)
    (hσ : plan.Holds docs pattern σ) {e : String × Nat × Statement} (he : e ∈ pattern.toList)
    {f : Filing} (hf : f ∈ filings e) (hs : f.shape = .constraint) :
    Indexed docs (e.2.2.under σ) := by
  obtain ⟨i, c, a, hc, ha, hid, hres⟩ := hplan.exists_assignment he hf
  obtain ⟨rid, hrid⟩ := exists_place he hf
  have hgroup : rid ∈ a.constraint := by
    rw [hres.constraint]
    exact (hplan.covers.mem_group (List.mem_of_getElem? hc) .constraint).2
      ⟨f, hrid, hid.symm, hs⟩
  obtain ⟨r, q, n, hr, hq, hn, hstored⟩ := hσ.constraints a (List.mem_of_getElem? ha) rid hgroup
  obtain ⟨q', n', hq', hn', hunder⟩ := constraint_filing (files_of_mem hf) hs
  rw [← hplan.references.cores.core_eq hrid hr] at hq' hn'
  have hqq : q' = q := Option.some.inj (hq'.symm.trans hq)
  have hnn : n' = n := Term.node.inj (Option.some.inj (hn'.symm.trans hn))
  rw [hunder, hqq, hnn, ← hid, ← hres.id]
  exact hstored

theorem stored_of_double (h : WordSized docs) (hplan : Planned docs pattern.toList codexes plan)
    (hσ : plan.Holds docs pattern σ) {e : String × Nat × Statement} (he : e ∈ pattern.toList)
    {f : Filing} (hf : f ∈ filings e) {w : Var} (hs : f.shape = .double w) :
    Indexed docs (e.2.2.under σ) := by
  obtain ⟨i, c, a, hc, ha, hid, hres⟩ := hplan.exists_assignment he hf
  obtain ⟨f', hf', howner', hs'⟩ := exists_filing_swap hf rfl hs
  obtain ⟨j, d, b, hd, hb, hid', hres'⟩ := hplan.exists_assignment he hf'
  -- Both variables have a half of the statement; the later one has it in its past.
  have hne : i ≠ j := by
    intro hij
    subst hij
    rw [hc] at hd
    cases hd
    exact (files_of_mem hf).ne_of_double hs (hid.symm.trans (hid'.trans howner'))
  cases Nat.lt_or_gt_of_ne hne with
  | inl hlt => exact stored_of_later h hplan hσ he hf' hs' hd hc hid' hid hlt hb hres'
  | inr hlt =>
    exact stored_of_later h hplan hσ he hf hs hc hd hid (hid'.trans howner') hlt ha hres

theorem solves_of_holds (h : WordSized docs) (hclosed : ∀ e ∈ pattern.toList, ¬ e.2.2.IsOpen)
    (hplan : Planned docs pattern.toList codexes plan) (hσ : plan.Holds docs pattern σ) :
    Solves docs pattern.toList σ := by
  intro e he
  cases hfilings : filings e with
  | nil =>
    cases ground_or_open_of_filings hfilings with
    | inl hground =>
      obtain ⟨t, ht⟩ := hground
      rw [ht, Statement.under_map_node]
      exact (missingConstant_eq_none_iff h hplan.constants).1 hσ.constants e he t ht
    | inr hopen => exact absurd hopen (hclosed e he)
  | cons f rest =>
    have hf : f ∈ filings e := hfilings ▸ List.mem_cons_self
    cases hs : f.shape with
    | single => exact stored_of_single hplan hσ he hf hs
    | constraint => exact stored_of_constraint hplan hσ he hf hs
    | double w => exact stored_of_double h hplan hσ he hf hs

end

/-- Values for the variables make every statement of the pattern a stored triple exactly if they
satisfy the plan. -/
theorem plan_equivalent (docs : List Document) (h : WordSized docs) (config : CompileConfig)
    (pattern : Dataset) (plan : Plan)
    (hplan : compile config pattern (Store.ofDocuments docs) = .ok plan) (σ : Var → Node) :
    (∀ e ∈ pattern.toList, Indexed docs (e.2.2.under σ)) ↔ plan.Holds docs pattern σ := by
  have hcases := compile_cases h config pattern
  rw [hplan] at hcases
  cases hcases with
  | planned hclosed hwithin hsupport hroots hplanned =>
    exact ⟨holds_of_solves h hplanned, solves_of_holds h hclosed hplanned⟩

theorem plan_equivalent_twins : WordSized [blankTwin, namedTwin] ∧
    ∃ plan, compile {} twinPattern (Store.ofDocuments [blankTwin, namedTwin]) = .ok plan ∧
      ∀ σ, (∀ e ∈ twinPattern.toList, Indexed [blankTwin, namedTwin] (e.2.2.under σ)) ↔
        plan.Holds [blankTwin, namedTwin] twinPattern σ := by
  have hok : (compile {} twinPattern (Store.ofDocuments [blankTwin, namedTwin])).isOk = true := by
    decide
  cases hplan : compile {} twinPattern (Store.ofDocuments [blankTwin, namedTwin]) with
  | error e =>
    rw [hplan] at hok
    cases hok
  | ok plan =>
    exact ⟨wordSized_twins, plan, rfl,
      fun σ => plan_equivalent [blankTwin, namedTwin] wordSized_twins {} twinPattern plan hplan σ⟩

end TriplePlan
