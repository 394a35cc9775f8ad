import TriplePlan.Plan.Compile
import TriplePlan.Proofs.Plan.Build
import TriplePlan.Proofs.Plan.Probe

/-! What compiling a pattern against an index can end with. Every phase refuses the pattern for
exactly one reason, and what the last one leaves is a plan that holds the filings of all
statements. -/
namespace TriplePlan

open Index

/-- For every reference that is probed, a stored triple has the constants of its statement. -/
def Supported (docs : List Document) (es : List (String × Nat × Statement)) : Prop :=
  ∀ e ∈ es, ∀ f ∈ filings e, f.shape ≠ .constraint → ∃ t, Indexed docs t ∧ Statement.Agrees e.2.2 t

section

variable {docs : List Document} {es : List (String × Nat × Statement)} {m : CodexMap}

theorem Files.origin {e : String × Nat × Statement} {f : Filing} (h : Files e f) :
    f.reference.graph = e.1 ∧ f.reference.index = e.2.1 := by
  cases h <;> exact ⟨rfl, rfl⟩

/-- The counter of a filing holds this number, and it is zero unless a triple has the constants. -/
def Measures (docs : List Document) (f : Filing) (n : Nat) : Prop :=
  ∃ key, f.reference.countKey? = some key ∧ readCount (Store.ofDocuments docs) key = .ok n ∧
    ∀ e, Files e f → (n ≠ 0 ↔ ∃ t, Indexed docs t ∧ Statement.Agrees e.2.2 t)

theorem exists_measure (h : WordSized docs) {e : String × Nat × Statement} {f : Filing}
    (hf : Files e f) (hs : f.shape ≠ .constraint) : ∃ n, Measures docs f n := by
  obtain ⟨key, n, hkey, hread, hn⟩ := readCount_filing h hf hs
  refine ⟨n, key, hkey, hread, fun e' he' => ?_⟩
  rwa [he'.inj hf]

theorem exists_count (h : WordSized docs) (es : List (String × Nat × Statement)) :
    ∃ count : RefId → Nat, ∀ rid f, (es.flatMap filings)[rid]? = some f →
      f.shape ≠ .constraint → Measures docs f (count rid) := by
  apply exists_counts
  intro f hf hs
  obtain ⟨e, -, hfe⟩ := List.mem_flatMap.1 hf
  exact exists_measure h (files_of_mem hfe) hs

/-- Probing fails exactly if some reference has no support. -/
theorem probe_index (h : WordSized docs) (hm : Waiting (es.flatMap filings) m) :
    (∃ e ∈ es, ∃ f ∈ filings e, f.shape ≠ .constraint ∧
      (¬ ∃ t, Indexed docs t ∧ Statement.Agrees e.2.2 t) ∧
      (m.probe (Store.ofDocuments docs)).1 =
        .error (.zeroCandidates f.owner e.1 e.2.1 f.reference.permutation)) ∨
    (Supported docs es ∧ ∃ count m', m.probe (Store.ofDocuments docs) = (.ok (), m') ∧
      Probed (es.flatMap filings) count m.codexes m') := by
  obtain ⟨count, hcount⟩ := exists_count h es
  have hkeys : ∀ rid f, (es.flatMap filings)[rid]? = some f → f.shape ≠ .constraint →
      ∃ key, f.reference.countKey? = some key ∧
        readCount (Store.ofDocuments docs) key = .ok (count rid) := by
    intro rid f hf hs
    obtain ⟨key, hkey, hread, -⟩ := hcount rid f hf hs
    exact ⟨key, hkey, hread⟩
  obtain ⟨rid, f, hf, hs, hzero, herr⟩ | ⟨hnonzero, m', hok, hprobed⟩ := hm.probe_eq hkeys
  · obtain ⟨e, he, hfe⟩ := exists_statement hf
    obtain ⟨key, -, -, hsupport⟩ := hcount rid f hf hs
    obtain ⟨hgraph, hindex⟩ := (files_of_mem hfe).origin
    refine .inl ⟨e, he, f, hfe, hs, fun ht => (hsupport e (files_of_mem hfe)).2 ht hzero, ?_⟩
    rw [herr, hgraph, hindex]
  · refine .inr ⟨?_, count, m', hok, hprobed⟩
    intro e he f hfe hs
    obtain ⟨rid, hrid⟩ := exists_place he hfe
    obtain ⟨key, -, -, hsupport⟩ := hcount rid f hrid hs
    exact (hsupport e (files_of_mem hfe)).1 (hnonzero rid f hrid hs)

theorem build_index (h : WordSized docs) (hcover : Covers (es.flatMap filings) m.codexes)
    (hrefs : Attached (es.flatMap filings) m.references) (hprobed : m.probed = true)
    (requireRoot : Bool) :
    (∃ v ∈ (es.flatMap filings).map (·.owner), Rootless docs es requireRoot v ∧
      (m.build requireRoot (Store.ofDocuments docs)).1 = .error (.emptyValueRoot v)) ∨
    ((∀ v ∈ (es.flatMap filings).map (·.owner), ¬ Rootless docs es requireRoot v) ∧ ∃ assigned m',
      m.build requireRoot (Store.ofDocuments docs) = (.ok assigned, m') ∧
      Built docs es m.codexes assigned ∧ Attached (es.flatMap filings) m'.references ∧
        Tracks m'.references assigned) := by
  have hstart : Built docs es [] [] := ⟨rfl, fun i c a hc => by simp at hc⟩
  rw [CodexMap.build, if_pos hprobed]
  obtain ⟨c, hc, refs, hless, herr⟩ | ⟨hroots, assigned, refs, hok, hbuilt, hattached⟩ :=
    foldlM_assign h hcover requireRoot (List.nil_append _) hstart hrefs
  · refine .inl ⟨c.id, (hcover.mem_ids _).1 (List.mem_map_of_mem hc), hless, ?_⟩
    rw [herr]
  · have htracks : Tracks refs assigned := by
      obtain ⟨e, marks, hrun⟩ | ⟨placed, hplace, hrun⟩ := Assignment.foldlM_assign_cases
        requireRoot (Store.ofDocuments docs) [] m.codexes m.references
      · rw [hok] at hrun
        cases hrun
      · rw [hok] at hrun
        cases hrun
        exact tracks_markAll hcover hplace hrefs
    refine .inr ⟨fun v hv => ?_, assigned, { m with references := refs }, by rw [hok],
      hbuilt, hattached, htracks⟩
    obtain ⟨c, hc, rfl⟩ := List.mem_map.1 ((hcover.mem_ids v).2 hv)
    exact hroots c hc

end

def planOf {σ : Type} [Readable σ] (config : CompileConfig) (s : σ) (c : Classified) :
    Except PlanError Plan :=
  match c.codexMap.probe s with
  | (.error e, _) => .error e
  | (.ok (), m) =>
    match (m.sort config.order).build config.requireValueRoot s with
    | (.error e, _) => .error e
    | (.ok assignments, m) => .ok ⟨assignments, m.references, c.constants⟩

theorem compile_eq {σ : Type} [Readable σ] (config : CompileConfig) (pattern : Dataset) (s : σ)
    {c : Classified} (hc : classify pattern = .ok c) : compile config pattern s =
      match config.maxVariables with
      | some max => if max < c.codexMap.size then .error (.tooManyVariables c.codexMap.size max)
        else planOf config s c
      | none => planOf config s c := by
  rw [compile, hc]
  cases config.maxVariables with
  | none => rfl
  | some max =>
    simp only [bind, Except.bind]
    by_cases hmax : max < c.codexMap.size
    · rw [if_pos hmax, if_pos hmax]
      rfl
    · rw [if_neg hmax, if_neg hmax]
      rfl

/-- A plan that holds the filings of all statements, with its variables in the order of these
codexes. -/
structure Planned (docs : List Document) (es : List (String × Nat × Statement))
    (codexes : List Codex) (plan : Plan) : Prop where
  covers : Covers (es.flatMap filings) codexes
  built : Built docs es codexes plan.assignments
  references : Attached (es.flatMap filings) plan.references
  tracks : Tracks plan.references plan.assignments
  constants : plan.constants = (es.filter (·.2.2.isGround)).map fun e =>
    .plain e.1 e.2.1 .ground none none

def variableCount (es : List (String × Nat × Statement)) : Nat :=
  (es.flatMap (·.2.2.vars)).toFinset.card

/-- The ways in which compiling ends, each with what holds exactly then. -/
inductive Outcome (docs : List Document) (config : CompileConfig)
    (es : List (String × Nat × Statement)) :
    Except PlanError Plan → Prop
  | unrepresentable {e : String × Nat × Statement} (he : e ∈ es) (hopen : e.2.2.IsOpen) :
    Outcome docs config es (.error (.unrepresentable e.1 e.2.1))
  | tooManyVariables {max : Nat} (hclosed : ∀ e ∈ es, ¬ e.2.2.IsOpen)
    (hmax : config.maxVariables = some max) (hlt : max < variableCount es) :
    Outcome docs config es (.error (.tooManyVariables (variableCount es) max))
  | zeroCandidates {e : String × Nat × Statement} {f : Filing} (hclosed : ∀ e ∈ es, ¬ e.2.2.IsOpen)
    (hwithin : ∀ max, config.maxVariables = some max → variableCount es ≤ max) (he : e ∈ es)
    (hf : f ∈ filings e) (hs : f.shape ≠ .constraint)
    (hnone : ¬ ∃ t, Indexed docs t ∧ Statement.Agrees e.2.2 t) :
    Outcome docs config es (.error (.zeroCandidates f.owner e.1 e.2.1 f.reference.permutation))
  | emptyValueRoot {v : Var} (hclosed : ∀ e ∈ es, ¬ e.2.2.IsOpen)
    (hwithin : ∀ max, config.maxVariables = some max → variableCount es ≤ max)
    (hsupport : Supported docs es) (hv : v ∈ es.flatMap (·.2.2.vars))
    (hless : Rootless docs es config.requireValueRoot v) :
    Outcome docs config es (.error (.emptyValueRoot v))
  | planned {codexes : List Codex} {plan : Plan} (hclosed : ∀ e ∈ es, ¬ e.2.2.IsOpen)
    (hwithin : ∀ max, config.maxVariables = some max → variableCount es ≤ max)
    (hsupport : Supported docs es)
    (hroots : ∀ v ∈ es.flatMap (·.2.2.vars), ¬ Rootless docs es config.requireValueRoot v)
    (hplan : Planned docs es codexes plan) : Outcome docs config es (.ok plan)

section

variable {docs : List Document} {es : List (String × Nat × Statement)}

theorem mem_owners_iff {e : String × Nat × Statement} (h : ¬ e.2.2.IsOpen) {v : Var} :
    (∃ f ∈ filings e, f.owner = v) ↔ v ∈ e.2.2.vars := by
  obtain ⟨g, i, s⟩ := e
  dsimp only at h ⊢
  rw [isOpen_iff] at h
  rw [← vars_eq]
  cases form s with
  | ground t => simp [varPositions_ground, filings_ground]
  | one u m n w => simp [varPositions_one, filings_one, eq_comm]
  | repeated q a c =>
    rw [((varPositions_two q a a c).map _).mem_iff]
    simp [filings_repeated, eq_comm]
  | pair q a b hab c =>
    rw [((varPositions_two q a b c).map _).mem_iff]
    simp [mem_filings_pair hab, eq_comm]
  | allVars a b c => exact absurd (Nat.lt_succ_self 2) h

theorem mem_all_owners_iff (h : ∀ e ∈ es, ¬ e.2.2.IsOpen) {v : Var} :
    v ∈ (es.flatMap filings).map (·.owner) ↔ v ∈ es.flatMap (·.2.2.vars) := by
  simp only [List.mem_map, List.mem_flatMap]
  constructor
  · intro hv
    obtain ⟨f, ⟨e, he, hf⟩, hfv⟩ := hv
    exact ⟨e, he, (mem_owners_iff (h e he)).1 ⟨f, hf, hfv⟩⟩
  · intro hv
    obtain ⟨e, he, hv⟩ := hv
    obtain ⟨f, hf, hfv⟩ := (mem_owners_iff (h e he)).2 hv
    exact ⟨f, ⟨e, he, hf⟩, hfv⟩

theorem Describes.size_eq {c : Classified} (hd : Describes es c) (h : ∀ e ∈ es, ¬ e.2.2.IsOpen) :
    c.codexMap.size = variableCount es := by
  have hcover := hd.filed.codexes.covers
  have hids := hcover.nodup
  have hmem := hcover.mem_ids
  rw [CodexMap.map_id_codexes] at hids hmem
  change c.codexMap.ids.length = _
  rw [← List.toFinset_card_of_nodup hids, variableCount]
  congr 1
  ext v
  rw [List.mem_toFinset, List.mem_toFinset, hmem, mem_all_owners_iff h]

theorem planOf_outcome (h : WordSized docs) (config : CompileConfig) {c : Classified}
    (hd : Describes es c) (hclosed : ∀ e ∈ es, ¬ e.2.2.IsOpen)
    (hwithin : ∀ max, config.maxVariables = some max → variableCount es ≤ max) :
    Outcome docs config es (planOf config (Store.ofDocuments docs) c) := by
  rw [planOf]
  obtain ⟨e, he, f, hf, hs, hnone, herr⟩ | ⟨hsupport, count, m, hok, hprobed⟩ :=
    probe_index h hd.waiting
  · generalize c.codexMap.probe (Store.ofDocuments docs) = p at herr
    obtain ⟨result, m⟩ := p
    cases herr
    exact .zeroCandidates hclosed hwithin he hf hs hnone
  · rw [hok]
    dsimp only
    have hcover : Covers (es.flatMap filings) (m.sort config.order).codexes := by
      refine Covers.perm ?_ (m.codexes_sort_perm config.order)
      rw [hprobed.codexes]
      exact hd.filed.codexes.covers.counted count
    obtain ⟨v, hv, hless, herr⟩ | ⟨hroots, assigned, m', hbuild, hbuilt, hrefs, htracks⟩ :=
      build_index (m := m.sort config.order) h hcover hprobed.references hprobed.probed
        config.requireValueRoot
    · generalize (m.sort config.order).build config.requireValueRoot
        (Store.ofDocuments docs) = p at herr
      obtain ⟨result, m'⟩ := p
      cases herr
      exact .emptyValueRoot hclosed hwithin hsupport ((mem_all_owners_iff hclosed).1 hv) hless
    · rw [hbuild]
      exact .planned hclosed hwithin hsupport
        (fun v hv => hroots v ((mem_all_owners_iff hclosed).2 hv))
        ⟨hcover, hbuilt, hrefs, htracks, hd.constants⟩

end

theorem compile_cases {docs : List Document} (h : WordSized docs) (config : CompileConfig)
    (pattern : Dataset) :
    Outcome docs config pattern.toList (compile config pattern (Store.ofDocuments docs)) := by
  obtain ⟨c, hc, hclosed, hd⟩ | ⟨before, e, after, hsplit, -, hopen, herr⟩ := classify_eq pattern
  · have hsize := hd.size_eq hclosed
    rw [compile_eq config pattern _ hc, hsize]
    cases hmax : config.maxVariables with
    | none => exact planOf_outcome h config hd hclosed (by simp [hmax])
    | some max =>
      by_cases hlt : max < variableCount pattern.toList
      · simp only [if_pos hlt]
        exact .tooManyVariables hclosed hmax hlt
      · simp only [if_neg hlt]
        refine planOf_outcome h config hd hclosed ?_
        intro max' hmax'
        rw [hmax] at hmax'
        cases hmax'
        omega
  · have hrun : compile config pattern (Store.ofDocuments docs) =
        .error (.unrepresentable e.1 e.2.1) := by
      rw [compile, herr]
      rfl
    rw [hrun]
    exact .unrepresentable (hsplit ▸ List.mem_append_right _ List.mem_cons_self) hopen

def twinPattern : Dataset := .ofStatements
  [⟨.var ⟨"x"⟩, .node (.iri "p"), .var ⟨"y"⟩⟩, ⟨.var ⟨"x"⟩, .node (.iri "p"), .node (.iri "o")⟩]

end TriplePlan
