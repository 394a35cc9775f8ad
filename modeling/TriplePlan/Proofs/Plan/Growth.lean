import TriplePlan.Proofs.Plan.ValueRoot

/-! Indexing more documents breaks no plan. A pattern that is compiled on the smaller index is
compiled on the larger one, where every variable has at least the counts and the root that it had
before. -/
namespace TriplePlan

open Index

namespace Stats

/-- Sums over as many references, none of them smaller. -/
structure Below (s s' : Stats) : Prop where
  count : s.count ≤ s'.count
  norm : s.norm ≤ s'.norm
  length : s.length = s'.length

theorem Below.add {s s' : Stats} (h : s.Below s') {n n' : Nat} (hn : n ≤ n') :
    (s.add n).Below (s'.add n') := by
  have hcount := h.count
  have hnorm := h.norm
  have hsquare : n * n ≤ n' * n' := Nat.mul_le_mul hn hn
  refine ⟨?_, ?_, congrArg (· + 1) h.length⟩
  · simp only [Stats.add]
    omega
  · simp only [Stats.add]
    omega

theorem Below.foldl_add {count count' : RefId → Nat} {rids : List RefId}
    (hle : ∀ rid ∈ rids, count rid ≤ count' rid) {s s' : Stats} (h : s.Below s') :
    (rids.foldl (fun sum rid => sum.add (count rid)) s).Below
      (rids.foldl (fun sum rid => sum.add (count' rid)) s') := by
  induction rids generalizing s s' with
  | nil => exact h
  | cons rid rids ih =>
    rw [List.forall_mem_cons] at hle
    exact ih hle.2 (h.add hle.1)

end Stats

theorem Codex.counted_below {count count' : RefId → Nat} {c : Codex}
    (hle : ∀ rid ∈ c.probedRefs, count rid ≤ count' rid) :
    (c.counted count).stats.Below (c.counted count').stats :=
  Stats.Below.foldl_add hle ⟨le_rfl, le_rfl, rfl⟩

section

variable {docs docs' : List Document} {es : List (String × Nat × Statement)}

theorem Index.Indexed.mono (hs : docs ⊆ docs') {t : Triple Node} (h : Indexed docs t) :
    Indexed docs' t := by
  obtain ⟨d, hd, hstated⟩ := h
  exact ⟨d, hs hd, hstated⟩

theorem triples_mono (hs : docs ⊆ docs') : triples (factsOf docs) ⊆ triples (factsOf docs') := by
  intro t ht
  rw [mem_triples_factsOf] at ht ⊢
  exact ht.mono hs

theorem countAt_mono (hs : docs ⊆ docs') (key : Bytes) :
    countAt (factsOf docs) key ≤ countAt (factsOf docs') key :=
  counted_mono (triples_mono hs) key

theorem Files.countKey_ne {e : String × Nat × Statement} {f : Filing} (hf : Files e f) {key : Bytes}
    (hkey : f.reference.countKey? = some key) (t : Triple Node) (u : Position) :
    key ≠ Key.tripleKey t u := by
  cases hf with
  | single =>
    cases hkey
    exact minorKey_ne_tripleKey _ _ _ t u
  | constraint => cases hkey
  | next =>
    cases hkey
    exact majorKey_ne_tripleKey _ _ t u
  | last =>
    cases hkey
    exact majorKey_ne_tripleKey _ _ t u

theorem readCount_mono (h : WordSized docs') (hs : docs ⊆ docs') {key : Bytes}
    (hkey : ∀ t u, key ≠ Key.tripleKey t u) {n n' : Nat}
    (hn : readCount (Store.ofDocuments docs) key = .ok n)
    (hn' : readCount (Store.ofDocuments docs') key = .ok n') : n ≤ n' := by
  have hsmall := h.subset hs
  rw [(content_ofDocuments hsmall).readCount hsmall.bounded hkey] at hn
  rw [(content_ofDocuments h).readCount h.bounded hkey] at hn'
  cases hn
  cases hn'
  exact countAt_mono hs key

theorem Supported.mono (hs : docs ⊆ docs') (h : Supported docs es) : Supported docs' es := by
  intro e he f hf hshape
  obtain ⟨t, ht, hagree⟩ := h e he f hf hshape
  exact ⟨t, ht.mono hs, hagree⟩

theorem Admits.mono (hs : docs ⊆ docs') {v : Var} {x : Node} (h : Admits docs es v x) :
    Admits docs' es v x :=
  fun e he honly => (h e he honly).mono hs

theorem Rootless.of_subset (hs : docs ⊆ docs') {requireRoot : Bool} {v : Var}
    (h : Rootless docs' es requireRoot v) : Rootless docs es requireRoot v := by
  cases h with
  | inl h => exact .inl ⟨h.1, fun x hx => h.2 x (hx.mono hs)⟩
  | inr h => exact .inr h

/-- Each reason to refuse a pattern on the larger index is one on the smaller index. -/
theorem exists_plan_of_subset (h : WordSized docs') (hs : docs ⊆ docs') {config : CompileConfig}
    {pattern : Dataset} {plan : Plan}
    (hplan : compile config pattern (Store.ofDocuments docs) = .ok plan) :
    ∃ plan', compile config pattern (Store.ofDocuments docs') = .ok plan' := by
  have hbefore := compile_cases (h.subset hs) config pattern
  have hafter := compile_cases h config pattern
  rw [hplan] at hbefore
  cases hbefore with
  | planned hclosed hwithin hsupport hroots =>
    generalize compile config pattern (Store.ofDocuments docs') = result at hafter
    cases hafter with
    | unrepresentable he hopen => exact absurd hopen (hclosed _ he)
    | tooManyVariables _ hmax hlt => exact absurd hlt (Nat.not_lt.2 (hwithin _ hmax))
    | zeroCandidates _ _ he hf hshape hnone =>
      exact absurd (hsupport.mono hs _ he _ hf hshape) hnone
    | emptyValueRoot _ _ _ hv hless => exact absurd (hless.of_subset hs) (hroots _ hv)
    | planned => exact ⟨_, rfl⟩

end

theorem stats_of_compile {σ : Type} [Readable σ] {s : σ} {config : CompileConfig}
    {pattern : Dataset} {plan : Plan} (hplan : compile config pattern s = .ok plan) :
    ∃ c count, classify pattern = .ok c ∧
      (∀ rid f, (pattern.toList.flatMap filings)[rid]? = some f → f.shape ≠ .constraint →
        ∃ key, f.reference.countKey? = some key ∧ readCount s key = .ok (count rid)) ∧
      ∀ a ∈ plan.assignments, ∃ x ∈ c.codexMap.codexes, x.id = a.id ∧
        a.stats = (x.counted count).stats := by
  obtain ⟨c, m, assigned, m', hc, hprobe, hbuild, rfl⟩ := compile_ok hplan
  obtain ⟨-, hd, -⟩ := classify_ok hc
  obtain ⟨count, hcounts, hcodexes, -⟩ := hd.waiting.probe_ok hprobe
  obtain ⟨-, hplace, -⟩ := Assignment.build_ok hbuild
  refine ⟨c, count, hc, fun rid f hf hs => (hcounts rid f hf hs).2, fun a ha => ?_⟩
  obtain ⟨y, hy, before, hplaced⟩ := hplace.exists_placed ha
  have hmem : y ∈ m.codexes := (m.codexes_sort_perm config.order).mem_iff.1 hy
  rw [hcodexes] at hmem
  obtain ⟨x, hx, rfl⟩ := List.mem_map.1 hmem
  exact ⟨x, hx, hplaced.id.symm, hplaced.stats⟩

/-- What a variable has on a larger index: at least the sums, a root exactly if it had one, and in
this every node from before. -/
structure Assignment.GrowsTo (a a' : Assignment) : Prop where
  stats : a.stats.Below a'.stats
  root_none : a.valueRoot = none ↔ a'.valueRoot = none
  root : ∀ l l', a.valueRoot = some l → a'.valueRoot = some l' → l ⊆ l'

section

variable {docs docs' : List Document} {config : CompileConfig} {pattern : Dataset}
  {plan plan' : Plan} {a a' : Assignment}

theorem stats_below (h : WordSized docs') (hs : docs ⊆ docs')
    (hplan : compile config pattern (Store.ofDocuments docs) = .ok plan)
    (hplan' : compile config pattern (Store.ofDocuments docs') = .ok plan')
    (ha : a ∈ plan.assignments) (ha' : a' ∈ plan'.assignments) (hid : a.id = a'.id) :
    a.stats.Below a'.stats := by
  obtain ⟨c, count, hc, hcounts, hstats⟩ := stats_of_compile hplan
  obtain ⟨c', count', hc', hcounts', hstats'⟩ := stats_of_compile hplan'
  rw [hc] at hc'
  cases hc'
  obtain ⟨x, hx, hxid, hxa⟩ := hstats a ha
  obtain ⟨x', hx', hxid', hxa'⟩ := hstats' a' ha'
  obtain ⟨-, hd, -⟩ := classify_ok hc
  have hcover := hd.filed.codexes.covers
  obtain rfl : x = x' :=
    List.inj_on_of_nodup_map hcover.nodup hx hx' (hxid.trans (hid.trans hxid'.symm))
  rw [hxa, hxa']
  apply Codex.counted_below
  intro rid hrid
  obtain ⟨f, hf, -, hshape⟩ := (hcover.mem_probedRefs hx).1 hrid
  obtain ⟨e, -, hfe⟩ := exists_statement hf
  obtain ⟨key, hkey, hn⟩ := hcounts rid f hf hshape
  obtain ⟨key', hkey', hn'⟩ := hcounts' rid f hf hshape
  rw [hkey] at hkey'
  cases hkey'
  exact readCount_mono h hs ((files_of_mem hfe).countKey_ne hkey) hn hn'

theorem growsTo_of_subset (h : WordSized docs') (hs : docs ⊆ docs')
    (hplan : compile config pattern (Store.ofDocuments docs) = .ok plan)
    (hplan' : compile config pattern (Store.ofDocuments docs') = .ok plan')
    (ha : a ∈ plan.assignments) (ha' : a' ∈ plan'.assignments) (hid : a.id = a'.id) :
    a.GrowsTo a' := by
  have hroot := (roots_of_compile (h.subset hs) hplan).1 a ha
  have hroot' := (roots_of_compile h hplan').1 a' ha'
  rw [← hid] at hroot'
  refine ⟨stats_below h hs hplan hplan' ha ha' hid, hroot.eq_none_iff.trans hroot'.eq_none_iff.symm,
    fun l l' hl hl' x hx => ?_⟩
  rw [hroot.mem l hl] at hx
  rw [hroot'.mem l' hl']
  exact hx.mono hs

end

/-- After another document is indexed, a pattern that was compiled before is compiled again with the
same variables, each of which has grown. -/
theorem compile_grows (docs : List Document) (d : Document) (h : WordSized (docs ++ [d]))
    (report : Report) (s : Store)
    (hindex : (Store.ofDocuments docs).index d.name d.dataset = (.ok report, s))
    (config : CompileConfig) (pattern : Dataset) (plan : Plan)
    (hplan : compile config pattern (Store.ofDocuments docs) = .ok plan) :
    ∃ plan', compile config pattern s = .ok plan' ∧ plan'.order.Perm plan.order ∧
      ∀ v a, plan.assignment? v = some a → ∃ a', plan'.assignment? v = some a' ∧ a.GrowsTo a' := by
  obtain rfl : s = Store.ofDocuments (docs ++ [d]) := by
    rw [ofDocuments_append, Store.addDocument, hindex]
  have hs : docs ⊆ docs ++ [d] := List.subset_append_left _ _
  obtain ⟨plan', hplan'⟩ := exists_plan_of_subset h hs hplan
  obtain ⟨codexes, refs, count, hcompiled⟩ := exists_compiled hplan
  obtain ⟨codexes', refs', count', hcompiled'⟩ := exists_compiled hplan'
  have horder : plan'.order.Perm plan.order := by
    rw [List.perm_ext_iff_of_nodup hcompiled'.order_nodup hcompiled.order_nodup]
    intro v
    rw [hcompiled.mem_order, hcompiled'.mem_order]
  refine ⟨plan', hplan', horder, fun v a ha => ?_⟩
  obtain ⟨hin, rfl⟩ := (Plan.assignment?_eq_some_iff hcompiled.order_nodup).1 ha
  have hmem : a.id ∈ plan'.order := horder.mem_iff.2 (List.mem_map_of_mem hin)
  obtain ⟨a', ha', hid⟩ := List.mem_map.1 hmem
  exact ⟨a', (Plan.assignment?_eq_some_iff hcompiled'.order_nodup).2 ⟨ha', hid⟩,
    growsTo_of_subset h hs hplan hplan' hin ha' hid.symm⟩

def otherSubject : Document :=
  ⟨"c", .ofStatements [⟨.node (.iri "b"), .node (.iri "p"), .node (.iri "o")⟩]⟩

/-- Both references of the variable count the new triple. -/
example : [[blankTwin], [blankTwin, otherSubject]].map (fun docs =>
    ((compile {} twinPattern (Store.ofDocuments docs)).toOption.bind
      (·.assignment? ⟨"x"⟩)).map (·.stats)) = [some ⟨2, 2, 2⟩, some ⟨4, 8, 2⟩] := by
  decide +kernel

theorem compile_grows_twins : WordSized ([blankTwin] ++ [otherSubject]) ∧
    ∃ report s plan plan',
      (Store.ofDocuments [blankTwin]).index otherSubject.name otherSubject.dataset =
        (.ok report, s) ∧
      compile {} twinPattern (Store.ofDocuments [blankTwin]) = .ok plan ∧
      compile {} twinPattern s = .ok plan' ∧ plan'.order.Perm plan.order ∧
      ∀ v a, plan.assignment? v = some a → ∃ a', plan'.assignment? v = some a' ∧ a.GrowsTo a' := by
  have hwords : WordSized ([blankTwin] ++ [otherSubject]) :=
    wordSized_of_size (by decide) (by decide) (by decide)
  have hfits : otherSubject.Fits := by decide
  have hindex := index_ofDocuments hwords
  rw [if_pos hfits] at hindex
  have hok : (compile {} twinPattern (Store.ofDocuments [blankTwin])).isOk = true := by decide
  cases hplan : compile {} twinPattern (Store.ofDocuments [blankTwin]) with
  | error e =>
    rw [hplan] at hok
    cases hok
  | ok plan =>
    obtain ⟨plan', hgrown⟩ :=
      compile_grows [blankTwin] otherSubject hwords _ _ hindex {} twinPattern plan hplan
    exact ⟨hwords, _, _, plan, plan', hindex, rfl, hgrown⟩

end TriplePlan
