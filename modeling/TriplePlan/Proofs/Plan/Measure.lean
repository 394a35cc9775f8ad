import TriplePlan.Proofs.Index.Counts
import TriplePlan.Proofs.Plan.Cursors
import TriplePlan.Proofs.Tails

/-! The number of a cursor is what there is to be walked through. On an index a single reference has
as many candidates, and a double one finds as many pairs of nodes, one for the other variable and
one for its own; for one node of the other variable there are at most as many entries. -/
namespace TriplePlan

open Assignment CodexMap Index

section

variable {σ : Type} [Readable σ] {s : σ}

/-- The reference at a place has a cursor with the number behind its counter, if it has one. -/
def MeasuredAt (s : σ) (refs : List Reference) (rid : RefId) : Prop :=
  ∀ r key, refs[rid]? = some r → r.countKey? = some key →
    ∃ cursor, r.cursor = some cursor ∧ readCount s key = .ok cursor.count

/-- All references that the codexes list to be probed are measured. -/
def Measured (s : σ) (m : CodexMap) : Prop :=
  ∀ rid ∈ m.codexes.flatMap Codex.probedRefs, MeasuredAt s m.references rid

/-- What one successful step does: nothing at a place without a counter, and otherwise the reference
gets a cursor with the number that was read. -/
theorem probeReference_ok_cases {id : Var} {stats stats' : Stats} {refs refs' : List Reference}
    {rid : RefId} (h : probeReference s id stats rid refs = (.ok stats', refs')) :
    (stats' = stats ∧ refs' = refs ∧ ∀ r, refs[rid]? = some r → r.countKey? = none) ∨
    ∃ r key n, refs[rid]? = some r ∧ r.countKey? = some key ∧ readCount s key = .ok n ∧
      stats' = stats.add n ∧ refs' = refs.set rid { r with cursor := some (.probed key n) } := by
  have hsteps := probeReference_steps s id stats refs rid
  generalize probeReference s id stats rid refs = out at hsteps h
  cases hsteps with
  | passed hnone =>
    cases h
    exact .inl ⟨rfl, rfl, hnone⟩
  | unread => cases h
  | again => cases h
  | attached hget hkey hread =>
    split at h
    · cases h
    · cases h
      exact .inr ⟨_, _, _, hget, hkey, hread, rfl, rfl⟩

theorem probeReference_measures {id : Var} {stats stats' : Stats} {refs refs' : List Reference}
    {rid j : RefId} (h : probeReference s id stats rid refs = (.ok stats', refs'))
    (hj : j = rid ∨ MeasuredAt s refs j) : MeasuredAt s refs' j := by
  obtain ⟨-, rfl, hnone⟩ | ⟨r, key, n, hr, hkey, hread, -, rfl⟩ := probeReference_ok_cases h
  · refine hj.elim (fun heq r key hr hkey => ?_) fun hold => hold
    rw [hnone r (heq ▸ hr)] at hkey
    cases hkey
  · by_cases hne : j = rid
    · intro r' key' hr' hkey'
      have hlt := (List.getElem?_eq_some_iff.1 hr).1
      rw [hne, List.getElem?_set_self hlt] at hr'
      cases hr'
      obtain rfl : key = key' := Option.some.inj (hkey.symm.trans hkey')
      exact ⟨_, rfl, hread⟩
    · have hsame : (refs.set rid { r with cursor := some (.probed key n) })[j]? = refs[j]? :=
        List.getElem?_set_ne (Ne.symm hne)
      rw [MeasuredAt, hsame]
      exact hj.resolve_left hne

theorem foldlM_probeReference_measures {id : Var} {rids : List RefId} {stats stats' : Stats}
    {refs refs' : List Reference} {j : RefId}
    (h : rids.foldlM (probeReference s id) stats refs = (.ok stats', refs'))
    (hj : j ∈ rids ∨ MeasuredAt s refs j) : MeasuredAt s refs' j := by
  induction rids generalizing stats refs with
  | nil =>
    cases h
    simpa using hj
  | cons rid rids ih =>
    rw [List.foldlM_cons] at h
    obtain ⟨_, _, hstep, hrest⟩ := Action.bind_eq_ok_iff.1 h
    rw [List.mem_cons, or_right_comm, or_comm] at hj
    exact ih hrest (hj.imp_right (probeReference_measures hstep))

theorem probeVar_ok {m m' : CodexMap} {id : Var} (h : probeVar s id m = (.ok (), m')) :
    ∃ stats references,
      (m.codex id).probedRefs.foldlM (probeReference s id) .zero m.references =
        (.ok stats, references) ∧
      m' = { m with references }.adjust id ({ · with stats }) := by
  rw [probeVar] at h
  split at h
  · rename_i stats references hrun
    cases h
    exact ⟨stats, references, hrun, rfl⟩
  · cases h

theorem forM_probeVar_measures {ids : List Var} {m m' : CodexMap} {j : RefId}
    (h : ids.forM (probeVar s) m = (.ok (), m'))
    (hj : (∃ id ∈ ids, j ∈ (m.codex id).probedRefs) ∨ MeasuredAt s m.references j) :
    MeasuredAt s m'.references j := by
  induction ids generalizing m with
  | nil =>
    cases h
    simpa using hj
  | cons id ids ih =>
    rw [Action.forM_cons] at h
    obtain ⟨_, m₁, hstep, hrest⟩ := Action.bind_eq_ok_iff.1 h
    obtain ⟨stats, references, hrun, rfl⟩ := probeVar_ok hstep
    -- The sum of one variable has no part in what is listed for another one.
    have hlisted : ∀ v, (({ m with references }.adjust id ({ · with stats })).codex v).probedRefs =
        (m.codex v).probedRefs := by
      intro v
      have hbare := congrArg Codex.probedRefs (bare_codex_adjust { m with references } id stats v)
      exact hbare
    refine ih hrest ?_
    simp only [hlisted]
    obtain ⟨v, hv, hmem⟩ | hold := hj
    · cases hv with
      | head => exact .inr (foldlM_probeReference_measures hrun (.inl hmem))
      | tail _ hv => exact .inl ⟨v, hv, hmem⟩
    · exact .inr (foldlM_probeReference_measures hrun (.inr hold))

theorem probe_eq_ok {m m' : CodexMap} (h : m.probe s = (.ok (), m')) : m.probed = false ∧
    ∃ m₁, m.ids.forM (probeVar s) m = (.ok (), m₁) ∧ m' = { m₁ with probed := true } := by
  rw [CodexMap.probe] at h
  split at h
  · cases h
  rename_i hm
  split at h
  · rename_i m₁ hrun
    cases h
    rw [probeAll_eq] at hrun
    exact ⟨Bool.not_eq_true _ ▸ hm, m₁, hrun, rfl⟩
  · cases h

theorem flatMap_probedRefs_bare (codexes : List Codex) :
    (codexes.map Codex.bare).flatMap Codex.probedRefs = codexes.flatMap Codex.probedRefs :=
  List.flatMap_map ..

namespace Measured

variable {m m' : CodexMap}

theorem probe (h : m.probe s = (.ok (), m')) : Measured s m' := by
  obtain ⟨-, m₁, hrun, rfl⟩ := probe_eq_ok h
  have hsimilar := similar_probeAll m s
  rw [probeAll_eq, hrun] at hsimilar
  intro rid hrid
  have hlisted : rid ∈ m.codexes.flatMap Codex.probedRefs := by
    rw [← flatMap_probedRefs_bare, ← hsimilar.codexes, flatMap_probedRefs_bare]
    exact hrid
  obtain ⟨c, hc, hmem⟩ := List.mem_flatMap.1 hlisted
  obtain ⟨id, hid, rfl⟩ := List.mem_map.1 hc
  have hmeasured : MeasuredAt s m₁.references rid :=
    forM_probeVar_measures hrun (.inl ⟨id, hid, hmem⟩)
  exact hmeasured

theorem sort (h : Measured s m) (order : VariableOrder) : Measured s (m.sort order) := by
  intro rid hrid
  exact h rid (((m.codexes_sort_perm order).flatMap_right _).mem_iff.1 hrid)

theorem mark (h : Measured s m) (marks : List Past.Mark) :
    Measured s { m with references := Past.markAll marks m.references } := by
  intro rid hrid r key hr hkey
  obtain ⟨r', hr', hkey', hcount, -⟩ := Past.exists_unmarked hr
  obtain ⟨cursor', hcursor', hread⟩ := h rid hrid r' key hr' (hkey'.trans hkey)
  rw [hcursor', Option.map_some] at hcount
  obtain ⟨cursor, hcursor, hsame⟩ := Option.map_eq_some_iff.1 hcount.symm
  exact ⟨cursor, hcursor, by rw [hread, hsame]⟩

/-- A map that is still probed after sorts and builds has the cursors of its probe. -/
theorem run (h : m.probed = true → Measured s m) {calls : List Call}
    (hcalls : ∀ call ∈ calls, call.Arranges) :
    (m.run calls).probed = true → Measured s (m.run calls) := by
  induction calls generalizing m with
  | nil => exact h
  | cons call calls ih =>
    obtain ⟨hcall, hrest⟩ := List.forall_mem_cons.1 hcalls
    refine ih ?_ hrest
    cases call with
    | probe s => cases hcall
    | sort order => exact fun hprobed => (h hprobed).sort order
    | build config t =>
      rw [CodexMap.step]
      obtain ⟨-, hrun⟩ | ⟨-, e, hrun⟩ | ⟨-, assigned, -, hrun⟩ :=
        build_cases m config.requireValueRoot t
      · rwa [hrun]
      · rw [hrun]
        intro hclosed
        cases hclosed
      · rw [hrun]
        exact fun hprobed => (h hprobed).mark _
    | close => cases hcall

end Measured

end

section

variable (u : Position) (c : Node)

theorem injective_beside_last :
    Function.Injective fun p : Node × Node => Triple.ofRotation u p.1 c p.2 := by
  intro p q h
  have hrotate := congrArg (Triple.rotate · u) h
  simp only [Triple.rotate_ofRotation, Prod.mk.injEq] at hrotate
  exact Prod.ext hrotate.1 hrotate.2.2

theorem injective_beside_next :
    Function.Injective fun p : Node × Node => Triple.ofRotation u c p.1 p.2 := by
  intro p q h
  have hrotate := congrArg (Triple.rotate · u) h
  simp only [Triple.rotate_ofRotation, Prod.mk.injEq] at hrotate
  exact Prod.ext hrotate.2.1 hrotate.2.2

theorem range_beside_last :
    (Set.range fun p : Node × Node => Triple.ofRotation u p.1 c p.2) =
      {t | t.get (u.rotate 2) = c} := by
  ext t
  constructor
  · rintro ⟨p, rfl⟩
    exact Triple.get_ofRotation_last ..
  · intro ht
    exact ⟨(t.get (u.rotate 1), t.get u), (Triple.eq_ofRotation_iff.2 ⟨rfl, ht, rfl⟩).symm⟩

theorem range_beside_next :
    (Set.range fun p : Node × Node => Triple.ofRotation u c p.1 p.2) =
      {t | t.get (u.rotate 1) = c} := by
  ext t
  constructor
  · rintro ⟨p, rfl⟩
    exact Triple.get_ofRotation_next ..
  · intro ht
    exact ⟨(t.get (u.rotate 2), t.get u), (Triple.eq_ofRotation_iff.2 ⟨ht, rfl, rfl⟩).symm⟩

end

namespace Reference

/-- Two constants stand at the key positions. -/
def IsSingle (r : Reference) : Prop :=
  ∃ u a b, r.permutation = .single u ∧ r.knownA = some (.node a) ∧ r.knownB = some (.node b)

/-- A constant and another variable stand at the key positions, in either order. -/
def IsDouble (r : Reference) : Prop :=
  ∃ u w c, r.permutation = .single u ∧
    ((r.knownA = some (.var w) ∧ r.knownB = some (.node c)) ∨
      (r.knownA = some (.node c) ∧ r.knownB = some (.var w)))

/-- The pairs of a node for the other variable and one for its own that are stored where the
reference looks. -/
def pairs (s : Store) (r : Reference) : Set (Node × Node) :=
  {p | ∃ start, r.seekPrefix? p.1 = some start ∧ (s.get? (start ++ Key.encodeNode p.2)).isSome}

end Reference

section

variable {docs : List Document} {r : Reference}

theorem encard_beside (docs : List Document) (q : Position) (c : Node)
    {place : Node × Node → Triple Node} (hinj : Function.Injective place)
    (hrange : Set.range place = {t | t.get q = c}) :
    {p | Indexed docs (place p)}.encard =
      ((triples (factsOf docs)).filter fun t => t.get q = c).card := by
  have himage : place '' {p | Indexed docs (place p)} = {t | Indexed docs t ∧ t.get q = c} := by
    ext t
    constructor
    · rintro ⟨p, hp, rfl⟩
      exact ⟨hp, hrange.subset ⟨p, rfl⟩⟩
    · rintro ⟨ht, hq⟩
      obtain ⟨p, rfl⟩ := hrange.superset hq
      exact ⟨p, ht, rfl⟩
  rw [← hinj.encard_image, himage, setOf_indexed, Set.encard_coe_eq_coe_finsetCard]

/-- Under a value prefix of an index there is one entry for each node that completes its pair. -/
theorem length_keysUnder (h : WordSized docs) (u : Position) (m n : Node) :
    ((Store.ofDocuments docs).keysUnder (Key.valuePrefix u m n)).length =
      {x | Indexed docs (.ofRotation u m n x)}.encard := by
  obtain ⟨xs, hrun, hsorted, hmem⟩ := (content_ofDocuments h).candidateValues u m n
  rw [candidateValues_eq_mapM, mapM_eq_ok_iff] at hrun
  have hlength := congrArg List.length hrun
  rw [List.length_map, List.length_map, List.length_map] at hlength
  rw [hlength, setOf_completions hmem, Set.encard_coe_eq_coe_finsetCard,
    List.toFinset_card_of_nodup (nodup_of_ascending hsorted).of_map]

theorem Reference.IsSingle.measure (h : WordSized docs) (hr : r.IsSingle) :
    ∃ key l, r.countKey? = some key ∧ readCount (Store.ofDocuments docs) key = .ok l.length ∧
      r.candidateValues (Store.ofDocuments docs) = .ok (some l) := by
  obtain ⟨u, a, b, hpermutation, ha, hb⟩ := hr
  obtain ⟨xs, hrun, hsorted, hmem⟩ := (content_ofDocuments h).candidateValues u a b
  have hlength := length_eq_ncard (nodup_of_ascending hsorted).of_map hmem
  refine ⟨Key.minorKey u a b, xs.map Key.encodeNode, by simp [countKey?, hpermutation, ha, hb],
    ?_, ?_⟩
  · rw [(content_ofDocuments h).readCount_minor h.bounded, List.length_map, hlength,
      ncard_completions]
  · simp [Reference.candidateValues, hpermutation, Permutation.unknown, knownNodes?, ha, hb, hrun,
      Except.map]

/-- Where a value of the other variable leaves the constant in its place, the pairs are the triples
with the constant, and those of one value some of them. -/
theorem measure_beside (h : WordSized docs) {u q : Position} {c : Node} {m n : Node → Node}
    (hseek : ∀ b, r.seekPrefix? b = some (Key.valuePrefix u (m b) (n b)))
    (hinj : Function.Injective fun p : Node × Node => Triple.ofRotation u (m p.1) (n p.1) p.2)
    (hrange : (Set.range fun p : Node × Node => Triple.ofRotation u (m p.1) (n p.1) p.2) =
      {t | t.get q = c}) :
    ∃ k : Nat, readCount (Store.ofDocuments docs) (Key.majorKey q c) = .ok k ∧
      (r.pairs (Store.ofDocuments docs)).encard = k ∧
      ∀ b, ∃ start, r.seekPrefix? b = some start ∧
        ((Store.ofDocuments docs).keysUnder start).length ≤ k := by
  have hpairs : r.pairs (Store.ofDocuments docs) =
      {p | Indexed docs (.ofRotation u (m p.1) (n p.1) p.2)} := by
    ext p
    simp [Reference.pairs, hseek, isSome_value_iff h]
  have hcount := encard_beside docs q c hinj hrange
  refine ⟨_, (content_ofDocuments h).readCount_major h.bounded q c, hpairs ▸ hcount, fun b => ?_⟩
  refine ⟨_, hseek b, ?_⟩
  have hinto : Prod.mk b '' {x | Indexed docs (.ofRotation u (m b) (n b) x)} ⊆
      {p | Indexed docs (.ofRotation u (m p.1) (n p.1) p.2)} := by
    rintro _ ⟨x, hx, rfl⟩
    exact hx
  have hle := Set.encard_le_encard hinto
  rw [(Prod.mk_right_injective b).encard_image, ← length_keysUnder h, hcount] at hle
  exact_mod_cast hle

theorem Reference.IsDouble.measure (h : WordSized docs) (hr : r.IsDouble) :
    ∃ key k, r.countKey? = some key ∧ readCount (Store.ofDocuments docs) key = .ok k ∧
      (r.pairs (Store.ofDocuments docs)).encard = k ∧
      ∀ b, ∃ start, r.seekPrefix? b = some start ∧
        ((Store.ofDocuments docs).keysUnder start).length ≤ k := by
  obtain ⟨u, w, c, hpermutation, ⟨ha, hb⟩ | ⟨ha, hb⟩⟩ := hr
  · have hseek : ∀ b, r.seekPrefix? b = some (Key.valuePrefix u b c) := by
      simp [seekPrefix?, hpermutation, Permutation.unknown, ha, hb, slot]
    obtain ⟨k, hk⟩ := measure_beside h hseek (injective_beside_last u c) (range_beside_last u c)
    exact ⟨_, k, by simp [countKey?, hpermutation, ha, hb], hk⟩
  · have hseek : ∀ b, r.seekPrefix? b = some (Key.valuePrefix u c b) := by
      simp [seekPrefix?, hpermutation, Permutation.unknown, ha, hb, slot]
    obtain ⟨k, hk⟩ := measure_beside h hseek (injective_beside_next u c) (range_beside_next u c)
    exact ⟨_, k, by simp [countKey?, hpermutation, ha, hb], hk⟩

end

theorem Intact.shapes {pattern : Dataset} {c : Classified} {m : CodexMap}
    (h : Intact c.codexMap m) (hc : classify pattern = .ok c) {x : Codex} (hx : x ∈ m.codexes)
    {rid : RefId} {r : Reference} (hr : m.references[rid]? = some r) :
    (rid ∈ x.single → r.IsSingle) ∧ ∀ w, rid ∈ x.group (.double w) → r.IsDouble := by
  obtain ⟨-, hd, -⟩ := classify_ok hc
  have hfiles : ∀ shape, rid ∈ x.group shape →
      ∃ e f, Files e f ∧ f.shape = shape ∧ r.core = f.reference := by
    intro shape hrid
    obtain ⟨f, hf, -, hshape⟩ := ((h.covers hd.waiting).mem_group hx shape).1 hrid
    obtain ⟨e, -, hfe⟩ := exists_statement hf
    exact ⟨e, f, files_of_mem hfe, hshape, (h.cores hd.waiting).core_eq hf hr⟩
  constructor
  · intro hrid
    obtain ⟨e, f, hf, hshape, hcore⟩ := hfiles .single hrid
    have hsingle : r.core.IsSingle := by
      rw [hcore]
      cases hf with
      | single g i u m n v => exact ⟨u, m, n, rfl, rfl, rfl⟩
      | constraint => cases hshape
      | next => cases hshape
      | last => cases hshape
    exact hsingle
  · intro w hrid
    obtain ⟨e, f, hf, hshape, hcore⟩ := hfiles (.double w) hrid
    have hdouble : r.core.IsDouble := by
      rw [hcore]
      cases hf with
      | single => cases hshape
      | constraint => cases hshape
      | next g i u c hne => exact ⟨u, _, c, rfl, .inl ⟨rfl, rfl⟩⟩
      | last g i u c hne => exact ⟨u, _, c, rfl, .inr ⟨rfl, rfl⟩⟩
    exact hdouble

/-- Any map that was probed on an index, and after sorts and builds still is: every single reference
has a cursor with the number of its candidates, and every double one a cursor with the number of its
pairs, which bounds the entries for one node of the other variable. In the map of a classified
pattern all single and double references are of these kinds. -/
theorem counts_measure (docs : List Document) (h : WordSized docs) (m p : CodexMap)
    (hrun : m.probe (Store.ofDocuments docs) = (.ok (), p)) (calls : List Call)
    (hcalls : ∀ call ∈ calls, call.Arranges) (hprobed : (p.run calls).probed = true) :
    ∀ x ∈ (p.run calls).codexes, ∀ rid ∈ x.probedRefs, ∀ r,
      (p.run calls).references[rid]? = some r →
      (r.IsSingle → ∃ cursor l, r.cursor = some cursor ∧
        r.candidateValues (Store.ofDocuments docs) = .ok (some l) ∧ cursor.count = l.length) ∧
      (r.IsDouble → ∃ cursor, r.cursor = some cursor ∧
        (r.pairs (Store.ofDocuments docs)).encard = cursor.count ∧
        ∀ b, ∃ start, r.seekPrefix? b = some start ∧
          ((Store.ofDocuments docs).keysUnder start).length ≤ cursor.count) ∧
      ∀ pattern c before, classify pattern = .ok c → m = c.codexMap.run before →
        (rid ∈ x.single → r.IsSingle) ∧ ∀ w, rid ∈ x.group (.double w) → r.IsDouble := by
  intro x hx rid hrid r hr
  have hmeasured := Measured.run (fun _ => Measured.probe hrun) hcalls hprobed rid
    (List.mem_flatMap.2 ⟨x, hx, hrid⟩) r
  refine ⟨?_, ?_, ?_⟩
  · intro hsingle
    obtain ⟨key, l, hkey, hread, hl⟩ := hsingle.measure h
    obtain ⟨cursor, hcursor, hcount⟩ := hmeasured key hr hkey
    rw [hread] at hcount
    exact ⟨cursor, l, hcursor, hl, (Except.ok.inj hcount).symm⟩
  · intro hdouble
    obtain ⟨key, k, hkey, hread, hpairs⟩ := hdouble.measure h
    obtain ⟨cursor, hcursor, hcount⟩ := hmeasured key hr hkey
    rw [hread] at hcount
    cases hcount
    exact ⟨cursor, hcursor, hpairs⟩
  · rintro pattern c before hc rfl
    obtain ⟨-, hd, -⟩ := classify_ok hc
    have hafter := (intact_run hc before).probe hd.waiting (Store.ofDocuments docs)
    rw [hrun] at hafter
    exact (hafter.run hd.waiting calls).shapes hc hx hr

theorem counts_measure_parallel : ∃ c p r cursor, classify parallelPattern = .ok c ∧
    c.codexMap.probe (Store.ofDocuments [cycleDocument]) = (.ok (), p) ∧
    p.references[0]? = some r ∧ r.cursor = some cursor ∧
    (r.pairs (Store.ofDocuments [cycleDocument])).encard = cursor.count := by
  have hwords : WordSized [cycleDocument] :=
    wordSized_of_size (by decide) (by decide) (by decide)
  have hend : ((classify parallelPattern).map fun c =>
      ((c.codexMap.probe (Store.ofDocuments [cycleDocument])).1,
        (c.codexMap.probe (Store.ofDocuments [cycleDocument])).2.probed)) =
      .ok (.ok (), true) := by
    decide +kernel
  have hcodex : ((classify parallelPattern).map fun c =>
      (c.codexMap.probe (Store.ofDocuments [cycleDocument])).2.codexes.head?.map (·.probedRefs)) =
      .ok (some [0, 3, 4]) := by
    decide +kernel
  have hreference : ((classify parallelPattern).map fun c =>
      (c.codexMap.probe (Store.ofDocuments [cycleDocument])).2.references[0]?.map fun r =>
        (r.permutation, r.knownA, r.knownB)) =
      .ok (some (.single .subject, some (.node (.iri "p")), some (.var ⟨"y"⟩))) := by
    decide +kernel
  obtain ⟨c, hc, hend⟩ := map_eq_ok_iff.1 hend
  obtain ⟨hok, hprobed⟩ := Prod.mk.inj hend
  rw [hc] at hcodex hreference
  have hrun : c.codexMap.probe (Store.ofDocuments [cycleDocument]) =
      (.ok (), (c.codexMap.probe (Store.ofDocuments [cycleDocument])).2) := Prod.ext hok rfl
  obtain ⟨x, hx, hrefs⟩ := Option.map_eq_some_iff.1 (Except.ok.inj hcodex)
  obtain ⟨r, hr, hshape⟩ := Option.map_eq_some_iff.1 (Except.ok.inj hreference)
  obtain ⟨hpermutation, hslots⟩ := Prod.mk.inj hshape
  obtain ⟨ha, hb⟩ := Prod.mk.inj hslots
  obtain ⟨-, hdouble, -⟩ := counts_measure [cycleDocument] hwords c.codexMap _ hrun [] nofun hprobed
    x (List.mem_of_head? hx) 0 (by simp [hrefs]) r hr
  obtain ⟨cursor, hcursor, hpairs, -⟩ := hdouble ⟨.subject, _, _, hpermutation, .inr ⟨ha, hb⟩⟩
  exact ⟨c, _, r, cursor, hc, hrun, hr, hcursor, hpairs⟩

end TriplePlan
