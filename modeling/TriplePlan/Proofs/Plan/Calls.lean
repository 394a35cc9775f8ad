import TriplePlan.Proofs.Plan.Arrangement

/-! A codex map between calls. Whatever is asked of it, in any order and with any success, it keeps
what was classified: a call moves codexes, changes their sums and attaches or releases cursors, on
all references that have a counter at once. -/
namespace TriplePlan

open Assignment

/-- What can be asked of a codex map. Every probe and every build reads a state of its own, and may
fail on what it reads there: no candidates, a counter of the wrong length, a key that is malformed.
-/
inductive Call : Type 1
  | probe {σ : Type} [Readable σ] (s : σ)
  | sort (order : VariableOrder)
  | build {σ : Type} [Readable σ] (config : CompileConfig) (s : σ)
  | close

namespace CodexMap

/-- The map after a call, whether that succeeds or not. -/
def step (m : CodexMap) : Call → CodexMap
  | @Call.probe _ _ s => (m.probe s).2
  | .sort order => m.sort order
  | @Call.build _ _ config s => (m.build config.requireValueRoot s).2
  | .close => m.close

def run (m : CodexMap) : List Call → CodexMap
  | [] => m
  | call :: calls => (m.step call).run calls

/-- Every single and every double reference has a cursor, and no constraint has one. -/
def Armed (m : CodexMap) : Prop :=
  ∀ c ∈ m.codexes, (∀ rid ∈ c.probedRefs, ∃ r, m.references[rid]? = some r ∧ r.cursor.isSome) ∧
    ∀ rid ∈ c.constraint, ∃ r, m.references[rid]? = some r ∧ r.cursor = none

end CodexMap

open CodexMap

/-- A map with the references and groups of another one. It has a cursor for every counter if it is
probed, and otherwise none. -/
structure Intact (fresh m : CodexMap) : Prop where
  references : m.references.map Reference.release = fresh.references
  codexes : (m.codexes.map Codex.bare).Perm (fresh.codexes.map Codex.bare)
  cursors : ∀ r ∈ m.references, r.cursor.isSome = (m.probed && r.countKey?.isSome)

namespace Intact

variable {filed : List Filing} {fresh m : CodexMap}

theorem refl (h : Waiting filed fresh) : Intact fresh fresh := by
  refine ⟨?_, .refl _, fun r hr => ?_⟩
  · have hrelease : ∀ r ∈ fresh.references, r.release = r := by
      intro r hr
      rw [Reference.release, ← h.idle r hr]
    exact (List.map_congr_left hrelease).trans (List.map_id _)
  · rw [h.idle r hr, h.probed]
    rfl

theorem cores (h : Intact fresh m) (hfresh : Waiting filed fresh) : Cores filed m.references := by
  have hrelease : (m.references.map Reference.release).map Reference.core =
      m.references.map Reference.core := List.map_map
  rw [Cores, ← hrelease, h.references]
  exact hfresh.references

theorem covers (h : Intact fresh m) (hfresh : Waiting filed fresh) : Covers filed m.codexes :=
  hfresh.codexes.congr h.codexes

theorem waiting (h : Intact fresh m) (hfresh : Waiting filed fresh) (hm : m.probed = false) :
    Waiting filed m := by
  refine ⟨h.cores hfresh, fun r hr => ?_, h.covers hfresh, hm, hfresh.keys⟩
  have hnone : r.cursor.isSome = false := by rw [h.cursors r hr, hm, Bool.false_and]
  exact Option.not_isSome_iff_eq_none.1 (by rw [hnone]; exact Bool.false_ne_true)

theorem close (h : Intact fresh m) : Intact fresh m.close := by
  refine ⟨?_, h.codexes, fun r hr => ?_⟩
  · rw [← h.references, CodexMap.close, List.map_map]
    rfl
  · obtain ⟨r, -, rfl⟩ := List.mem_map.1 hr
    rfl

theorem sort (h : Intact fresh m) (order : VariableOrder) : Intact fresh (m.sort order) :=
  ⟨h.references, ((m.codexes_sort_perm order).map _).trans h.codexes, h.cursors⟩

theorem mark (h : Intact fresh m) (marks : List Past.Mark) :
    Intact fresh { m with references := Past.markAll marks m.references } := by
  refine ⟨?_, h.codexes, fun r hr => ?_⟩
  · exact (release_markAll marks m.references).trans h.references
  · obtain ⟨j, hj⟩ := List.mem_iff_getElem?.1 hr
    obtain ⟨r', hr', hkey, -, hcursor⟩ := Past.exists_unmarked hj
    rw [← hcursor, ← hkey]
    exact h.cursors r' (List.mem_of_getElem? hr')

theorem withCount (h : Intact fresh m) {m' : CodexMap} {count : RefId → Nat}
    (hcodexes : m'.codexes = m.codexes.map (·.counted count)) (hprobed : m'.probed = true)
    (hrefs : ∀ j : RefId,
      m'.references[j]? = m.references[j]?.map (Reference.withCount (count j))) :
    Intact fresh m' := by
  refine ⟨?_, ?_, fun r hr => ?_⟩
  · rw [← h.references]
    refine List.ext_getElem? fun j => ?_
    rw [List.getElem?_map, List.getElem?_map, hrefs, Option.map_map]
    rfl
  · rw [hcodexes, map_bare_counted]
    exact h.codexes
  · obtain ⟨j, hj⟩ := List.mem_iff_getElem?.1 hr
    rw [hrefs] at hj
    obtain ⟨r, -, rfl⟩ := Option.map_eq_some_iff.1 hj
    simp [Reference.withCount, Reference.countKey?, hprobed]

/-- The cursors that a failing probe attached are released again, so nothing is left of them. -/
theorem close_similar (h : Intact fresh m) {m' : CodexMap} (hm : Similar m m') :
    Intact fresh m'.close := by
  refine ⟨?_, hm.codexes ▸ h.codexes, fun r hr => ?_⟩
  · rw [← h.references, ← hm.references, CodexMap.close, List.map_map]
    rfl
  · obtain ⟨r, -, rfl⟩ := List.mem_map.1 hr
    rfl

theorem probe {σ : Type} [Readable σ] (h : Intact fresh m) (hfresh : Waiting filed fresh)
    (s : σ) : Intact fresh (m.probe s).2 := by
  obtain ⟨-, hrun⟩ | ⟨-, e, m', hsimilar, hrun⟩ | ⟨hm, m', hrun⟩ := probe_cases m s
  · rwa [hrun]
  · rw [hrun]
    exact h.close_similar hsimilar
  · obtain ⟨count, -, hcodexes, hprobed, hrefs⟩ := (h.waiting hfresh hm).probe_ok hrun
    rw [hrun]
    exact h.withCount hcodexes hprobed hrefs

theorem build {σ : Type} [Readable σ] (h : Intact fresh m) (requireRoot : Bool) (s : σ) :
    Intact fresh (m.build requireRoot s).2 := by
  obtain ⟨-, hrun⟩ | ⟨-, e, hrun⟩ | ⟨-, assigned, -, hrun⟩ := build_cases m requireRoot s
  · rwa [hrun]
  · rw [hrun]
    exact h.close
  · rw [hrun]
    exact h.mark _

theorem step (h : Intact fresh m) (hfresh : Waiting filed fresh) (call : Call) :
    Intact fresh (m.step call) := by
  cases call with
  | probe s => exact h.probe hfresh s
  | sort order => exact h.sort order
  | build config s => exact h.build config.requireValueRoot s
  | close => exact h.close

theorem run (h : Intact fresh m) (hfresh : Waiting filed fresh) (calls : List Call) :
    Intact fresh (m.run calls) := by
  induction calls generalizing m with
  | nil => exact h
  | cons call calls ih => exact ih (h.step hfresh call)

theorem exists_reference (h : Intact fresh m) (hfresh : Waiting filed fresh) {rid : RefId}
    {f : Filing} (hf : filed[rid]? = some f) : ∃ r, m.references[rid]? = some r ∧
      (r.cursor.isSome ↔ m.probed = true ∧ f.shape ≠ .constraint) := by
  obtain ⟨r, hr, hcore⟩ := (h.cores hfresh).get hf
  have hkey : r.countKey?.isSome ↔ f.shape ≠ .constraint := by
    rw [← hfresh.keys f (List.mem_of_getElem? hf), ← hcore]
    rfl
  refine ⟨r, hr, ?_⟩
  rw [h.cursors r (List.mem_of_getElem? hr), Bool.and_eq_true, hkey]

/-- In a probed map the cursors stand where the codexes list single and double references. -/
theorem armed (h : Intact fresh m) (hfresh : Waiting filed fresh) (hm : m.probed = true) :
    m.Armed := by
  intro c hc
  constructor
  · intro rid hrid
    obtain ⟨f, hf, -, hs⟩ := ((h.covers hfresh).mem_probedRefs hc).1 hrid
    obtain ⟨r, hr, hcursor⟩ := h.exists_reference hfresh hf
    exact ⟨r, hr, hcursor.2 ⟨hm, hs⟩⟩
  · intro rid hrid
    obtain ⟨f, hf, -, hs⟩ := ((h.covers hfresh).mem_group hc .constraint).1 hrid
    obtain ⟨r, hr, hcursor⟩ := h.exists_reference hfresh hf
    exact ⟨r, hr, Option.not_isSome_iff_eq_none.1 fun hsome => (hcursor.1 hsome).2 hs⟩

end Intact

/-- What calls keep of a map that was classified. Its cursors are attached together or not at all.
The references are the same but for them, and the codexes but for their order and sums. A second
probe and a build without one are refused, and leave the map alone. -/
structure CodexMap.Keeps (pattern : Dataset) (fresh m : CodexMap) : Prop where
  cursors : (m.probed = true ∧ m.Armed) ∨
    (m.probed = false ∧ ∀ r ∈ m.references, r.cursor = none)
  references : m.references.map Reference.release = fresh.references
  codexes : ∀ v, (m.codex? v).map Codex.bare = (fresh.codex? v).map Codex.bare
  ids : m.ids.Perm (pattern.toList.flatMap (·.2.2.vars)).eraseDups
  probe_again : m.probed = true → ∀ {σ : Type} [Readable σ] (s : σ),
    m.probe s = (.error .alreadyProbed, m)
  build_early : m.probed = false → ∀ {σ : Type} [Readable σ] (config : CompileConfig) (s : σ),
    m.build config.requireValueRoot s = (.error .unprobed, m)

section

variable {pattern : Dataset} {c : Classified} {m : CodexMap}

theorem codex?_bare_eq_some_iff {v : Var} {x : Codex} :
    (m.codex? v).map Codex.bare = some x ↔ x ∈ m.codexes.map Codex.bare ∧ x.id = v := by
  simp only [Option.map_eq_some_iff, codex?_eq_some_iff, List.mem_map]
  constructor
  · rintro ⟨y, ⟨hy, rfl⟩, rfl⟩
    exact ⟨⟨y, hy, rfl⟩, rfl⟩
  · rintro ⟨⟨y, hy, rfl⟩, rfl⟩
    exact ⟨y, ⟨hy, rfl⟩, rfl⟩

theorem Intact.codex?_bare {fresh : CodexMap} (h : Intact fresh m) (v : Var) :
    (m.codex? v).map Codex.bare = (fresh.codex? v).map Codex.bare := by
  ext x
  rw [codex?_bare_eq_some_iff, codex?_bare_eq_some_iff, h.codexes.mem_iff]

theorem intact_run (hc : classify pattern = .ok c) (calls : List Call) :
    Intact c.codexMap (c.codexMap.run calls) := by
  obtain ⟨-, hd, -⟩ := classify_ok hc
  exact (Intact.refl hd.waiting).run hd.waiting calls

/-- Whatever calls were made on it, a map keeps what was classified. -/
theorem run_keeps (pattern : Dataset) (c : Classified) (hc : classify pattern = .ok c)
    (calls : List Call) : Keeps pattern c.codexMap (c.codexMap.run calls) := by
  obtain ⟨hclosed, hd, -⟩ := classify_ok hc
  have hfresh := hd.waiting
  have h := intact_run hc calls
  generalize c.codexMap.run calls = m at h
  have hcover := h.covers hfresh
  refine ⟨?_, h.references, h.codex?_bare, ?_, fun hm σ _ s => ?_, fun hm σ _ config s => ?_⟩
  · by_cases hm : m.probed = true
    · exact .inl ⟨hm, h.armed hfresh hm⟩
    · rw [Bool.not_eq_true] at hm
      exact .inr ⟨hm, (h.waiting hfresh hm).idle⟩
  · refine (List.perm_ext_iff_of_nodup m.slice_nodup (nodup_eraseDups _)).2 fun v => ?_
    rw [List.mem_eraseDups, ← mem_all_owners_iff hclosed, ← hcover.mem_ids, map_id_codexes]
    exact Iff.rfl
  · rw [CodexMap.probe, if_pos hm]
  · rw [CodexMap.build, if_neg (by simp [hm])]

end

/-- A store of which some keys, and what begins with them, cannot be read. -/
structure Unreadable where
  keys : List Bytes
  store : Store

instance : Readable Unreadable where
  get? s key := if s.keys.any (· = key) then .error .io else .ok (s.store.get? key)
  scan s start :=
    if s.keys.any (· = start) then .error .io else .ok (TriplePlan.scan s.store.entries start)

def chainPattern : Dataset := .ofStatements
  [⟨.var ⟨"x"⟩, .node (.iri "p"), .node (.iri "o")⟩, ⟨.var ⟨"x"⟩, .node (.iri "q"), .var ⟨"y"⟩⟩,
    ⟨.var ⟨"y"⟩, .node (.iri "p"), .node (.iri "o")⟩, ⟨.var ⟨"y"⟩, .node (.iri "r"), .var ⟨"z"⟩⟩]

def chainStore : Store := Store.ofDocuments [⟨"d", .ofStatements
  [⟨.node (.iri "a"), .node (.iri "p"), .node (.iri "o")⟩,
    ⟨.node (.iri "b"), .node (.iri "p"), .node (.iri "o")⟩,
    ⟨.node (.iri "a"), .node (.iri "q"), .node (.iri "b")⟩,
    ⟨.node (.iri "b"), .node (.iri "r"), .node (.iri "c")⟩]⟩]

def lastCounter : Bytes := Key.majorKey .predicate (.iri "r")

/-- Probes that fail at their first counter and at their last ones, then one that succeeds, a build
that cannot read its candidates, and one that finds no root for the last variable. -/
def troubledCalls : List Call :=
  [.probe (Store.ofDocuments []), .probe (Unreadable.mk [lastCounter] chainStore),
    .probe (chainStore.insert lastCounter [0, 0, 1]), .probe chainStore, .probe chainStore,
    .build {} (Unreadable.mk [Key.valuePrefix .subject (.iri "p") (.iri "o")] chainStore),
    .probe chainStore, .sort .descendingCount, .build { requireValueRoot := true } chainStore,
    .build {} chainStore]

/-- The failing reads come when four cursors are attached; all of them are gone after the call. -/
theorem run_keeps_chain : ∃ c, classify chainPattern = .ok c ∧
    (probeAll (Unreadable.mk [lastCounter] chainStore) c.codexMap).1 = .error (.store .io) ∧
    (probeAll (Unreadable.mk [lastCounter] chainStore) c.codexMap).2.attachedCursors = 4 ∧
    (troubledCalls.inits.map fun calls => (c.codexMap.run calls).probed) =
      [false, false, false, false, true, true, false, true, true, false, false] ∧
    ∀ calls ∈ troubledCalls.inits, Keeps chainPattern c.codexMap (c.codexMap.run calls) := by
  have hprobed : ((classify chainPattern).map fun c =>
      ((probeAll (Unreadable.mk [lastCounter] chainStore) c.codexMap).1,
        (probeAll (Unreadable.mk [lastCounter] chainStore) c.codexMap).2.attachedCursors,
        troubledCalls.inits.map fun calls => (c.codexMap.run calls).probed)) =
      .ok (.error (.store .io), 4,
        [false, false, false, false, true, true, false, true, true, false, false]) := by
    decide +kernel
  obtain ⟨c, hc, hend⟩ := map_eq_ok_iff.1 hprobed
  obtain ⟨herr, hrest⟩ := Prod.mk.inj hend
  obtain ⟨hattached, hflags⟩ := Prod.mk.inj hrest
  exact ⟨c, hc, herr, hattached, hflags, fun calls _ => run_keeps chainPattern c hc calls⟩

end TriplePlan
