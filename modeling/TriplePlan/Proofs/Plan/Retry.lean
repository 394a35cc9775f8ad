import TriplePlan.Proofs.Plan.Calls

/-! Probing again. What a probe does depends on the references and groups of a map, and on nothing
that earlier calls left there: neither the order of the codexes nor their sums. -/
namespace TriplePlan

open CodexMap

section

variable {σ : Type} [Readable σ] {s : σ} {filed : List Filing} {m m' : CodexMap}

def Filing.Countable (s : σ) (f : Filing) : Prop :=
  ∃ key n, f.reference.countKey? = some key ∧ readCount s key = .ok n ∧ n ≠ 0

/-- Whether probing succeeds is decided by the counters alone. -/
theorem Waiting.probe_ok_iff (h : Waiting filed m) :
    (m.probe s).1 = .ok () ↔ ∀ f ∈ filed, f.shape ≠ .constraint → f.Countable s := by
  constructor
  · intro hok f hf hs
    obtain ⟨count, hcount, -⟩ := h.probe_ok (s := s) (Prod.ext hok rfl)
    obtain ⟨rid, hrid⟩ := List.mem_iff_getElem?.1 hf
    obtain ⟨hnonzero, key, hkey, hread⟩ := hcount rid f hrid hs
    exact ⟨key, count rid, hkey, hread, hnonzero⟩
  · intro hall
    have hread : ∀ f ∈ filed, f.shape ≠ .constraint →
        ∃ n, (∃ key, f.reference.countKey? = some key ∧ readCount s key = .ok n) ∧ n ≠ 0 := by
      intro f hf hs
      obtain ⟨key, n, hkey, hread, hnonzero⟩ := hall f hf hs
      exact ⟨n, ⟨key, hkey, hread⟩, hnonzero⟩
    obtain ⟨count, hcount⟩ := exists_counts hread
    obtain ⟨rid, f, hf, hs, hzero, -⟩ | ⟨-, m', hok, -⟩ :=
      h.probe_eq fun rid f hf hs => (hcount rid f hf hs).1
    · exact absurd hzero (hcount rid f hf hs).2
    · rw [hok]

theorem Waiting.withCount_congr {count count' : RefId → Nat} (h : Waiting filed m)
    (hcount : ∀ rid f, filed[rid]? = some f → f.shape ≠ .constraint → count rid = count' rid)
    (j : RefId) : m.references[j]?.map (Reference.withCount (count j)) =
      m.references[j]?.map (Reference.withCount (count' j)) := by
  cases hr : m.references[j]? with
  | none => rfl
  | some r =>
    cases hkey : r.countKey? with
    | none => simp [Reference.withCount, hkey]
    | some key =>
      obtain ⟨f, hf, hcore⟩ := h.references.exists_filing hr
      have hsome : f.reference.countKey?.isSome := by
        rw [← hcore]
        exact Option.isSome_of_eq_some hkey
      rw [hcount j f hf ((h.keys f (List.mem_of_getElem? hf)).1 hsome)]

/-- Maps with the same references and groups are probed alike. -/
theorem Waiting.probe_congr (h : Waiting filed m) (h' : Waiting filed m')
    (hrefs : m.references = m'.references)
    (hbare : (m.codexes.map Codex.bare).Perm (m'.codexes.map Codex.bare)) {p p' : CodexMap}
    (hrun : m.probe s = (.ok (), p)) (hrun' : m'.probe s = (.ok (), p')) :
    p.references = p'.references ∧ p.codexes.Perm p'.codexes := by
  obtain ⟨count, hcount, hcodexes, -, hattach⟩ := h.probe_ok hrun
  obtain ⟨count', hcount', hcodexes', -, hattach'⟩ := h'.probe_ok hrun'
  have hsame : ∀ rid f, filed[rid]? = some f → f.shape ≠ .constraint → count rid = count' rid := by
    intro rid f hf hs
    obtain ⟨-, key, hkey, hread⟩ := hcount rid f hf hs
    obtain ⟨-, key', hkey', hread'⟩ := hcount' rid f hf hs
    rw [hkey] at hkey'
    cases hkey'
    rw [hread] at hread'
    exact Except.ok.inj hread'
  constructor
  · refine List.ext_getElem? fun j => ?_
    rw [hattach, hattach', ← hrefs, h.withCount_congr hsame]
  · have hsums : ∀ c ∈ m.codexes, c.counted count = c.bare.counted count' := by
      intro c hc
      refine Codex.counted_congr fun rid hrid => ?_
      obtain ⟨f, hf, -, hs⟩ := (h.codexes.mem_probedRefs hc).1 hrid
      exact hsame rid f hf hs
    have hfirst : m.codexes.map (·.counted count) =
        (m.codexes.map Codex.bare).map (·.counted count') := by
      rw [List.map_map]
      exact List.map_congr_left hsums
    have hsecond : m'.codexes.map (·.counted count') =
        (m'.codexes.map Codex.bare).map (·.counted count') := by
      rw [List.map_map]
      rfl
    rw [hcodexes, hcodexes', hfirst, hsecond]
    exact hbare.map _

/-- Calls that end without a probed map leave nothing behind: it is probed like the map that was
classified, with the same references and the same codex for every variable. -/
theorem probe_run (pattern : Dataset) (c : Classified) (hc : classify pattern = .ok c)
    (calls : List Call) (hidle : (c.codexMap.run calls).probed = false) (s : σ) :
    (((c.codexMap.run calls).probe s).1 = .ok () ↔ (c.codexMap.probe s).1 = .ok ()) ∧
    (((c.codexMap.run calls).probe s).1 = .ok () →
      ((c.codexMap.run calls).probe s).2.references = (c.codexMap.probe s).2.references ∧
      ∀ v, ((c.codexMap.run calls).probe s).2.codex? v = (c.codexMap.probe s).2.codex? v) := by
  obtain ⟨-, hd, -⟩ := classify_ok hc
  have hfresh := hd.waiting
  have hintact := intact_run hc calls
  have hwait := hintact.waiting hfresh hidle
  generalize c.codexMap.run calls = m at hintact hwait
  have hiff : (m.probe s).1 = .ok () ↔ (c.codexMap.probe s).1 = .ok () := by
    rw [hwait.probe_ok_iff, hfresh.probe_ok_iff]
  refine ⟨hiff, fun hok => ?_⟩
  have hrun : m.probe s = (.ok (), (m.probe s).2) := Prod.ext hok rfl
  have hrun' : c.codexMap.probe s = (.ok (), (c.codexMap.probe s).2) := Prod.ext (hiff.1 hok) rfl
  have hrefs : m.references = c.codexMap.references := by
    rw [← hintact.references]
    exact ((Intact.refl hwait).references).symm
  obtain ⟨hreferences, hcodexes⟩ :=
    hwait.probe_congr hfresh hrefs hintact.codexes hrun hrun'
  exact ⟨hreferences, codex?_congr hcodexes⟩

end

theorem probe_run_chain : ∃ c, classify chainPattern = .ok c ∧
    (c.codexMap.run troubledCalls).probed = false ∧
    ((c.codexMap.run troubledCalls).probe chainStore).1 = .ok () ∧
    ((c.codexMap.run troubledCalls).probe chainStore).2.references =
      (c.codexMap.probe chainStore).2.references ∧
    (∀ v, ((c.codexMap.run troubledCalls).probe chainStore).2.codex? v =
      (c.codexMap.probe chainStore).2.codex? v) ∧
    ((c.codexMap.run troubledCalls).probe (Unreadable.mk [lastCounter] chainStore)).1 ≠ .ok () := by
  have hend : ((classify chainPattern).map fun c => ((c.codexMap.run troubledCalls).probed,
      (c.codexMap.probe chainStore).1,
      (c.codexMap.probe (Unreadable.mk [lastCounter] chainStore)).1)) =
      .ok (false, .ok (), .error (.store .io)) := by
    decide +kernel
  obtain ⟨c, hc, hend⟩ := map_eq_ok_iff.1 hend
  obtain ⟨hidle, hrest⟩ := Prod.mk.inj hend
  obtain ⟨hok, herr⟩ := Prod.mk.inj hrest
  obtain ⟨hiff, hsame⟩ := probe_run chainPattern c hc troubledCalls hidle chainStore
  obtain ⟨hunread, -⟩ := probe_run chainPattern c hc troubledCalls hidle
    (Unreadable.mk [lastCounter] chainStore)
  obtain ⟨hreferences, hcodexes⟩ := hsame (hiff.2 hok)
  refine ⟨c, hc, hidle, hiff.2 hok, hreferences, hcodexes, fun hcontra => ?_⟩
  rw [hunread.1 hcontra] at herr
  cases herr

end TriplePlan
