import TriplePlan.Proofs.Plan.Calls

/-! Probing, counter by counter. A fresh map is probed exactly if every listed reference has eight
bytes behind its counter that are a number other than zero; otherwise the first reference where they
are not decides the error, whatever stands behind the counters after it. -/
namespace TriplePlan

open CodexMap

variable {σ : Type} [Readable σ] {s : σ}

theorem readCount_eq_ok_iff {key : Bytes} {n : Nat} : readCount s key = .ok n ↔
    (Readable.get? s key = .ok none ∧ n = 0) ∨
      (n < Cbor.wordSize ∧ Readable.get? s key = .ok (some (Key.encodeCount n))) := by
  cases hget : Readable.get? s key with
  | error cause => simp [readCount, hget, bind, Except.bind]
  | ok value =>
    rw [Index.readCount_ok_iff hget]
    cases value with
    | none => simp [Index.countIn?, eq_comm]
    | some value => simp [Index.countIn?, Key.decodeCount?_eq_some_iff]

theorem readCount_eq_error_iff {key : Bytes} {e : StoreError} : readCount s key = .error e ↔
    Readable.get? s key = .error e ∨
      ∃ value, Readable.get? s key = .ok (some value) ∧ value.length ≠ 8 ∧
        e = .corruptCounter key value.length := by
  rw [readCount]
  cases Readable.get? s key with
  | error cause => simp [bind, Except.bind]
  | ok value =>
    cases value with
    | none => simp [bind, Except.bind, pure, Except.pure]
    | some value =>
      by_cases hlength : value.length = 8 <;>
        simp [bind, Except.bind, pure, Except.pure, throw, throwThe, MonadExceptOf.throw,
          Key.decodeCount?, hlength, eq_comm]

namespace Reference

variable {r : Reference}

/-- The counter of a reference holds eight bytes that are this number, which is not zero. -/
def CountedAs (s : σ) (r : Reference) (n : Nat) : Prop :=
  0 < n ∧ n < Cbor.wordSize ∧
    ∃ key, r.countKey? = some key ∧ Readable.get? s key = .ok (some (Key.encodeCount n))

theorem countedAs_iff {n : Nat} : r.CountedAs s n ↔ r.number s = n ∧ n ≠ 0 := by
  constructor
  · rintro ⟨hpos, hlt, key, hkey, hget⟩
    exact ⟨number_eq hkey (readCount_eq_ok_iff.2 (.inr ⟨hlt, hget⟩)), hpos.ne'⟩
  · rintro ⟨rfl, hne⟩
    obtain ⟨key, hkey, hread⟩ := exists_key_of_number hne
    obtain ⟨-, hzero⟩ | ⟨hlt, hget⟩ := readCount_eq_ok_iff.1 hread
    · exact absurd hzero hne
    · exact ⟨Nat.pos_of_ne_zero hne, hlt, key, hkey, hget⟩

/-- Why the reference of a variable is refused: its counter is not read, or holds bytes that are no
number, or is absent or zero. -/
def RefusedAs (s : σ) (id : Var) (r : Reference) (e : PlanError) : Prop :=
  ∃ key, r.countKey? = some key ∧
    ((∃ cause, Readable.get? s key = .error cause ∧ e = .store cause) ∨
      (∃ value, Readable.get? s key = .ok (some value) ∧ value.length ≠ 8 ∧
        e = .store (.corruptCounter key value.length)) ∨
      (∃ value, Readable.get? s key = .ok value ∧
        (∀ bytes, value = some bytes → bytes = Key.encodeCount 0) ∧
        e = .zeroCandidates id r.graph r.index r.permutation))

theorem refusedAs_iff {id : Var} {e : PlanError} : r.RefusedAs s id e ↔ r.Refused s id e := by
  constructor
  · rintro ⟨key, hkey, ⟨cause, hget, rfl⟩ | ⟨value, hget, hlength, rfl⟩ | ⟨value, hget, hzero, rfl⟩⟩
    · exact .unread hkey (readCount_eq_error_iff.2 (.inl hget))
    · exact .unread hkey (readCount_eq_error_iff.2 (.inr ⟨value, hget, hlength, rfl⟩))
    · refine .zero hkey (readCount_eq_ok_iff.2 ?_)
      cases value with
      | none => exact .inl ⟨hget, rfl⟩
      | some bytes => exact .inr ⟨by decide, by rw [hget, hzero bytes rfl]⟩
  · intro h
    cases h with
    | unread hkey hread =>
      obtain hget | ⟨value, hget, hlength, rfl⟩ := readCount_eq_error_iff.1 hread
      · exact ⟨_, hkey, .inl ⟨_, hget, rfl⟩⟩
      · exact ⟨_, hkey, .inr (.inl ⟨value, hget, hlength, rfl⟩)⟩
    | zero hkey hread =>
      obtain ⟨hnone, -⟩ | ⟨-, hget⟩ := readCount_eq_ok_iff.1 hread
      · exact ⟨_, hkey, .inr (.inr ⟨none, hnone, (fun _ h => by cases h), rfl⟩)⟩
      · exact ⟨_, hkey, .inr (.inr ⟨_, hget, fun _ h => (Option.some.inj h).symm, rfl⟩)⟩

theorem Refused.number_eq_zero {id : Var} {e : PlanError} (h : r.Refused s id e) :
    r.number s = 0 := by
  cases h with
  | unread hkey hread => simp [number, hkey, hread, Except.toOption]
  | zero hkey hread => exact number_eq hkey hread

theorem Refused.unique {id : Var} {e e' : PlanError} (h : r.Refused s id e)
    (h' : r.Refused s id e') : e = e' := by
  cases h with
  | unread hkey hread =>
    cases h' with
    | unread hkey' hread' =>
      obtain rfl := Option.some.inj (hkey.symm.trans hkey')
      rw [Except.error.inj (hread.symm.trans hread')]
    | zero hkey' hread' => exact ((Refused.unread hkey hread).of_read hkey' hread').2
  | zero hkey hread => exact (h'.of_read hkey hread).2.symm

end Reference

/-- The single references of a variable, then those beside another variable in the order of its
labels. -/
def Codex.listing (x : Codex) : List RefId := x.single ++ x.double.entries.flatMap (·.2)

theorem Codex.listing_eq_probedRefs (x : Codex) : x.listing = x.probedRefs := by
  rw [listing, probedRefs, List.flatMap_def]
  rfl

namespace CodexMap

def listing (m : CodexMap) : List (Var × RefId) :=
  m.codexes.flatMap fun x => x.listing.map (x.id, ·)

def CountedAt (s : σ) (m : CodexMap) (rid : RefId) (n : Nat) : Prop :=
  ∃ r, m.references[rid]? = some r ∧ r.CountedAs s n

def count? (m : CodexMap) (rid : RefId) : Option Nat :=
  (m.references[rid]?.bind (·.cursor)).map (·.count)

/-- What probing made of a fresh map: the listed references have cursors with their numbers and
keys, the others are as they were, and a codex has the sums over its own references. -/
structure Counted (s : σ) (fresh m : CodexMap) : Prop where
  cursors : ∀ e ∈ fresh.listing, ∃ r n key, fresh.references[e.2]? = some r ∧ r.CountedAs s n ∧
    r.countKey? = some key ∧ m.references[e.2]? = some { r with cursor := some (.probed key n) }
  others : ∀ rid, rid ∉ fresh.listing.map (·.2) → m.references[rid]? = fresh.references[rid]?
  codexes : m.codexes = fresh.codexes.map fun x =>
    { x with stats := (x.listing.filterMap m.count?).foldl Stats.add .zero }

/-- Why a fresh map is not probed: the refusal of the first listed reference that is not counted. -/
def RefusedFor (s : σ) (m : CodexMap) (e : PlanError) : Prop :=
  ∃ before v rid after r, m.listing = before ++ (v, rid) :: after ∧
    (∀ b ∈ before, ∃ n, m.CountedAt s b.2 n) ∧ m.references[rid]? = some r ∧ r.RefusedAs s v e

variable {m : CodexMap}

theorem listing_eq (m : CodexMap) : m.listing = listed m.codexes := by
  simp only [listing, listed, Codex.listing_eq_probedRefs]

theorem map_snd_listing (m : CodexMap) :
    m.listing.map (·.2) = m.codexes.flatMap Codex.probedRefs := by
  rw [listing_eq, map_snd_listed]

theorem exists_countedAt_iff {rid : RefId} :
    (∃ n, m.CountedAt s rid n) ↔ numberAt s m.references rid ≠ 0 := by
  simp only [CountedAt, Reference.countedAs_iff]
  constructor
  · rintro ⟨n, r, hr, rfl, hne⟩
    rwa [numberAt_eq hr]
  · intro hne
    cases hr : m.references[rid]? with
    | none => simp [numberAt, hr] at hne
    | some r =>
      rw [numberAt_eq hr] at hne
      exact ⟨_, r, rfl, rfl, hne⟩

theorem refusedFor_iff {e : PlanError} :
    m.RefusedFor s e ↔ Stops s m.references (listed m.codexes) e := by
  simp only [RefusedFor, Stops, exists_countedAt_iff, Reference.refusedAs_iff, listing_eq]

end CodexMap

namespace Stops

variable {refs : List Reference} {l : List (Var × RefId)} {e e' : PlanError}

theorem exists_find? (h : Stops s refs l e) : ∃ v rid r,
    l.find? (numberAt s refs ·.2 = 0) = some (v, rid) ∧ refs[rid]? = some r ∧ r.Refused s v e := by
  obtain ⟨before, v, rid, after, r, rfl, hbefore, hr, hrefused⟩ := h
  refine ⟨v, rid, r, List.find?_eq_some_iff_append.2 ⟨?_, before, after, rfl, ?_⟩, hr, hrefused⟩
  · simp [numberAt_eq hr, hrefused.number_eq_zero]
  · simpa using fun v rid hb => hbefore (v, rid) hb

theorem not_forall {codexes : List Codex} (h : Stops s refs (listed codexes) e) :
    ¬ ∀ rid ∈ codexes.flatMap Codex.probedRefs, numberAt s refs rid ≠ 0 := by
  intro hall
  obtain ⟨v, rid, r, hfind, -, -⟩ := h.exists_find?
  have hzero := List.find?_some hfind
  have hmem := List.mem_map_of_mem (f := (·.2)) (List.mem_of_find?_eq_some hfind)
  rw [map_snd_listed] at hmem
  exact hall rid hmem (of_decide_eq_true hzero)

theorem unique (h : Stops s refs l e) (h' : Stops s refs l e') : e = e' := by
  obtain ⟨v, rid, r, hfind, hr, hrefused⟩ := h.exists_find?
  obtain ⟨v', rid', r', hfind', hr', hrefused'⟩ := h'.exists_find?
  rw [hfind] at hfind'
  cases hfind'
  rw [hr] at hr'
  cases hr'
  exact hrefused.unique hrefused'

end Stops

section

variable {filed : List Filing} {m m' : CodexMap}

theorem Waiting.counted (h : Waiting filed m)
    (hnz : ∀ rid ∈ m.codexes.flatMap Codex.probedRefs, numberAt s m.references rid ≠ 0)
    (hcodexes : m'.codexes = m.codexes.map (·.counted (numberAt s m.references)))
    (hrefs : ∀ j : RefId, m'.references[j]? =
      m.references[j]?.map (Reference.withCount (numberAt s m.references j))) :
    Counted s m m' := by
  have hcursor : ∀ rid ∈ m.codexes.flatMap Codex.probedRefs, ∃ r key,
      m.references[rid]? = some r ∧ r.CountedAs s (numberAt s m.references rid) ∧
      r.countKey? = some key ∧ m'.references[rid]? =
        some { r with cursor := some (.probed key (numberAt s m.references rid)) } := by
    intro rid hrid
    obtain ⟨r, hr, -, hkey⟩ := h.pending rid hrid
    obtain ⟨key, hkey⟩ := Option.isSome_iff_exists.1 hkey
    have hcounted : r.CountedAs s (numberAt s m.references rid) :=
      Reference.countedAs_iff.2 ⟨(numberAt_eq hr).symm, hnz rid hrid⟩
    refine ⟨r, key, hr, hcounted, hkey, ?_⟩
    rw [hrefs, hr, Option.map_some, Reference.withCount, hkey]
    rfl
  refine ⟨fun e he => ?_, fun rid hrid => ?_, ?_⟩
  · have hmem : e.2 ∈ m.codexes.flatMap Codex.probedRefs := by
      rw [← map_snd_listing]
      exact List.mem_map_of_mem he
    obtain ⟨r, key, hfacts⟩ := hcursor e.2 hmem
    exact ⟨r, _, key, hfacts⟩
  · rw [hrefs, h.withCount_of_not_mem (map_snd_listing m ▸ hrid)]
  · rw [hcodexes]
    refine List.map_congr_left fun x hx => ?_
    have hcounts : x.listing.filterMap m'.count? = x.listing.map (numberAt s m.references) := by
      refine List.filterMap_eq_map_iff_forall_eq_some.2 fun rid hrid => ?_
      have hmem : (x.id, rid) ∈ m.listing :=
        List.mem_flatMap.2 ⟨x, hx, List.mem_map_of_mem hrid⟩
      have hprobed : rid ∈ m.codexes.flatMap Codex.probedRefs := by
        rw [← map_snd_listing]
        exact List.mem_map_of_mem hmem
      obtain ⟨r, key, -, -, -, hget⟩ := hcursor rid hprobed
      rw [CodexMap.count?, hget]
      rfl
    rw [hcounts, List.foldl_map]
    rw [Codex.counted, Codex.listing, Codex.probedRefs, List.flatMap_def]
    rfl

/-- A probe of a fresh map succeeds exactly if all listed references are counted, and then leaves
their numbers; it fails exactly with the refusal of the first one that is not. -/
theorem probe_exact (pattern : Dataset) (c : Classified) (hc : classify pattern = .ok c) (s : σ) :
    ((c.codexMap.probe s).1 = .ok () ↔
      ∀ e ∈ c.codexMap.listing, ∃ n, c.codexMap.CountedAt s e.2 n) ∧
    ((c.codexMap.probe s).1 = .ok () → Counted s c.codexMap (c.codexMap.probe s).2) ∧
    ∀ e, (c.codexMap.probe s).1 = .error e ↔ c.codexMap.RefusedFor s e := by
  obtain ⟨-, hd, -⟩ := classify_ok hc
  have hwait := hd.waiting
  simp only [refusedFor_iff, exists_countedAt_iff]
  have hlisting : (∀ e ∈ c.codexMap.listing, numberAt s c.codexMap.references e.2 ≠ 0) ↔
      ∀ rid ∈ c.codexMap.codexes.flatMap Codex.probedRefs,
        numberAt s c.codexMap.references rid ≠ 0 := by
    rw [← map_snd_listing, List.forall_mem_map]
  rw [hlisting]
  obtain ⟨e, hstops, herr⟩ | ⟨hnz, m', hok, hcodexes, -, hrefs⟩ := hwait.probe_outcome s
  · rw [herr]
    refine ⟨⟨nofun, fun hall => ?_⟩, nofun, fun e' => ⟨fun he => ?_, fun he => ?_⟩⟩
    · exact absurd hall (hstops.not_forall)
    · cases he
      exact hstops
    · rw [hstops.unique he]
  · rw [hok]
    refine ⟨iff_of_true rfl hnz, fun _ => hwait.counted hnz hcodexes hrefs,
      fun e => ⟨nofun, fun he => ?_⟩⟩
    exact absurd hnz (he.not_forall)

end

def damagedCycle : Store :=
  (Store.ofDocuments [cycleDocument]).insert (Key.majorKey .predicate (.iri "q")) [0, 0, 1]

theorem probe_exact_parallel : ∃ c, classify parallelPattern = .ok c ∧
    Counted (Store.ofDocuments [cycleDocument]) c.codexMap
      (c.codexMap.probe (Store.ofDocuments [cycleDocument])).2 ∧
    c.codexMap.RefusedFor damagedCycle
      (.store (.corruptCounter (Key.majorKey .predicate (.iri "q")) 3)) := by
  have hend : ((classify parallelPattern).map fun c =>
      ((c.codexMap.probe (Store.ofDocuments [cycleDocument])).1,
        (c.codexMap.probe damagedCycle).1)) =
      .ok (.ok (), .error (.store (.corruptCounter (Key.majorKey .predicate (.iri "q")) 3))) := by
    decide +kernel
  cases hc : classify parallelPattern with
  | error e =>
    rw [hc] at hend
    cases hend
  | ok c =>
    rw [hc] at hend
    obtain ⟨hok, herr⟩ := Prod.mk.inj (Except.ok.inj hend)
    exact ⟨c, rfl, (probe_exact parallelPattern c hc (Store.ofDocuments [cycleDocument])).2.1 hok,
      ((probe_exact parallelPattern c hc damagedCycle).2.2 _).1 herr⟩

end TriplePlan
