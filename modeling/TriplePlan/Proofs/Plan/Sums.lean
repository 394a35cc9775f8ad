import TriplePlan.Proofs.Plan.Measure
import TriplePlan.Proofs.Plan.Refusals

/-! The sums of a probed map. Every variable has the sums of the counts that its cursors hold, cut
off once at the largest number there is, however early the bound is met on the way and in whatever
order the references are taken. -/
namespace TriplePlan

open Assignment CodexMap

namespace Stats

/-- Cutting off after every step is cutting off at the end. -/
theorem foldl_add (counts : List Nat) (count norm length : Nat) :
    counts.foldl add ⟨min count maxCount, min norm maxCount, length⟩ =
      ⟨min (count + counts.sum) maxCount, min (norm + (counts.map fun n => n * n).sum) maxCount,
        length + counts.length⟩ := by
  induction counts generalizing count norm length with
  | nil => rfl
  | cons n counts ih =>
    have hstep : add ⟨min count maxCount, min norm maxCount, length⟩ n =
        ⟨min (count + n) maxCount, min (norm + n * n) maxCount, length + 1⟩ := by
      simp only [add, mk.injEq, and_true]
      omega
    rw [List.foldl_cons, hstep, ih, List.map_cons, List.sum_cons, List.sum_cons, List.length_cons]
    simp only [mk.injEq]
    omega

theorem foldl_add_zero (counts : List Nat) : counts.foldl add zero =
    ⟨min counts.sum maxCount, min (counts.map fun n => n * n).sum maxCount, counts.length⟩ := by
  simpa [zero] using foldl_add counts 0 0 0

theorem foldl_add_perm {counts counts' : List Nat} (h : counts.Perm counts') :
    counts.foldl add zero = counts'.foldl add zero := by
  rw [foldl_add_zero, foldl_add_zero, h.sum_eq, (h.map _).sum_eq, h.length_eq]

end Stats

def Codex.counts (m : CodexMap) (x : Codex) : List Nat := x.listing.filterMap m.count?

/-- The sums of a codex are those of its counts, taken in any order, each cut off once. -/
structure Codex.Sums (m : CodexMap) (x : Codex) : Prop where
  count : x.stats.count = min (x.counts m).sum maxCount
  norm : x.stats.norm = min ((x.counts m).map fun n => n * n).sum maxCount
  length : x.stats.length = (x.counts m).length
  any_order : ∀ l : List Nat, l.Perm (x.counts m) → l.foldl Stats.add .zero = x.stats

theorem Codex.sums_of_eq {m : CodexMap} {x : Codex}
    (h : x.stats = (x.counts m).foldl Stats.add .zero) : x.Sums m := by
  refine ⟨?_, ?_, ?_, fun l hl => (Stats.foldl_add_perm hl).trans h.symm⟩
  all_goals rw [h, Stats.foldl_add_zero]

def CodexMap.constrain (constraints : Var → List RefId) (m : CodexMap) : CodexMap :=
  { m with
    index := m.index.mapValues fun id content => { content with constraint := constraints id }
    mem_slice := fun v => by
      rw [m.mem_slice, OrderedMap.contains, OrderedMap.contains, OrderedMap.get?_mapValues,
        Option.isSome_map] }

section

variable {σ : Type} [Readable σ] {s : σ}

/-- What probing leaves of a reference: its counter, and the cursor of one that has no counter. -/
def Reference.lasting (r : Reference) : Option Bytes × Option Cursor :=
  (r.countKey?, if r.countKey?.isSome then none else r.cursor)

def numberAt? (s : σ) (refs : List Reference) (rid : RefId) : Option Nat :=
  (refs[rid]?.map (·.lasting.1)).join.bind fun key => (readCount s key).toOption

theorem numberAt?_congr {refs refs' : List Reference}
    (h : refs'.map Reference.lasting = refs.map Reference.lasting) :
    numberAt? s refs' = numberAt? s refs := by
  funext rid
  have hat := congrArg (fun l => l[rid]?.map Prod.fst) h
  simp only [List.getElem?_map, Option.map_map] at hat
  exact congrArg (fun key => key.join.bind fun key => (readCount s key).toOption) hat

theorem probeReference_adds {id : Var} {stats stats' : Stats} {refs refs' : List Reference}
    {rid : RefId} (h : probeReference s id stats rid refs = (.ok stats', refs')) :
    refs'.map Reference.lasting = refs.map Reference.lasting ∧
      stats' = (numberAt? s refs rid).toList.foldl Stats.add stats := by
  obtain ⟨rfl, rfl, hnone⟩ | ⟨r, key, n, hr, hkey, hread, rfl, rfl⟩ := probeReference_ok_cases h
  · have hnumber : numberAt? s refs' rid = none := by
      cases hr : refs'[rid]? with
      | none => simp [numberAt?, hr]
      | some r => simp [numberAt?, Reference.lasting, hr, hnone r hr]
    rw [hnumber]
    exact ⟨rfl, rfl⟩
  · refine ⟨?_, by simp [numberAt?, Reference.lasting, hr, hkey, hread, Except.toOption]⟩
    obtain ⟨hlt, hget⟩ := List.getElem?_eq_some_iff.1 hr
    have hlt' : rid < (refs.map Reference.lasting).length := by simpa using hlt
    have hlasting : ({ r with cursor := some (.probed key n) } : Reference).lasting =
        (refs.map Reference.lasting)[rid] := by
      have hkey' : ({ r with cursor := some (.probed key n) } : Reference).countKey? = some key :=
        hkey
      rw [List.getElem_map, hget, Reference.lasting, Reference.lasting, hkey', hkey]
      rfl
    rw [List.map_set, hlasting, List.set_getElem_self]

theorem foldlM_probeReference_adds {id : Var} {rids : List RefId} {stats stats' : Stats}
    {refs refs' : List Reference}
    (h : rids.foldlM (probeReference s id) stats refs = (.ok stats', refs')) :
    refs'.map Reference.lasting = refs.map Reference.lasting ∧
      stats' = (rids.filterMap (numberAt? s refs)).foldl Stats.add stats := by
  induction rids generalizing stats refs with
  | nil =>
    cases h
    exact ⟨rfl, rfl⟩
  | cons rid rids ih =>
    rw [List.foldlM_cons] at h
    obtain ⟨_, _, hstep, hrest⟩ := Action.bind_eq_ok_iff.1 h
    obtain ⟨hkeys, hadds⟩ := probeReference_adds hstep
    obtain ⟨hkeys', hadds'⟩ := ih hrest
    refine ⟨hkeys'.trans hkeys, ?_⟩
    rw [hadds', hadds, numberAt?_congr hkeys, List.filterMap_cons]
    cases numberAt? s refs rid <;> rfl

def Codex.summed (number? : RefId → Option Nat) (x : Codex) : Codex :=
  { x with stats := (x.listing.filterMap number?).foldl Stats.add .zero }

/-- Every variable that is probed gets its sums. -/
theorem forM_probeVar_sums {ids : List Var} {m m' : CodexMap} (hn : ids.Nodup)
    (hids : ∀ id ∈ ids, id ∈ m.ids) (h : ids.forM (probeVar s) m = (.ok (), m')) :
    m'.references.map Reference.lasting = m.references.map Reference.lasting ∧ m'.ids = m.ids ∧
      ∀ v, m'.codex v = if v ∈ ids then (m.codex v).summed (numberAt? s m.references)
        else m.codex v := by
  induction ids generalizing m with
  | nil =>
    cases h
    exact ⟨rfl, rfl, fun v => by simp⟩
  | cons id ids ih =>
    obtain ⟨hid, hrest⟩ := List.nodup_cons.1 hn
    rw [Action.forM_cons] at h
    obtain ⟨_, m₁, hstep, hlast⟩ := Action.bind_eq_ok_iff.1 h
    obtain ⟨stats, references, hrun, rfl⟩ := probeVar_ok hstep
    obtain ⟨hkeys, hadds⟩ := foldlM_probeReference_adds hrun
    have hlater : ∀ v ∈ ids,
        v ∈ ({ m with references }.adjust id ({ · with stats })).ids :=
      fun v hv => hids v (List.mem_cons_of_mem _ hv)
    obtain ⟨hkeys', hids', hcodex⟩ := ih hrest hlater hlast
    have hnumbers : numberAt? s references = numberAt? s m.references := numberAt?_congr hkeys
    have hmem : id ∈ { m with references }.ids := hids id List.mem_cons_self
    refine ⟨hkeys'.trans hkeys, hids', fun v => ?_⟩
    have hother : v ≠ id →
        ({ m with references }.adjust id ({ · with stats })).codex v = m.codex v := by
      intro hv
      rw [codex_adjust hmem, if_neg hv]
      rfl
    rw [hcodex v]
    change (if v ∈ ids then (Codex.summed (numberAt? s references) _) else _) = _
    rw [hnumbers]
    by_cases hv : v = id
    · subst hv
      rw [if_neg hid, if_pos List.mem_cons_self, codex_adjust hmem, if_pos rfl, hadds,
        ← (m.codex v).listing_eq_probedRefs]
      rfl
    · rw [hother hv]
      simp [hv]

theorem probe_sums {m m' : CodexMap} (h : m.probe s = (.ok (), m')) :
    m'.references.map Reference.lasting = m.references.map Reference.lasting ∧
      m'.codexes = m.codexes.map (·.summed (numberAt? s m.references)) := by
  obtain ⟨-, m₁, hrun, rfl⟩ := probe_eq_ok h
  obtain ⟨hkeys, hids, hcodex⟩ := forM_probeVar_sums m.slice_nodup (fun _ hid => hid) hrun
  refine ⟨hkeys, ?_⟩
  change m₁.ids.map m₁.codex = (m.ids.map m.codex).map _
  rw [hids, List.map_map]
  exact List.map_congr_left fun v hv => (hcodex v).trans (if_pos hv)

theorem count?_congr {m m' : CodexMap}
    (h : m'.references.map (fun r => r.cursor.map (·.count)) =
      m.references.map fun r => r.cursor.map (·.count)) : m'.count? = m.count? := by
  have hjoin : ∀ (n : CodexMap) (rid : RefId),
      n.count? rid = (n.references.map fun r => r.cursor.map (·.count))[rid]?.join := by
    intro n rid
    rw [CodexMap.count?, List.getElem?_map]
    cases n.references[rid]? <;> rfl
  funext rid
  rw [hjoin, hjoin, h]

theorem count?_eq_numberAt? {m : CodexMap} {rid : RefId}
    (hkeyed : ∀ r ∈ m.references, r.cursor.isSome → r.countKey?.isSome)
    (h : MeasuredAt s m.references rid) : m.count? rid = numberAt? s m.references rid := by
  rw [numberAt?, CodexMap.count?]
  cases hr : m.references[rid]? with
  | none => rfl
  | some r =>
    cases hkey : r.countKey? with
    | none =>
      have hcursor : r.cursor = none := by
        refine Option.not_isSome_iff_eq_none.1 fun hcursor => ?_
        have hsome := hkeyed r (List.mem_of_getElem? hr) hcursor
        rw [hkey] at hsome
        cases hsome
      simp [Reference.lasting, hkey, hcursor]
    | some key =>
      obtain ⟨cursor, hcursor, hread⟩ := h r key hr hkey
      simp [Reference.lasting, hkey, hcursor, hread, Except.toOption]

theorem adjust_constrain (constraints : Var → List RefId) (m : CodexMap) (id : Var)
    (stats : Stats) : (m.constrain constraints).adjust id ({ · with stats }) =
      (m.adjust id ({ · with stats })).constrain constraints := by
  have hindex := OrderedMap.modify_mapValues
    (f := fun id (content : Codex.Content) => { content with constraint := constraints id })
    (g := ({ · with stats })) (fun _ _ => rfl) m.index id
  simp only [adjust, constrain, hindex]

theorem probeVar_constrain (constraints : Var → List RefId) (id : Var) (m : CodexMap) :
    probeVar s id (m.constrain constraints) =
      ((probeVar s id m).1, (probeVar s id m).2.constrain constraints) := by
  have hlisted : ((m.constrain constraints).codex id).probedRefs = (m.codex id).probedRefs := by
    rw [codex, constrain, OrderedMap.get?_mapValues, codex]
    cases m.index.get? id <;> rfl
  have hrefs : (m.constrain constraints).references = m.references := rfl
  rw [probeVar, probeVar, hlisted, hrefs]
  obtain ⟨result, references⟩ :=
    (m.codex id).probedRefs.foldlM (probeReference s id) .zero m.references
  cases result with
  | error e => rfl
  | ok stats =>
    exact Prod.ext rfl (adjust_constrain constraints { m with references } id stats)

theorem CodexMap.probe_constrain (constraints : Var → List RefId) (m : CodexMap) (s : σ) :
    (m.constrain constraints).probe s = ((m.probe s).1, (m.probe s).2.constrain constraints) := by
  have hrun := Action.forM_comm (probeVar_constrain (s := s) constraints) m.ids m
  have hprobed : (m.constrain constraints).probed = m.probed := rfl
  have hids : (m.constrain constraints).ids = m.ids := rfl
  rw [CodexMap.probe, CodexMap.probe, hprobed, probeAll_eq, probeAll_eq, hids, hrun]
  split
  · rfl
  · obtain ⟨result, m'⟩ := m.ids.forM (probeVar s) m
    cases result <;> rfl

end

/-- The sums of a probed map are those of its cursors, and only counters have cursors. -/
structure CodexMap.Summed (m : CodexMap) : Prop where
  cursors : ∀ r ∈ m.references, r.cursor.isSome → m.probed = true ∧ r.countKey?.isSome
  sums : m.probed = true → ∀ x ∈ m.codexes, x.stats = (x.counts m).foldl Stats.add .zero

namespace CodexMap.Summed

variable {m : CodexMap}

theorem of_idle (hm : m.probed = false) (h : ∀ r ∈ m.references, r.cursor = none) :
    Summed m := by
  refine ⟨fun r hr hcursor => ?_, fun hprobed => ?_⟩
  · rw [h r hr] at hcursor
    cases hcursor
  · rw [hm] at hprobed
    cases hprobed

theorem close (m : CodexMap) : Summed m.close := by
  refine of_idle rfl fun r hr => ?_
  obtain ⟨r, -, rfl⟩ := List.mem_map.1 hr
  rfl

theorem probed {σ : Type} [Readable σ] {s : σ} {m' : CodexMap} (h : Summed m)
    (hrun : m.probe s = (.ok (), m')) : Summed m' := by
  obtain ⟨hm, _, -, hm'⟩ := probe_eq_ok hrun
  have hprobed : m'.probed = true := congrArg (·.probed) hm'
  have hmeasured := Measured.probe hrun
  obtain ⟨hlasting, hsums⟩ := probe_sums hrun
  -- A cursor beside no counter would be from before the probe, when there was none.
  have hkeyed : ∀ r ∈ m'.references, r.cursor.isSome → r.countKey?.isSome := by
    intro r hr hcursor
    by_contra hkey
    have hmem := List.mem_map_of_mem (f := Reference.lasting) hr
    rw [hlasting] at hmem
    obtain ⟨r', hr', heq⟩ := List.mem_map.1 hmem
    obtain ⟨hkey', hcursor'⟩ := Prod.mk.inj heq
    rw [hkey', if_neg hkey, if_neg hkey] at hcursor'
    have hbefore := (h.cursors r' hr' (hcursor' ▸ hcursor)).1
    rw [hm] at hbefore
    cases hbefore
  refine ⟨fun r hr hcursor => ⟨hprobed, hkeyed r hr hcursor⟩, fun _ x hx => ?_⟩
  have hcounts : x.listing.filterMap (numberAt? s m'.references) = x.counts m' := by
    refine List.filterMap_congr fun rid hrid => ?_
    rw [x.listing_eq_probedRefs] at hrid
    exact (count?_eq_numberAt? hkeyed (hmeasured rid (List.mem_flatMap.2 ⟨x, hx, hrid⟩))).symm
  rw [← hcounts, numberAt?_congr hlasting]
  rw [hsums] at hx
  obtain ⟨c, -, rfl⟩ := List.mem_map.1 hx
  rfl

theorem sort (h : Summed m) (order : VariableOrder) : Summed (m.sort order) :=
  ⟨h.cursors, fun hprobed x hx => h.sums hprobed x ((m.codexes_sort_perm order).mem_iff.1 hx)⟩

theorem mark (h : Summed m) (marks : List Past.Mark) :
    Summed { m with references := Past.markAll marks m.references } := by
  have hcount := Past.map_markAll (g := fun r => r.cursor.map (·.count))
    (fun dep offset r => by simp [Past.mark, Function.comp_def]) marks m.references
  refine ⟨fun r hr hcursor => ?_, fun hprobed x hx => ?_⟩
  · obtain ⟨j, hj⟩ := List.mem_iff_getElem?.1 hr
    obtain ⟨r', hr', hkey, -, hsame⟩ := Past.exists_unmarked hj
    rw [← hkey]
    exact h.cursors r' (List.mem_of_getElem? hr') (hsame.trans hcursor)
  · rw [Codex.counts, count?_congr hcount]
    exact h.sums hprobed x hx

theorem step (h : Summed m) (call : Call) : Summed (m.step call) := by
  cases call with
  | probe s =>
    rw [CodexMap.step]
    obtain ⟨-, hrun⟩ | ⟨-, e, m', -, hrun⟩ | ⟨-, m', hrun⟩ := probe_cases m s
    · rwa [hrun]
    · rw [hrun]
      exact close _
    · rw [hrun]
      exact h.probed hrun
  | sort order => exact h.sort order
  | build config s =>
    rw [CodexMap.step]
    obtain ⟨-, hrun⟩ | ⟨-, e, hrun⟩ | ⟨-, assigned, -, hrun⟩ :=
      build_cases m config.requireValueRoot s
    · rwa [hrun]
    · rw [hrun]
      exact close m
    · rw [hrun]
      exact h.mark _
  | close => exact close m

theorem run (h : Summed m) (calls : List Call) : Summed (m.run calls) := by
  induction calls generalizing m with
  | nil => exact h
  | cons call calls ih => exact ih (h.step call)

end CodexMap.Summed

/-- Whatever calls were made on a map that began without cursors: once it is probed each variable
has the sums over the cursors of its single and double references, each cut off once. With other
lists of constraints every probe ends the same way, and leaves the same map but for these lists. In
the map of a classified pattern all single and double references have cursors, and no constraint has
one. -/
theorem stats_clamped (m : CodexMap) (hm : m.probed = false)
    (hidle : ∀ r ∈ m.references, r.cursor = none) (calls : List Call) :
    ((m.run calls).probed = true → ∀ x ∈ (m.run calls).codexes, x.Sums (m.run calls)) ∧
    (∀ constraints {σ : Type} [Readable σ] (s : σ),
      ((m.run calls).constrain constraints).probe s =
        (((m.run calls).probe s).1, ((m.run calls).probe s).2.constrain constraints)) ∧
    ∀ pattern c, classify pattern = .ok c → m = c.codexMap → (m.run calls).probed = true →
      ∀ x ∈ (m.run calls).codexes, x.stats.length = x.listing.length ∧
        (∀ rid ∈ x.listing, ((m.run calls).count? rid).isSome) ∧
        ∀ rid ∈ x.constraint, (m.run calls).count? rid = none := by
  have hrun := (Summed.of_idle hm hidle).run calls
  refine ⟨fun hprobed x hx => Codex.sums_of_eq (hrun.sums hprobed x hx), ?_, ?_⟩
  · intro constraints σ _ s
    exact probe_constrain constraints (m.run calls) s
  · rintro pattern c hc rfl hprobed x hx
    obtain ⟨-, hd, -⟩ := classify_ok hc
    obtain ⟨hcursors, hconstraint⟩ := (intact_run hc calls).armed hd.waiting hprobed x hx
    have hcounted : ∀ rid ∈ x.listing, ((c.codexMap.run calls).count? rid).isSome := by
      intro rid hrid
      rw [x.listing_eq_probedRefs] at hrid
      obtain ⟨r, hr, hcursor⟩ := hcursors rid hrid
      simpa [CodexMap.count?, hr] using hcursor
    refine ⟨?_, hcounted, fun rid hrid => ?_⟩
    · rw [(Codex.sums_of_eq (hrun.sums hprobed x hx)).length]
      exact List.filterMap_length_eq_length.2 hcounted
    · obtain ⟨r, hr, hcursor⟩ := hconstraint rid hrid
      simp [CodexMap.count?, hr, hcursor]

def heavyPattern : Dataset := .ofStatements
  [⟨.var ⟨"x"⟩, .node (.iri "p"), .node (.iri "o")⟩,
    ⟨.var ⟨"x"⟩, .node (.iri "q"), .node (.iri "o")⟩,
    ⟨.var ⟨"x"⟩, .node (.iri "q"), .var ⟨"y"⟩⟩, ⟨.var ⟨"x"⟩, .node (.iri "p"), .var ⟨"x"⟩⟩]

def heavyStore : Store := .ofList
  [(Key.minorKey .subject (.iri "p") (.iri "o"), Key.encodeCount (maxCount - 1)),
    (Key.minorKey .subject (.iri "q") (.iri "o"), Key.encodeCount 3),
    (Key.majorKey .predicate (.iri "q"), Key.encodeCount 5)]

theorem stats_clamped_heavy : ∃ c x, classify heavyPattern = .ok c ∧
    (c.codexMap.run [.probe heavyStore, .sort .ascendingCount]).codexes[1]? = some x ∧
    x.counts (c.codexMap.run [.probe heavyStore, .sort .ascendingCount]) = [maxCount - 1, 3, 5] ∧
    x.stats = ⟨maxCount, maxCount, 3⟩ ∧
    x.Sums (c.codexMap.run [.probe heavyStore, .sort .ascendingCount]) := by
  have hend : ((classify heavyPattern).map fun c =>
      let m := c.codexMap.run [.probe heavyStore, .sort .ascendingCount]
      (m.probed, m.codexes[1]?.map fun x => (x.counts m, x.stats))) =
      .ok (true, some ([maxCount - 1, 3, 5], ⟨maxCount, maxCount, 3⟩)) := by
    decide +kernel
  obtain ⟨c, hc, hend⟩ := map_eq_ok_iff.1 hend
  obtain ⟨hprobed, hcodex⟩ := Prod.mk.inj hend
  obtain ⟨x, hx, heq⟩ := Option.map_eq_some_iff.1 hcodex
  obtain ⟨hcounts, hstats⟩ := Prod.mk.inj heq
  obtain ⟨-, hd, -⟩ := classify_ok hc
  refine ⟨c, x, hc, hx, hcounts, hstats, ?_⟩
  exact (stats_clamped c.codexMap hd.waiting.probed hd.waiting.idle _).1 hprobed x
    (List.mem_of_getElem? hx)

end TriplePlan
