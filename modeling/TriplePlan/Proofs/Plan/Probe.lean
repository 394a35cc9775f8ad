import Mathlib.Data.List.Flatten
import TriplePlan.Proofs.Action
import TriplePlan.Proofs.Except
import TriplePlan.Proofs.Plan.Classify

/-! Probing attaches a cursor to every single and double reference, with the number behind its
counter, and stops at the first one that cannot be read or is zero. It finds each reference as it
was filed, since none is listed twice; where it stops, the cursors until then are released again. -/
namespace TriplePlan

open CodexMap

/-- A probed reference, with the number behind its counter. -/
def Reference.withCount (n : Nat) (r : Reference) : Reference :=
  { r with cursor := r.countKey?.map (Cursor.probed · n) }

/-- The reference is there with a counter, and not yet probed. -/
def Pending (refs : List Reference) (rid : RefId) : Prop :=
  ∃ r, refs[rid]? = some r ∧ r.cursor = none ∧ r.countKey?.isSome

section

variable {σ : Type} [Readable σ] {s : σ}

/-- The number behind the counter of a reference; zero if there is none that can be read. -/
def Reference.number (s : σ) (r : Reference) : Nat :=
  (r.countKey?.bind fun key => (readCount s key).toOption).getD 0

def numberAt (s : σ) (refs : List Reference) (rid : RefId) : Nat := refs[rid]?.elim 0 (·.number s)

/-- Why a reference of a variable cannot be probed: its counter is not read, or it is zero. -/
inductive Reference.Refused (s : σ) (id : Var) (r : Reference) : PlanError → Prop
  | unread {key : Bytes} {cause : StoreError} (hkey : r.countKey? = some key)
    (hread : readCount s key = .error cause) : Refused s id r (.store cause)
  | zero {key : Bytes} (hkey : r.countKey? = some key) (hread : readCount s key = .ok 0) :
    Refused s id r (.zeroCandidates id r.graph r.index r.permutation)

theorem Reference.Refused.of_read {id : Var} {r : Reference} {e : PlanError} {key : Bytes} {n : Nat}
    (h : r.Refused s id e) (hkey : r.countKey? = some key) (hread : readCount s key = .ok n) :
    n = 0 ∧ e = .zeroCandidates id r.graph r.index r.permutation := by
  cases h with
  | unread hkey' hread' =>
    obtain rfl := Option.some.inj (hkey.symm.trans hkey')
    rw [hread] at hread'
    cases hread'
  | zero hkey' hread' =>
    obtain rfl := Option.some.inj (hkey.symm.trans hkey')
    exact ⟨Except.ok.inj (hread.symm.trans hread'), rfl⟩

theorem Reference.number_eq {r : Reference} {key : Bytes} {n : Nat} (hkey : r.countKey? = some key)
    (hread : readCount s key = .ok n) : r.number s = n := by
  simp [number, hkey, hread, Except.toOption]

theorem Reference.exists_key_of_number {r : Reference} (h : r.number s ≠ 0) :
    ∃ key, r.countKey? = some key ∧ readCount s key = .ok (r.number s) := by
  cases hkey : r.countKey? with
  | none => simp [number, hkey] at h
  | some key =>
    cases hread : readCount s key with
    | error e => simp [number, hkey, hread, Except.toOption] at h
    | ok n => exact ⟨key, rfl, by rw [number_eq hkey hread, hread]⟩

theorem numberAt_eq {refs : List Reference} {rid : RefId} {r : Reference}
    (hget : refs[rid]? = some r) : numberAt s refs rid = r.number s := by
  simp [numberAt, hget]

/-- Of listed references the first one that is refused, and why. -/
def Stops (s : σ) (refs : List Reference) (listed : List (Var × RefId)) (e : PlanError) : Prop :=
  ∃ before v rid after r, listed = before ++ (v, rid) :: after ∧
    (∀ b ∈ before, numberAt s refs b.2 ≠ 0) ∧ refs[rid]? = some r ∧ r.Refused s v e

namespace Stops

variable {refs refs' : List Reference} {l l' : List (Var × RefId)} {e : PlanError}

theorem append_right (h : Stops s refs l e) (l' : List (Var × RefId)) :
    Stops s refs (l ++ l') e := by
  obtain ⟨before, v, rid, after, r, rfl, h⟩ := h
  exact ⟨before, v, rid, after ++ l', r, by simp, h⟩

theorem append_left (h : Stops s refs l' e) (hl : ∀ b ∈ l, numberAt s refs b.2 ≠ 0) :
    Stops s refs (l ++ l') e := by
  obtain ⟨before, v, rid, after, r, rfl, hbefore, h⟩ := h
  refine ⟨l ++ before, v, rid, after, r, by simp, fun b hb => ?_, h⟩
  exact (List.mem_append.1 hb).elim (hl b) (hbefore b)

theorem congr (h : Stops s refs l e) (hrefs : ∀ b ∈ l, refs[b.2]? = refs'[b.2]?) :
    Stops s refs' l e := by
  obtain ⟨before, v, rid, after, r, rfl, hbefore, hget, h⟩ := h
  refine ⟨before, v, rid, after, r, rfl, fun b hb => ?_, ?_, h⟩
  · rw [numberAt, ← hrefs b (List.mem_append_left _ hb)]
    exact hbefore b hb
  · rw [← hrefs (v, rid) (by simp), hget]

end Stops

/-- The references at these places got a cursor with the number behind their counter. All others are
as they were. -/
def AttachedAt (s : σ) (rids : List RefId) (refs refs' : List Reference) : Prop :=
  ∀ j : RefId, refs'[j]? =
    if j ∈ rids then refs[j]?.map (·.withCount (numberAt s refs j)) else refs[j]?

namespace AttachedAt

variable {refs refs₁ refs₂ : List Reference} {l l' : List RefId} {j : RefId}

theorem nil (s : σ) (refs : List Reference) : AttachedAt s [] refs refs := by
  simp [AttachedAt]

theorem singleton {r : Reference} (hget : refs[j]? = some r) :
    AttachedAt s [j] refs (refs.set j (r.withCount (r.number s))) := by
  intro i
  by_cases hi : i = j
  · subst hi
    have hlt := (List.getElem?_eq_some_iff.1 hget).1
    simp [hget, List.getElem?_set_self hlt, numberAt_eq hget]
  · simp [hi, List.getElem?_set_ne (Ne.symm hi)]

theorem getElem?_eq (h : AttachedAt s l refs refs₁) (hj : j ∉ l) : refs₁[j]? = refs[j]? := by
  rw [h j, if_neg hj]

theorem numberAt_eq (h : AttachedAt s l refs refs₁) (hj : j ∉ l) :
    numberAt s refs₁ j = numberAt s refs j := by
  rw [numberAt, numberAt, h.getElem?_eq hj]

theorem pending (h : AttachedAt s l refs refs₁) (hj : j ∉ l) (hp : Pending refs j) :
    Pending refs₁ j := by
  rwa [Pending, h.getElem?_eq hj]

theorem stops (h : AttachedAt s l refs refs₁) {later : List (Var × RefId)} {e : PlanError}
    (hl : ∀ b ∈ later, b.2 ∉ l) (hs : Stops s refs₁ later e) : Stops s refs later e :=
  hs.congr fun b hb => h.getElem?_eq (hl b hb)

theorem append (h : AttachedAt s l refs refs₁) (h' : AttachedAt s l' refs₁ refs₂)
    (hd : ∀ j ∈ l', j ∉ l) : AttachedAt s (l ++ l') refs refs₂ := by
  intro j
  rw [h' j]
  by_cases hj : j ∈ l'
  · simp [hj, h.getElem?_eq (hd j hj), h.numberAt_eq (hd j hj)]
  · simp [hj, h j]

end AttachedAt

/-- How the probe of one reference ends. It is passed over without a counter, or refused before
anything is attached, or gets its cursor, whether or not there is anything to count. -/
inductive Steps (s : σ) (id : Var) (stats : Stats) (refs : List Reference) (rid : RefId) :
    Except PlanError Stats × List Reference → Prop
  | passed (hnone : ∀ r, refs[rid]? = some r → r.countKey? = none) :
    Steps s id stats refs rid (.ok stats, refs)
  | unread {r : Reference} {key : Bytes} {cause : StoreError} (hget : refs[rid]? = some r)
    (hkey : r.countKey? = some key) (hread : readCount s key = .error cause) :
    Steps s id stats refs rid (.error (.store cause), refs)
  | again {r : Reference} (hget : refs[rid]? = some r) (hcursor : r.cursor ≠ none) :
    Steps s id stats refs rid (.error .alreadyProbed, refs)
  | attached {r : Reference} {key : Bytes} {n : Nat} (hget : refs[rid]? = some r)
    (hkey : r.countKey? = some key) (hread : readCount s key = .ok n) :
    Steps s id stats refs rid
      (if n = 0 then .error (.zeroCandidates id r.graph r.index r.permutation)
        else .ok (stats.add n), refs.set rid { r with cursor := some (.probed key n) })

theorem probeReference_steps (s : σ) (id : Var) (stats : Stats) (refs : List Reference)
    (rid : RefId) : Steps s id stats refs rid (probeReference s id stats rid refs) := by
  rw [probeReference, Action.bind_ok (Action.get_apply refs)]
  cases hget : refs[rid]? with
  | none =>
    have hnone : ∀ r, refs[rid]? = some r → r.countKey? = none := by simp [hget]
    exact .passed hnone
  | some r =>
    dsimp only
    cases hkey : r.countKey? with
    | none =>
      have hnone : ∀ r, refs[rid]? = some r → r.countKey? = none := by simp [hget, hkey]
      exact .passed hnone
    | some key =>
      dsimp only
      cases hread : readCount s key with
      | error cause => exact .unread hget hkey hread
      | ok n =>
        have hcount : (Except.ok n : Except StoreError Nat).mapError PlanError.store = .ok n := rfl
        rw [Action.lift_bind_ok hcount, Reference.attach]
        split
        · rename_i hcursor
          exact .again hget (Option.isSome_iff_ne_none.1 hcursor)
        · have hattached : Steps s id stats refs rid _ := .attached hget hkey hread
          by_cases hn : n = 0
          · rw [if_pos hn] at hattached ⊢
            exact hattached
          · rw [if_neg hn] at hattached ⊢
            exact hattached

theorem probeReference_cases {refs : List Reference} {rid : RefId} {r : Reference}
    (hget : refs[rid]? = some r) (hidle : r.cursor = none) (hkey : r.countKey?.isSome) (id : Var)
    (stats : Stats) :
    (∃ e refs', r.Refused s id e ∧ probeReference s id stats rid refs = (.error e, refs')) ∨
    (r.number s ≠ 0 ∧ probeReference s id stats rid refs =
      (.ok (stats.add (r.number s)), refs.set rid (r.withCount (r.number s)))) := by
  have hsteps := probeReference_steps s id stats refs rid
  generalize probeReference s id stats rid refs = out at hsteps ⊢
  cases hsteps with
  | passed hnone =>
    rw [hnone r hget] at hkey
    cases hkey
  | unread hget' hkey hread =>
    cases hget.symm.trans hget'
    exact .inl ⟨_, _, .unread hkey hread, rfl⟩
  | again hget' hcursor =>
    cases hget.symm.trans hget'
    exact absurd hidle hcursor
  | attached hget' hkey hread =>
    cases hget.symm.trans hget'
    obtain rfl := Reference.number_eq hkey hread
    by_cases hn : r.number s = 0
    · exact .inl ⟨_, _, .zero hkey (hn ▸ hread), by rw [if_pos hn]⟩
    · refine .inr ⟨hn, ?_⟩
      rw [if_neg hn, Reference.withCount, hkey, Option.map_some]

/-- Either probing stops at the first reference that is refused, or every listed reference gets its
cursor. -/
theorem foldlM_probeReference {rids : List RefId} (hn : rids.Nodup) {refs : List Reference}
    (h : ∀ rid ∈ rids, Pending refs rid) (id : Var) (stats : Stats) :
    (∃ e refs', Stops s refs (rids.map (id, ·)) e ∧
      rids.foldlM (probeReference s id) stats refs = (.error e, refs')) ∨
    ((∀ rid ∈ rids, numberAt s refs rid ≠ 0) ∧ ∃ refs',
      rids.foldlM (probeReference s id) stats refs =
        (.ok (rids.foldl (fun sum rid => sum.add (numberAt s refs rid)) stats), refs') ∧
      AttachedAt s rids refs refs') := by
  induction rids generalizing refs stats with
  | nil => exact .inr ⟨by simp, refs, rfl, .nil s refs⟩
  | cons rid rids ih =>
    obtain ⟨hrid, hrest⟩ := List.nodup_cons.1 hn
    obtain ⟨r, hget, hidle, hkey⟩ := h rid List.mem_cons_self
    have hnumber := numberAt_eq (s := s) hget
    rw [List.foldlM_cons]
    obtain ⟨e, refs', hrefused, herr⟩ | ⟨hnz, hok⟩ :=
      probeReference_cases (s := s) hget hidle hkey id stats
    · exact .inl ⟨e, refs', ⟨[], id, rid, _, r, rfl, nofun, hget, hrefused⟩,
        Action.bind_error herr⟩
    · rw [Action.bind_ok hok]
      have hset := AttachedAt.singleton (s := s) hget
      -- No reference is listed twice, so those still to come are as they were filed.
      have hlater : ∀ j ∈ rids, j ∉ [rid] := by
        intro j hj hmem
        exact hrid (List.mem_singleton.1 hmem ▸ hj)
      have hnumbers : ∀ j ∈ rids,
          numberAt s (refs.set rid (r.withCount (r.number s))) j = numberAt s refs j :=
        fun j hj => hset.numberAt_eq (hlater j hj)
      obtain ⟨e, refs', hstops, herr⟩ | ⟨hnz', refs', hok', hrefs⟩ := ih hrest
        (fun j hj => hset.pending (hlater j hj) (h j (List.mem_cons_of_mem _ hj)))
        (stats.add (r.number s))
      · have hback : Stops s refs (rids.map (id, ·)) e :=
          hset.stops (List.forall_mem_map.2 hlater) hstops
        exact .inl ⟨e, refs', hback.append_left (l := [(id, rid)]) (by simp [hnumber, hnz]), herr⟩
      · refine .inr ⟨?_, refs', ?_, hset.append hrefs hlater⟩
        · refine List.forall_mem_cons.2 ⟨by rwa [hnumber], fun j hj => ?_⟩
          rw [← hnumbers j hj]
          exact hnz' j hj
        · rw [List.foldl_cons, hnumber]
          refine hok'.trans ?_
          rw [List.foldl_ext _ _ _ fun sum j hj => by rw [hnumbers j hj]]

def Codex.bare (c : Codex) : Codex := { c with stats := .zero }

def Codex.counted (count : RefId → Nat) (c : Codex) : Codex :=
  { c with stats := c.probedRefs.foldl (fun sum rid => sum.add (count rid)) .zero }

theorem map_bare_counted (codexes : List Codex) (count : RefId → Nat) :
    (codexes.map (·.counted count)).map Codex.bare = codexes.map Codex.bare :=
  List.map_map

theorem Covers.bare_iff {filed : List Filing} {codexes : List Codex} :
    Covers filed (codexes.map Codex.bare) ↔ Covers filed codexes := by
  have hids : (codexes.map Codex.bare).map (·.id) = codexes.map (·.id) := List.map_map
  have hgroup : ∀ c shape, (Codex.bare c).group shape = c.group shape := by
    intro c shape
    cases shape <;> rfl
  constructor
  · intro h
    refine ⟨hids ▸ h.nodup, hids ▸ h.mem_ids, fun c hc shape => ?_,
      fun c hc => h.filled c.bare (List.mem_map_of_mem hc)⟩
    rw [← hgroup]
    exact h.group c.bare (List.mem_map_of_mem hc) shape
  · intro h
    refine ⟨hids ▸ h.nodup, hids ▸ h.mem_ids, fun c hc shape => ?_, fun c hc => ?_⟩
    · obtain ⟨b, hb, rfl⟩ := List.mem_map.1 hc
      rw [hgroup]
      exact h.group b hb shape
    · obtain ⟨b, hb, rfl⟩ := List.mem_map.1 hc
      exact h.filled b hb

theorem Covers.congr {filed : List Filing} {codexes codexes' : List Codex}
    (h : Covers filed codexes) (hp : (codexes'.map Codex.bare).Perm (codexes.map Codex.bare)) :
    Covers filed codexes' :=
  bare_iff.1 (perm (bare_iff.2 h) hp)

theorem Covers.counted {filed : List Filing} {codexes : List Codex} (h : Covers filed codexes)
    (count : RefId → Nat) :
    Covers filed (codexes.map (·.counted count)) :=
  h.congr (.of_eq (map_bare_counted codexes count))

/-- The references that are probed, each with its variable, in the order they are probed. -/
def listed (codexes : List Codex) : List (Var × RefId) :=
  codexes.flatMap fun c => c.probedRefs.map (c.id, ·)

theorem map_snd_listed (codexes : List Codex) :
    (listed codexes).map (·.2) = codexes.flatMap Codex.probedRefs := by
  simp [listed, List.map_flatMap, Function.comp_def]

theorem Codex.counted_congr {count count' : RefId → Nat} {c : Codex}
    (h : ∀ rid ∈ c.probedRefs, count rid = count' rid) : c.counted count = c.counted count' := by
  have hsum : c.probedRefs.foldl (fun sum rid => sum.add (count rid)) Stats.zero =
      c.probedRefs.foldl (fun sum rid => sum.add (count' rid)) Stats.zero :=
    List.foldl_ext _ _ _ fun sum rid hrid => by rw [h rid hrid]
  rw [Codex.counted, hsum]
  rfl

theorem map_counted_congr {count count' : RefId → Nat} {codexes : List Codex}
    (h : ∀ rid ∈ codexes.flatMap Codex.probedRefs, count rid = count' rid) :
    codexes.map (·.counted count) = codexes.map (·.counted count') :=
  List.map_congr_left fun c hc => Codex.counted_congr fun rid hrid =>
    h rid (List.mem_flatMap.2 ⟨c, hc, hrid⟩)

/-- The references of these codexes got their cursors, and the codexes their sums. All others are as
they were. -/
structure Visited (s : σ) (codexes : List Codex) (m m' : CodexMap) : Prop where
  references : AttachedAt s (codexes.flatMap Codex.probedRefs) m.references m'.references
  ids : m'.ids = m.ids
  sums : ∀ c ∈ codexes, m'.codex c.id = c.counted (numberAt s m.references)
  others : ∀ v ∉ codexes.map (·.id), m'.codex v = m.codex v

namespace Visited

variable {m m₁ m₂ : CodexMap} {c : Codex} {codexes : List Codex}

theorem nil (s : σ) (m : CodexMap) : Visited s [] m m :=
  ⟨.nil s _, rfl, by simp, fun _ _ => rfl⟩

theorem references_first (h : Visited s [c] m m₁) :
    AttachedAt s c.probedRefs m.references m₁.references := by
  have hrefs := h.references
  rwa [List.flatMap_singleton] at hrefs

theorem codex_eq (h : Visited s [c] m m₁) {v : Var} (hv : v ≠ c.id) : m₁.codex v = m.codex v :=
  h.others v (by simpa using hv)

theorem cons (h : Visited s [c] m m₁) (h' : Visited s codexes m₁ m₂)
    (hid : c.id ∉ codexes.map (·.id))
    (hlater : ∀ j ∈ codexes.flatMap Codex.probedRefs, j ∉ c.probedRefs) :
    Visited s (c :: codexes) m m₂ := by
  refine ⟨h.references_first.append h'.references hlater, h'.ids.trans h.ids, fun c' hc' => ?_,
    fun v hv => ?_⟩
  · cases hc' with
    | head => rw [h'.others c.id hid, h.sums c List.mem_cons_self]
    | tail _ hc' =>
      rw [h'.sums c' hc']
      exact Codex.counted_congr fun rid hrid =>
        h.references_first.numberAt_eq (hlater rid (List.mem_flatMap.2 ⟨c', hc', hrid⟩))
  · rw [List.map_cons, List.mem_cons, not_or] at hv
    rw [h'.others v hv.2, h.codex_eq hv.1]

end Visited

theorem probeVar_cases {m : CodexMap} (id : Var) (hn : (m.codex id).probedRefs.Nodup)
    (h : ∀ rid ∈ (m.codex id).probedRefs, Pending m.references rid) (hid : id ∈ m.ids) :
    (∃ e m', Stops s m.references ((m.codex id).probedRefs.map (id, ·)) e ∧
      probeVar s id m = (.error e, m')) ∨
    ((∀ rid ∈ (m.codex id).probedRefs, numberAt s m.references rid ≠ 0) ∧ ∃ m',
      probeVar s id m = (.ok (), m') ∧ Visited s [m.codex id] m m') := by
  obtain ⟨e, refs', hstops, herr⟩ | ⟨hnz, refs', hok, hrefs⟩ :=
    foldlM_probeReference (s := s) hn h id .zero
  · exact .inl ⟨e, _, hstops, by rw [probeVar, herr]⟩
  · have hid' : id ∈ { m with references := refs' }.ids := hid
    refine .inr ⟨hnz, { m with references := refs' }.adjust id ({ · with
      stats := (m.codex id).probedRefs.foldl (fun sum rid => sum.add (numberAt s m.references rid))
        .zero }), by rw [probeVar, hok], ?_, rfl, fun c hc => ?_, fun v hv => ?_⟩
    · rwa [List.flatMap_singleton]
    · obtain rfl := List.mem_singleton.1 hc
      exact (codex_adjust hid').trans (if_pos rfl)
    · have hne : v ≠ id := by simpa [codex] using hv
      exact (codex_adjust hid').trans (if_neg hne)

/-- Variables are probed in turn, up to a reference that is refused. -/
theorem forM_probeVar_cases {codexes : List Codex} {m : CodexMap}
    (hcodexes : ∀ c ∈ codexes, c.id ∈ m.ids ∧ m.codex c.id = c)
    (hids : (codexes.map (·.id)).Nodup) (hn : (codexes.flatMap Codex.probedRefs).Nodup)
    (h : ∀ rid ∈ codexes.flatMap Codex.probedRefs, Pending m.references rid) :
    (∃ e m', Stops s m.references (listed codexes) e ∧
      (codexes.map (·.id)).forM (probeVar s) m = (.error e, m')) ∨
    ((∀ rid ∈ codexes.flatMap Codex.probedRefs, numberAt s m.references rid ≠ 0) ∧ ∃ m',
      (codexes.map (·.id)).forM (probeVar s) m = (.ok (), m') ∧ Visited s codexes m m') := by
  induction codexes generalizing m with
  | nil => exact .inr ⟨by simp, m, rfl, .nil s m⟩
  | cons c codexes ih =>
    have hlisted : listed (c :: codexes) = c.probedRefs.map (c.id, ·) ++ listed codexes := rfl
    rw [List.flatMap_cons] at hn h ⊢
    rw [List.map_cons, List.nodup_cons] at hids
    rw [List.map_cons, Action.forM_cons]
    obtain ⟨hfirst, hrest, hdisj⟩ := List.nodup_append.1 hn
    obtain ⟨hid, hc⟩ := hcodexes c List.mem_cons_self
    have hprobe := probeVar_cases (s := s) c.id (hc.symm ▸ hfirst)
      (fun rid hrid => h rid (List.mem_append_left _ (hc ▸ hrid))) hid
    rw [hc] at hprobe
    obtain ⟨e, m', hstops, herr⟩ | ⟨hnz, m₁, hok, hvisited⟩ := hprobe
    · exact .inl ⟨e, m', hstops.append_right _, Action.bind_error herr⟩
    · rw [Action.bind_ok hok]
      have hlater : ∀ j ∈ codexes.flatMap Codex.probedRefs, j ∉ c.probedRefs :=
        fun j hj hmem => hdisj j hmem j hj rfl
      have hrefs := hvisited.references_first
      have hcodexes₁ : ∀ c' ∈ codexes, c'.id ∈ m₁.ids ∧ m₁.codex c'.id = c' := by
        intro c' hc'
        have hne : c'.id ≠ c.id := fun heq => hids.1 (heq ▸ List.mem_map_of_mem hc')
        rw [hvisited.ids, hvisited.codex_eq hne]
        exact hcodexes c' (List.mem_cons_of_mem _ hc')
      obtain ⟨e, m', hstops, herr⟩ | ⟨hnz', m₂, hok₂, hvisited₂⟩ := ih hcodexes₁ hids.2 hrest
        fun j hj => hrefs.pending (hlater j hj) (h j (List.mem_append_right _ hj))
      · have hback : Stops s m.references (listed codexes) e := by
          refine hrefs.stops (fun b hb => hlater b.2 ?_) hstops
          rw [← map_snd_listed]
          exact List.mem_map_of_mem hb
        exact .inl ⟨e, m', hlisted ▸ hback.append_left (List.forall_mem_map.2 hnz), herr⟩
      · refine .inr ⟨fun rid hrid => (List.mem_append.1 hrid).elim (hnz rid) fun hrid => ?_,
          m₂, hok₂, hvisited.cons hvisited₂ hids.1 hlater⟩
        rw [← hrefs.numberAt_eq (hlater rid hrid)]
        exact hnz' rid hrid

/-- Nothing of a map but cursors and sums is different. -/
structure CodexMap.Similar (m m' : CodexMap) : Prop where
  references : m'.references.map Reference.release = m.references.map Reference.release
  codexes : m'.codexes.map Codex.bare = m.codexes.map Codex.bare
  probed : m'.probed = m.probed

theorem release_set {refs : List Reference} {rid : RefId} {r r' : Reference}
    (hget : refs[rid]? = some r) (hr : r'.release = r.release) :
    (refs.set rid r').map Reference.release = refs.map Reference.release := by
  refine List.ext_getElem? fun j => ?_
  rw [List.getElem?_map, List.getElem?_map, List.getElem?_set]
  split
  · rename_i hj
    subst hj
    rw [if_pos (List.getElem?_eq_some_iff.1 hget).1, hget]
    exact congrArg some hr
  · rfl

theorem release_probeReference (s : σ) (id : Var) (stats : Stats) (rid : RefId)
    (refs : List Reference) : (probeReference s id stats rid refs).2.map Reference.release =
      refs.map Reference.release := by
  have hsteps := probeReference_steps s id stats refs rid
  generalize probeReference s id stats rid refs = out at hsteps ⊢
  cases hsteps with
  | passed => rfl
  | unread => rfl
  | again => rfl
  | attached hget => exact release_set hget rfl

theorem bare_codex_adjust (m : CodexMap) (id : Var) (stats : Stats) (v : Var) :
    ((m.adjust id ({ · with stats })).codex v).bare = (m.codex v).bare := by
  rw [codex, adjust, OrderedMap.get?_modify]
  split
  · rw [codex]
    cases m.index.get? v <;> rfl
  · rfl

theorem map_bare_codexes_adjust (m : CodexMap) (id : Var) (stats : Stats) :
    (m.adjust id ({ · with stats })).codexes.map Codex.bare = m.codexes.map Codex.bare := by
  rw [codexes, codexes, List.map_map, List.map_map]
  exact List.map_congr_left fun v _ => bare_codex_adjust m id stats v

theorem CodexMap.Similar.probeVar {m m' : CodexMap} (h : Similar m m') (s : σ) (id : Var) :
    Similar m (probeVar s id m').2 := by
  have hrelease : ((m'.codex id).probedRefs.foldlM (probeReference s id) .zero m'.references).2.map
      Reference.release = m.references.map Reference.release :=
    Action.foldlM_preserves
      (P := fun refs => refs.map Reference.release = m.references.map Reference.release)
      (fun stats rid refs hrefs => (release_probeReference s id stats rid refs).trans hrefs) _ _
      h.references
  rw [CodexMap.probeVar]
  generalize (m'.codex id).probedRefs.foldlM (probeReference s id) .zero m'.references = run
    at hrelease
  obtain ⟨result, references⟩ := run
  cases result with
  | error e => exact ⟨hrelease, h.codexes, h.probed⟩
  | ok stats => exact ⟨hrelease, (map_bare_codexes_adjust _ id stats).trans h.codexes, h.probed⟩

theorem probeAll_eq (m : CodexMap) (s : σ) : probeAll s m = m.ids.forM (probeVar s) m := by
  rw [probeAll, Action.bind_ok (Action.get_apply m)]
  rfl

theorem similar_probeAll (m : CodexMap) (s : σ) : Similar m (probeAll s m).2 := by
  rw [probeAll_eq]
  exact Action.forM_preserves (fun id m' h => h.probeVar s id) m.slice ⟨rfl, rfl, rfl⟩

end

def Codex.refs (c : Codex) : List RefId := c.constraint ++ c.probedRefs

namespace Covers

variable {filed : List Filing} {codexes : List Codex} {c : Codex}

theorem double_eq (h : Covers filed codexes) (hc : c ∈ codexes) {e : Var × List RefId}
    (he : e ∈ c.double.entries) :
    e.2 = places filed c.id (.double e.1) := by
  have hgroup := h.group c hc (.double e.1)
  rwa [Codex.group, OrderedMap.mem_entries.1 he] at hgroup

theorem mem_probedRefs (h : Covers filed codexes) (hc : c ∈ codexes) {rid : RefId} :
    rid ∈ c.probedRefs ↔ ∃ f, filed[rid]? = some f ∧ f.owner = c.id ∧ f.shape ≠ .constraint := by
  have hsingle : c.single = places filed c.id .single := h.group c hc .single
  simp only [Codex.probedRefs, OrderedMap.values, List.mem_append, hsingle, mem_places,
    List.mem_flatten, List.mem_map]
  constructor
  · intro hrid
    obtain ⟨f, hf, ho, hs⟩ | ⟨_, ⟨e, he, rfl⟩, hrid⟩ := hrid
    · exact ⟨f, hf, ho, by simp [hs]⟩
    · rw [h.double_eq hc he] at hrid
      obtain ⟨f, hf, ho, hs⟩ := mem_places.1 hrid
      exact ⟨f, hf, ho, by simp [hs]⟩
  · intro hrid
    obtain ⟨f, hf, ho, hs⟩ := hrid
    cases hshape : f.shape with
    | constraint => exact absurd hshape hs
    | single => exact .inl ⟨f, hf, ho, hshape⟩
    | double w =>
      have hmem : rid ∈ c.group (.double w) := by
        rw [h.group c hc]
        exact mem_places.2 ⟨f, hf, ho, hshape⟩
      cases hget : c.double.get? w with
      | none => simp [Codex.group, hget] at hmem
      | some l =>
        simp only [Codex.group, hget, Option.getD_some] at hmem
        exact .inr ⟨l, ⟨(w, l), OrderedMap.mem_entries.2 hget, rfl⟩, hmem⟩

theorem probedRefs_nodup (h : Covers filed codexes) (hc : c ∈ codexes) : c.probedRefs.Nodup := by
  have hsingle : c.single = places filed c.id .single := h.group c hc .single
  have hflat : c.double.values.flatten = c.double.entries.flatMap (·.2) :=
    (List.flatMap_def ..).symm
  rw [Codex.probedRefs, hsingle, hflat]
  refine List.nodup_append.2 ⟨places_nodup _ _ _, List.nodup_flatMap.2 ⟨?_, ?_⟩, ?_⟩
  · intro e he
    rw [h.double_eq hc he]
    exact places_nodup _ _ _
  · refine (List.pairwise_map.1 c.double.keys_nodup).imp_of_mem ?_
    intro e e' he he' hne rid hrid hrid'
    have h₁ : rid ∈ places filed c.id (.double e.1) := h.double_eq hc he ▸ hrid
    have h₂ : rid ∈ places filed c.id (.double e'.1) := h.double_eq hc he' ▸ hrid'
    exact hne (Shape.double.inj (places_inj h₁ h₂).2)
  · intro rid hrid rid' hrid' heq
    subst heq
    obtain ⟨e, he, hrid'⟩ := List.mem_flatMap.1 hrid'
    have h₂ : rid ∈ places filed c.id (.double e.1) := h.double_eq hc he ▸ hrid'
    cases (places_inj hrid h₂).2

theorem mem_refs (h : Covers filed codexes) (hc : c ∈ codexes) {rid : RefId} :
    rid ∈ c.refs ↔ ∃ f, filed[rid]? = some f ∧ f.owner = c.id := by
  have hconstraint : c.constraint = places filed c.id .constraint := h.group c hc .constraint
  rw [Codex.refs, List.mem_append, hconstraint, mem_places, h.mem_probedRefs hc]
  constructor
  · intro hrid
    obtain ⟨f, hf, ho, -⟩ | ⟨f, hf, ho, -⟩ := hrid
    · exact ⟨f, hf, ho⟩
    · exact ⟨f, hf, ho⟩
  · intro hrid
    obtain ⟨f, hf, ho⟩ := hrid
    by_cases hs : f.shape = .constraint
    · exact .inl ⟨f, hf, ho, hs⟩
    · exact .inr ⟨f, hf, ho, hs⟩

theorem refs_nodup (h : Covers filed codexes) (hc : c ∈ codexes) : c.refs.Nodup := by
  have hconstraint : c.constraint = places filed c.id .constraint := h.group c hc .constraint
  refine List.nodup_append.2 ⟨hconstraint ▸ places_nodup _ _ _, h.probedRefs_nodup hc, ?_⟩
  intro rid hrid rid' hrid' heq
  subst heq
  rw [hconstraint, mem_places] at hrid
  obtain ⟨f, hf, -, hs⟩ := hrid
  obtain ⟨f', hf', -, hs'⟩ := (h.mem_probedRefs hc).1 hrid'
  rw [hf] at hf'
  cases hf'
  exact hs' hs

theorem all_refs_nodup (h : Covers filed codexes) : (codexes.flatMap Codex.refs).Nodup := by
  refine List.nodup_flatMap.2 ⟨fun c hc => h.refs_nodup hc, ?_⟩
  refine (List.pairwise_map.1 h.nodup).imp_of_mem ?_
  intro c c' hc hc' hne rid hrid hrid'
  obtain ⟨f, hf, ho⟩ := (h.mem_refs hc).1 hrid
  obtain ⟨f', hf', ho'⟩ := (h.mem_refs hc').1 hrid'
  rw [hf] at hf'
  cases hf'
  exact hne (ho.symm.trans ho')

theorem all_refs_perm (h : Covers filed codexes) :
    (codexes.flatMap Codex.refs).Perm (List.range filed.length) := by
  rw [List.perm_ext_iff_of_nodup h.all_refs_nodup List.nodup_range]
  intro rid
  rw [List.mem_range, List.mem_flatMap]
  constructor
  · intro hrid
    obtain ⟨c, hc, hrid⟩ := hrid
    obtain ⟨f, hf, -⟩ := (h.mem_refs hc).1 hrid
    exact (List.getElem?_eq_some_iff.1 hf).1
  · intro hlt
    have howner : filed[rid].owner ∈ codexes.map (·.id) :=
      (h.mem_ids _).2 (List.mem_map_of_mem (List.getElem_mem hlt))
    obtain ⟨c, hc, hid⟩ := List.mem_map.1 howner
    exact ⟨c, hc, (h.mem_refs hc).2 ⟨_, List.getElem?_eq_getElem hlt, hid.symm⟩⟩

theorem all_probedRefs_nodup (h : Covers filed codexes) :
    (codexes.flatMap Codex.probedRefs).Nodup :=
  (List.Sublist.flatMap_right codexes fun c _ =>
    List.sublist_append_right c.constraint c.probedRefs).nodup h.all_refs_nodup

theorem mem_all_probedRefs (h : Covers filed codexes) {rid : RefId} :
    rid ∈ codexes.flatMap Codex.probedRefs ↔ ∃ f, filed[rid]? = some f ∧ f.shape ≠ .constraint := by
  rw [List.mem_flatMap]
  constructor
  · intro hrid
    obtain ⟨c, hc, hrid⟩ := hrid
    obtain ⟨f, hf, -, hs⟩ := (h.mem_probedRefs hc).1 hrid
    exact ⟨f, hf, hs⟩
  · intro hrid
    obtain ⟨f, hf, hs⟩ := hrid
    have howner : f.owner ∈ codexes.map (·.id) :=
      (h.mem_ids _).2 (List.mem_map_of_mem (List.mem_of_getElem? hf))
    obtain ⟨c, hc, hid⟩ := List.mem_map.1 howner
    exact ⟨c, hc, (h.mem_probedRefs hc).2 ⟨f, hf, hid.symm, hs⟩⟩

end Covers

/-- The references are those of the filings, and all but the constraints have a cursor. -/
structure Attached (filed : List Filing) (refs : List Reference) : Prop where
  cores : Cores filed refs
  cursors : ∀ (rid : RefId) (f : Filing), filed[rid]? = some f → f.shape ≠ .constraint →
    ∃ r, refs[rid]? = some r ∧ r.cursor.isSome

/-- A map that waits to be probed: its references are those of the filings, without cursors, and its
codexes have them in some order. All but the constraints have a counter. -/
structure Waiting (filed : List Filing) (m : CodexMap) : Prop where
  references : Cores filed m.references
  idle : ∀ r ∈ m.references, r.cursor = none
  codexes : Covers filed m.codexes
  probed : m.probed = false
  keys : ∀ f ∈ filed, f.reference.countKey?.isSome ↔ f.shape ≠ .constraint

theorem Describes.waiting {es : List (String × Nat × Statement)} {c : Classified}
    (h : Describes es c) : Waiting (es.flatMap filings) c.codexMap :=
  ⟨h.filed.references, h.filed.idle, h.filed.codexes.covers, h.filed.probed, countKey_isSome_iff⟩

/-- A map that was probed: cursors are attached, and the codexes hold the same references as
before. -/
structure Probed (filed : List Filing) (count : RefId → Nat) (codexes : List Codex) (m : CodexMap) :
    Prop where
  references : Attached filed m.references
  codexes : m.codexes = codexes.map (·.counted count)
  probed : m.probed = true

section

variable {σ : Type} [Readable σ] {s : σ} {count : RefId → Nat} {filed : List Filing} {m : CodexMap}

theorem Waiting.pending (h : Waiting filed m) :
    ∀ rid ∈ m.codexes.flatMap Codex.probedRefs, Pending m.references rid := by
  intro rid hrid
  obtain ⟨f, hf, hs⟩ := h.codexes.mem_all_probedRefs.1 hrid
  obtain ⟨r, hr, hcore⟩ := h.references.get hf
  have hkey : r.countKey? = f.reference.countKey? := by rw [← hcore]; rfl
  exact ⟨r, hr, h.idle r (List.mem_of_getElem? hr),
    hkey ▸ (h.keys f (List.mem_of_getElem? hf)).2 hs⟩

theorem Waiting.withCount_of_not_mem (h : Waiting filed m) {rid : RefId}
    (hrid : rid ∉ m.codexes.flatMap Codex.probedRefs) (n : Nat) :
    m.references[rid]?.map (Reference.withCount n) = m.references[rid]? := by
  cases hr : m.references[rid]? with
  | none => rfl
  | some r =>
    obtain ⟨f, hf, hcore⟩ := h.references.exists_filing hr
    have hs : f.shape = .constraint := by
      by_contra hs
      exact hrid (h.codexes.mem_all_probedRefs.2 ⟨f, hf, hs⟩)
    have hkey : r.countKey? = none := by
      have hnone := (h.keys f (List.mem_of_getElem? hf)).not.2 (not_not.2 hs)
      rw [← hcore] at hnone
      exact Option.not_isSome_iff_eq_none.1 hnone
    have hidle := h.idle r (List.mem_of_getElem? hr)
    simp [Reference.withCount, hkey, ← hidle]

/-- On any store probing stops at the first reference that is refused, or else gives every reference
the number behind its counter, which is not zero. Constraints have no counter, and no cursor. -/
theorem Waiting.probe_outcome (h : Waiting filed m) (s : σ) :
    (∃ e, Stops s m.references (listed m.codexes) e ∧ (m.probe s).1 = .error e) ∨
    ((∀ rid ∈ m.codexes.flatMap Codex.probedRefs, numberAt s m.references rid ≠ 0) ∧
      ∃ m', m.probe s = (.ok (), m') ∧
        m'.codexes = m.codexes.map (·.counted (numberAt s m.references)) ∧ m'.probed = true ∧
        ∀ j : RefId, m'.references[j]? =
          m.references[j]?.map (Reference.withCount (numberAt s m.references j))) := by
  have hunprobed : ¬ m.probed = true := by simp [h.probed]
  have hcases := forM_probeVar_cases (s := s) (fun c hc => mem_codexes.1 hc) h.codexes.nodup
    h.codexes.all_probedRefs_nodup h.pending
  rw [map_id_codexes, ← probeAll_eq] at hcases
  rw [CodexMap.probe, if_neg hunprobed]
  obtain ⟨e, m', hstops, herr⟩ | ⟨hnz, m', hok, hrefs, hids, hcounted, -⟩ := hcases
  · exact .inl ⟨e, hstops, by rw [herr]⟩
  · rw [hok]
    refine .inr ⟨hnz, _, rfl, ?_, rfl, fun j => ?_⟩
    · change m'.ids.map m'.codex = (m.ids.map m.codex).map _
      rw [hids, List.map_map]
      exact List.map_congr_left fun v hv => hcounted (m.codex v) (codex_mem_codexes hv)
    · change m'.references[j]? = _
      rw [hrefs j]
      by_cases hj : j ∈ m.codexes.flatMap Codex.probedRefs
      · rw [if_pos hj]
      · rw [if_neg hj, h.withCount_of_not_mem hj]

theorem Waiting.numberAt_filing (h : Waiting filed m) {rid : RefId} {f : Filing}
    (hf : filed[rid]? = some f) : numberAt s m.references rid = f.reference.number s := by
  obtain ⟨r, hr, hcore⟩ := h.references.get hf
  rw [numberAt_eq hr, ← hcore]
  rfl

theorem Waiting.probe_ok (h : Waiting filed m) {m' : CodexMap}
    (hrun : m.probe s = (.ok (), m')) :
    ∃ count : RefId → Nat, (∀ rid f, filed[rid]? = some f → f.shape ≠ .constraint →
        count rid ≠ 0 ∧ ∃ key, f.reference.countKey? = some key ∧
          readCount s key = .ok (count rid)) ∧
      m'.codexes = m.codexes.map (·.counted count) ∧ m'.probed = true ∧
      ∀ j : RefId, m'.references[j]? = m.references[j]?.map (Reference.withCount (count j)) := by
  obtain ⟨e, -, herr⟩ | ⟨hnz, m'', hok, hm⟩ := h.probe_outcome s
  · rw [hrun] at herr
    cases herr
  · rw [hrun] at hok
    cases hok
    refine ⟨_, fun rid f hf hs => ?_, hm⟩
    have hne := hnz rid (h.codexes.mem_all_probedRefs.2 ⟨f, hf, hs⟩)
    refine ⟨hne, ?_⟩
    rw [h.numberAt_filing hf] at hne ⊢
    exact Reference.exists_key_of_number hne

/-- Where every counter can be read, probing fails exactly if some number is zero, and names such a
reference. -/
theorem Waiting.probe_eq (h : Waiting filed m)
    (hcount : ∀ rid f, filed[rid]? = some f → f.shape ≠ .constraint →
      ∃ key, f.reference.countKey? = some key ∧ readCount s key = .ok (count rid)) :
    (∃ rid f, filed[rid]? = some f ∧ f.shape ≠ .constraint ∧ count rid = 0 ∧ (m.probe s).1 =
      .error (.zeroCandidates f.owner f.reference.graph f.reference.index
        f.reference.permutation)) ∨
    ((∀ rid f, filed[rid]? = some f → f.shape ≠ .constraint → count rid ≠ 0) ∧
      ∃ m', m.probe s = (.ok (), m') ∧ Probed filed count m.codexes m') := by
  have hnumber : ∀ rid ∈ m.codexes.flatMap Codex.probedRefs,
      numberAt s m.references rid = count rid := by
    intro rid hrid
    obtain ⟨f, hf, hs⟩ := h.codexes.mem_all_probedRefs.1 hrid
    obtain ⟨key, hkey, hread⟩ := hcount rid f hf hs
    rw [h.numberAt_filing hf, Reference.number_eq hkey hread]
  obtain ⟨e, ⟨before, v, rid, after, r, hlisted, -, hr, hrefused⟩, herr⟩ |
    ⟨hnz, m', hok, hcodexes, hprobed, hrefs⟩ := h.probe_outcome s
  · have hmem : (v, rid) ∈ listed m.codexes := by simp [hlisted]
    obtain ⟨c, hc, hrid⟩ := List.mem_flatMap.1 hmem
    obtain ⟨rid, hrid, heq⟩ := List.mem_map.1 hrid
    cases heq
    obtain ⟨f, hf, ho, hs⟩ := (h.codexes.mem_probedRefs hc).1 hrid
    obtain ⟨key, hkey, hread⟩ := hcount rid f hf hs
    have hcore := h.references.core_eq hf hr
    have hrkey : r.countKey? = some key := by rw [← hkey, ← hcore]; rfl
    refine .inl ⟨rid, f, hf, hs, ?_⟩
    obtain ⟨hzero, rfl⟩ := hrefused.of_read hrkey hread
    refine ⟨hzero, ?_⟩
    rw [herr, ho, ← hcore]
    rfl
  · refine .inr ⟨fun rid f hf hs => ?_, m', hok, ⟨?_, fun rid f hf hs => ?_⟩, ?_, hprobed⟩
    · have hmem := h.codexes.mem_all_probedRefs.2 ⟨f, hf, hs⟩
      rw [← hnumber rid hmem]
      exact hnz rid hmem
    · refine Eq.trans (List.ext_getElem? fun j => ?_) h.references
      rw [List.getElem?_map, List.getElem?_map, hrefs j, Option.map_map]
      rfl
    · obtain ⟨r, hr, -, hkey⟩ := h.pending rid (h.codexes.mem_all_probedRefs.2 ⟨f, hf, hs⟩)
      refine ⟨_, by rw [hrefs rid, hr]; rfl, ?_⟩
      simpa [Reference.withCount] using hkey
    · rw [hcodexes, map_counted_congr hnumber]

/-- What a probe leaves of a map: all of it if it was probed before, and otherwise the same codexes
with other sums; no cursor is left unless it succeeds. -/
theorem probe_cases (m : CodexMap) (s : σ) :
    (m.probed = true ∧ m.probe s = (.error .alreadyProbed, m)) ∨
    (m.probed = false ∧ ∃ e m', Similar m m' ∧ m.probe s = (.error e, m'.close)) ∨
    (m.probed = false ∧ ∃ m', m.probe s = (.ok (), m')) := by
  by_cases hm : m.probed = true
  · refine .inl ⟨hm, ?_⟩
    rw [CodexMap.probe, if_pos hm]
  · have hsimilar := similar_probeAll m s
    rw [CodexMap.probe, if_neg hm]
    rw [Bool.not_eq_true] at hm
    generalize probeAll s m = run at hsimilar
    obtain ⟨result, m'⟩ := run
    cases result with
    | error e => exact .inr (.inl ⟨hm, e, m', hsimilar, rfl⟩)
    | ok _ => exact .inr (.inr ⟨hm, _, rfl⟩)

theorem exists_counts {P : Filing → Nat → Prop}
    (h : ∀ f ∈ filed, f.shape ≠ .constraint → ∃ n, P f n) :
    ∃ count : RefId → Nat, ∀ rid f, filed[rid]? = some f → f.shape ≠ .constraint →
      P f (count rid) := by
  have heach : ∀ rid : RefId, ∃ n, ∀ f, filed[rid]? = some f → f.shape ≠ .constraint → P f n := by
    intro rid
    by_cases hf : ∃ f, filed[rid]? = some f ∧ f.shape ≠ .constraint
    · obtain ⟨f, hf, hs⟩ := hf
      obtain ⟨n, hn⟩ := h f (List.mem_of_getElem? hf) hs
      refine ⟨n, fun f' hf' _ => ?_⟩
      rw [hf] at hf'
      cases hf'
      exact hn
    · exact ⟨0, fun f hf' hs => absurd ⟨f, hf', hs⟩ hf⟩
  choose count hcount using heach
  exact ⟨count, hcount⟩

end

end TriplePlan
