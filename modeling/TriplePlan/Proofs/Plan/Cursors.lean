import TriplePlan.Proofs.Plan.Calls

/-! Whom cursors follow after several builds. A build marks the cursors of the pasts that it makes
and clears none, so a cursor names the variable that its reference followed in any build since the
map was probed. It is the one of the last build unless that put the reference into a future. -/
namespace TriplePlan

open Assignment CodexMap

/-- Calls that order and assign the variables of a probed map. -/
def Call.Arranges : Call → Prop
  | .sort _ => True
  | @Call.build _ _ _ _ => True
  | _ => False

namespace CodexMap

def returned (m : CodexMap) : Call → List (List Assignment)
  | @Call.build _ _ config s => (m.build config.requireValueRoot s).1.toOption.toList
  | @Call.probe _ _ _ => []
  | .sort _ => []
  | .close => []

def built (m : CodexMap) : List Call → List (List Assignment)
  | [] => []
  | call :: calls => m.returned call ++ (m.step call).built calls

end CodexMap

/-- A cursor names a variable and a place exactly if the past of the variable that owns the
reference has it there; so one that is in no past names no variable. -/
def CursorsFollow (assigned : List Assignment) (refs : List Reference) : Prop :=
  ∀ a ∈ assigned, ∀ rid ∈ a.uses, ∀ r cursor, refs[rid]? = some r → r.cursor = some cursor →
    ∀ dep offset, cursor.follows = some dep ∧ cursor.offset = offset ↔
      a.past.lookup dep offset = some rid

section

variable {filed : List Filing} {assigned : List Assignment}

/-- The cursors of a map are marked by the pasts of certain assignments, and by nothing else. -/
structure Marked (filed : List Filing) (history : List (List Assignment)) (m : CodexMap) :
    Prop where
  covers : Covers filed m.codexes
  lookups : ∀ assigned ∈ history, ∀ a ∈ assigned, ∀ dep offset rid,
    a.past.lookup dep offset = some rid → (places filed a.id (.double dep))[offset]? = some rid
  cursors : ∀ (rid : RefId) r cursor, m.references[rid]? = some r → r.cursor = some cursor →
    ∀ dep offset, cursor.follows = some dep ∧ cursor.offset = offset ↔
      ∃ assigned ∈ history, ∃ a ∈ assigned, a.past.lookup dep offset = some rid

namespace Marked

variable {m : CodexMap} {history : List (List Assignment)}

theorem of_withCount {fresh : CodexMap} (hcover : Covers filed m.codexes) {count : RefId → Nat}
    (hrefs : ∀ j : RefId, m.references[j]? =
      fresh.references[j]?.map (Reference.withCount (count j))) : Marked filed [] m := by
  refine ⟨hcover, nofun, ?_⟩
  intro rid r cursor hr hcursor dep offset
  rw [hrefs] at hr
  obtain ⟨r, -, rfl⟩ := Option.map_eq_some_iff.1 hr
  obtain ⟨key, -, rfl⟩ := Option.map_eq_some_iff.1 hcursor
  simp [Cursor.probed]

theorem sort (h : Marked filed history m) (order : VariableOrder) :
    Marked filed history (m.sort order) :=
  ⟨h.covers.perm (m.codexes_sort_perm order), h.lookups, h.cursors⟩

theorem close (h : Marked filed history m) : Marked filed history m.close := by
  refine ⟨h.covers, h.lookups, ?_⟩
  intro rid r cursor hr hcursor
  rw [CodexMap.close, List.getElem?_map] at hr
  obtain ⟨r, -, rfl⟩ := Option.map_eq_some_iff.1 hr
  cases hcursor

theorem mark (h : Marked filed history m) (hplace : Placement [] m.codexes assigned) :
    Marked filed (history ++ [assigned]) { m with
      references := Past.markAll (assigned.flatMap (·.past.marks)) m.references } := by
  have hlookups : ∀ earlier ∈ history ++ [assigned], ∀ a ∈ earlier, ∀ dep offset rid,
      a.past.lookup dep offset = some rid →
        (places filed a.id (.double dep))[offset]? = some rid := by
    intro earlier hmem a ha dep offset rid hlookup
    cases List.mem_append.1 hmem with
    | inl hmem => exact h.lookups earlier hmem a ha dep offset rid hlookup
    | inr hmem =>
      obtain rfl := List.mem_singleton.1 hmem
      exact hplace.getElem?_places h.covers ha hlookup
  refine ⟨h.covers, hlookups, ?_⟩
  intro rid r cursor hr hcursor dep offset
  by_cases hrid : rid ∈ (assigned.flatMap (·.past.marks)).map (·.ref)
  · obtain ⟨e, he, rfl⟩ := List.mem_map.1 hrid
    obtain ⟨a, ha, hea⟩ := List.mem_flatMap.1 he
    have hlookup := (hplace.mem_marks ha).1 hea
    rw [Past.getElem?_markAll (hplace.past_nodup h.covers) he] at hr
    obtain ⟨r, -, rfl⟩ := Option.map_eq_some_iff.1 hr
    obtain ⟨cursor, -, rfl⟩ := Option.map_eq_some_iff.1 hcursor
    constructor
    · intro hfollows
      obtain ⟨hdep, rfl⟩ := hfollows
      obtain rfl := Option.some.inj hdep
      exact ⟨assigned, by simp, a, ha, hlookup⟩
    · intro hasked
      obtain ⟨earlier, hmem, b, hb, hasked⟩ := hasked
      -- Whoever asked for the reference asked at the one place where it was filed.
      have hplaced := hplace.getElem?_places h.covers ha hlookup
      obtain ⟨-, hshape, hoffset⟩ :=
        places_unique hplaced (hlookups earlier hmem b hb dep offset _ hasked)
      cases hshape
      exact ⟨rfl, hoffset⟩
  · have hnone : ¬ ∃ a ∈ assigned, a.past.lookup dep offset = some rid := by
      intro hasked
      obtain ⟨a, ha, hlookup⟩ := hasked
      have hmark : (⟨dep, offset, rid⟩ : Past.Mark) ∈ a.past.marks :=
        (hplace.mem_marks ha).2 hlookup
      exact hrid (List.mem_map.2 ⟨_, List.mem_flatMap.2 ⟨a, ha, hmark⟩, rfl⟩)
    rw [Past.getElem?_markAll_of_not_mem hrid] at hr
    rw [h.cursors rid r cursor hr hcursor]
    simp [or_and_right, exists_or, hnone]

theorem step (h : Marked filed history m) {call : Call} (hcall : call.Arranges) :
    Marked filed (history ++ m.returned call) (m.step call) := by
  cases call with
  | probe s => cases hcall
  | sort order =>
    rw [returned, List.append_nil]
    exact h.sort order
  | build config s =>
    rw [CodexMap.step, returned]
    obtain ⟨-, hrun⟩ | ⟨-, e, hrun⟩ | ⟨-, assigned, hplace, hrun⟩ :=
      build_cases m config.requireValueRoot s
    · rw [hrun]
      simpa [Except.toOption] using h
    · rw [hrun]
      simpa [Except.toOption] using h.close
    · rw [hrun]
      exact h.mark hplace
  | close => cases hcall

theorem run (h : Marked filed history m) {calls : List Call}
    (hcalls : ∀ call ∈ calls, call.Arranges) :
    Marked filed (history ++ m.built calls) (m.run calls) := by
  induction calls generalizing m history with
  | nil =>
    rw [built, List.append_nil]
    exact h
  | cons call calls ih =>
    rw [List.forall_mem_cons] at hcalls
    rw [built, ← List.append_assoc]
    exact ih (h.step hcalls.1) hcalls.2

end Marked

end

section

variable {pattern : Dataset} {c : Classified} {before calls : List Call} {σ τ : Type}
  [Readable σ] [Readable τ] {s : σ} {t : τ} {m m' : CodexMap} {config : CompileConfig}
  {assigned : List Assignment}

/-- A successful build after a successful probe, with nothing but sorts and builds in between. -/
structure Rebuilt (c : Classified) (before : List Call) (s : σ) (m : CodexMap) (calls : List Call)
    (config : CompileConfig) (t : τ) (assigned : List Assignment) (m' : CodexMap) : Prop where
  probe : (c.codexMap.run before).probe s = (.ok (), m)
  arranges : ∀ call ∈ calls, call.Arranges
  build : (m.run calls).build config.requireValueRoot t = (.ok assigned, m')

namespace Rebuilt

theorem marked (h : Rebuilt c before s m calls config t assigned m')
    (hc : classify pattern = .ok c) :
    Marked (pattern.toList.flatMap filings) (m.built calls ++ [assigned]) m' ∧
      Placement [] m'.codexes assigned := by
  obtain ⟨-, hd, -⟩ := classify_ok hc
  have hintact := intact_run hc before
  have hstart : Marked (pattern.toList.flatMap filings) [] m := by
    obtain ⟨-, hrun⟩ | ⟨-, e, m', -, hrun⟩ | ⟨hidle, -⟩ :=
      probe_cases (c.codexMap.run before) s
    · rw [h.probe] at hrun
      cases hrun
    · rw [h.probe] at hrun
      cases hrun
    · have hwait := hintact.waiting hd.waiting hidle
      obtain ⟨count, -, hcodexes, -, hrefs⟩ := hwait.probe_ok h.probe
      have hcover := hwait.codexes.counted count
      rw [← hcodexes] at hcover
      exact .of_withCount hcover hrefs
  obtain ⟨-, hplace, rfl⟩ := build_ok h.build
  exact ⟨(hstart.run h.arranges).mark hplace, hplace⟩

theorem probed (h : Rebuilt c before s m calls config t assigned m') : m'.probed = true := by
  obtain ⟨hprobed, -, rfl⟩ := build_ok h.build
  exact hprobed

theorem intact (h : Rebuilt c before s m calls config t assigned m')
    (hc : classify pattern = .ok c) : Intact c.codexMap m' := by
  obtain ⟨-, hd, -⟩ := classify_ok hc
  have hprobe := (intact_run hc before).probe hd.waiting s
  rw [h.probe] at hprobe
  have hbuild := (hprobe.run hd.waiting calls).build config.requireValueRoot t
  rw [h.build] at hbuild
  exact hbuild

theorem exists_cursor (h : Rebuilt c before s m calls config t assigned m')
    (hc : classify pattern = .ok c) {v dep : Var} {offset : Nat} {rid : RefId}
    (hplace : (places (pattern.toList.flatMap filings) v (.double dep))[offset]? = some rid) :
    ∃ r cursor, m'.references[rid]? = some r ∧ r.cursor = some cursor := by
  obtain ⟨-, hd, -⟩ := classify_ok hc
  obtain ⟨f, hf, -, hs⟩ := mem_places.1 (List.mem_of_getElem? hplace)
  obtain ⟨r, hr, hcursor⟩ := (h.intact hc).exists_reference hd.waiting hf
  obtain ⟨cursor, hcursor⟩ := Option.isSome_iff_exists.1 (hcursor.2 ⟨h.probed, by simp [hs]⟩)
  exact ⟨r, cursor, hr, hcursor⟩

end Rebuilt

/-- A cursor follows a variable exactly if its reference was in the past of its owner for it in any
build since the map was probed. So cursors tell the pasts of the last build exactly if that kept all
that earlier builds had in their pasts. -/
theorem cursors_iff_built (pattern : Dataset) (c : Classified) (hc : classify pattern = .ok c)
    (before : List Call) (s : σ) (m : CodexMap) (calls : List Call) (config : CompileConfig) (t : τ)
    (assigned : List Assignment) (m' : CodexMap)
    (h : Rebuilt c before s m calls config t assigned m') :
    (∀ a ∈ assigned, ∀ rid ∈ a.uses, ∀ r cursor, m'.references[rid]? = some r →
      r.cursor = some cursor → ∀ dep offset,
        cursor.follows = some dep ∧ cursor.offset = offset ↔
          ∃ earlier ∈ m.built calls ++ [assigned], ∃ b ∈ earlier,
            b.id = a.id ∧ b.past.lookup dep offset = some rid) ∧
    (CursorsFollow assigned m'.references ↔ ∀ earlier ∈ m.built calls, ∀ b ∈ earlier,
      ∀ a ∈ assigned, b.id = a.id → ∀ dep offset rid,
        b.past.lookup dep offset = some rid → a.past.lookup dep offset = some rid) := by
  obtain ⟨hmarked, hplace⟩ := h.marked hc
  have hcover := hmarked.covers
  have hcursors : ∀ a ∈ assigned, ∀ rid ∈ a.uses, ∀ r cursor, m'.references[rid]? = some r →
      r.cursor = some cursor → ∀ dep offset,
        cursor.follows = some dep ∧ cursor.offset = offset ↔
          ∃ earlier ∈ m.built calls ++ [assigned], ∃ b ∈ earlier,
            b.id = a.id ∧ b.past.lookup dep offset = some rid := by
    intro a ha rid hrid r cursor hr hcursor dep offset
    obtain ⟨f, hf, howner⟩ := (hplace.mem_uses_iff hcover ha).1 hrid
    rw [hmarked.cursors rid r cursor hr hcursor]
    constructor
    · intro hasked
      obtain ⟨earlier, hmem, b, hb, hlookup⟩ := hasked
      obtain ⟨g, hg, howner', -⟩ := mem_places.1
        (List.mem_of_getElem? (hmarked.lookups earlier hmem b hb dep offset rid hlookup))
      rw [hf] at hg
      cases hg
      exact ⟨earlier, hmem, b, hb, howner'.symm.trans howner, hlookup⟩
    · intro hasked
      obtain ⟨earlier, hmem, b, hb, -, hlookup⟩ := hasked
      exact ⟨earlier, hmem, b, hb, hlookup⟩
  refine ⟨hcursors, ?_, ?_⟩
  · intro hlaw earlier hmem b hb a ha hid dep offset rid hlookup
    have hearlier : earlier ∈ m.built calls ++ [assigned] := List.mem_append_left _ hmem
    have hfiled := hmarked.lookups earlier hearlier b hb dep offset rid hlookup
    obtain ⟨f, hf, howner, -⟩ := mem_places.1 (List.mem_of_getElem? hfiled)
    have huses : rid ∈ a.uses := (hplace.mem_uses_iff hcover ha).2 ⟨f, hf, howner.trans hid⟩
    obtain ⟨r, cursor, hr, hcursor⟩ := h.exists_cursor hc hfiled
    rw [← hlaw a ha rid huses r cursor hr hcursor, hcursors a ha rid huses r cursor hr hcursor]
    exact ⟨earlier, hearlier, b, hb, hid, hlookup⟩
  · intro hkeeps a ha rid hrid r cursor hr hcursor dep offset
    rw [hcursors a ha rid hrid r cursor hr hcursor]
    constructor
    · intro hasked
      obtain ⟨earlier, hmem, b, hb, hid, hlookup⟩ := hasked
      cases List.mem_append.1 hmem with
      | inl hmem => exact hkeeps earlier hmem b hb a ha hid dep offset rid hlookup
      | inr hmem =>
        obtain rfl := List.mem_singleton.1 hmem
        rwa [hplace.eq_of_id hcover ha hb hid] at hlookup
    · intro hlookup
      exact ⟨assigned, by simp, a, ha, rfl, hlookup⟩

end

def friendPattern : Dataset := .ofStatements
  [⟨.var ⟨"x"⟩, .node (.iri "name"), .node (.literal "Joel" none none)⟩,
    ⟨.var ⟨"x"⟩, .node (.iri "friend"), .var ⟨"y"⟩⟩]

def friendStore : Store := Store.ofDocuments [⟨"d", .ofStatements
  [⟨.node (.iri "joel"), .node (.iri "name"), .node (.literal "Joel" none none)⟩,
    ⟨.node (.iri "joel"), .node (.iri "friend"), .node (.iri "gabriel")⟩]⟩]

def friendCalls : List Call := [.build {} friendStore, .sort .ascendingCount]

theorem rebuilt_friends : ∃ c m assigned m', classify friendPattern = .ok c ∧
    Rebuilt c [] friendStore m friendCalls {} friendStore assigned m' ∧
    (assigned.map fun a => (a.id, a.uses, a.past.lookup ⟨"x"⟩ 0)) =
      [(⟨"y"⟩, [2], none), (⟨"x"⟩, [0, 1], none)] ∧
    (m'.references.map fun r => r.cursor.map fun cursor => (cursor.follows, cursor.offset)) =
      [some (none, 0), some (some ⟨"y"⟩, 0), some (some ⟨"x"⟩, 0)] := by
  have hprobe : ((classify friendPattern).map fun c => (c.codexMap.probe friendStore).1) =
      .ok (.ok ()) := by
    decide +kernel
  have hpasts : ((classify friendPattern).map fun c =>
      (((c.codexMap.probe friendStore).2.run friendCalls).build false friendStore).1.map
        fun assigned => assigned.map fun a => (a.id, a.uses, a.past.lookup ⟨"x"⟩ 0)) =
      .ok (.ok [(⟨"y"⟩, [2], none), (⟨"x"⟩, [0, 1], none)]) := by
    decide +kernel
  have hcursors : ((classify friendPattern).map fun c =>
      (((c.codexMap.probe friendStore).2.run friendCalls).build false friendStore).2.references.map
        fun r => r.cursor.map fun cursor => (cursor.follows, cursor.offset)) =
      .ok [some (none, 0), some (some ⟨"y"⟩, 0), some (some ⟨"x"⟩, 0)] := by
    decide +kernel
  cases hc : classify friendPattern with
  | error e =>
    rw [hc] at hprobe
    cases hprobe
  | ok c =>
    rw [hc] at hprobe hpasts hcursors
    obtain ⟨assigned, hassigned, hpasts⟩ := map_eq_ok_iff.1 (Except.ok.inj hpasts)
    refine ⟨c, _, assigned, _, rfl, ⟨Prod.ext (Except.ok.inj hprobe) rfl, ?_,
      Prod.ext hassigned rfl⟩, hpasts, Except.ok.inj hcursors⟩
    intro call hcall
    simp only [friendCalls, List.mem_cons, List.not_mem_nil, or_false] at hcall
    obtain rfl | rfl := hcall
    · trivial
    · trivial

/-- The friend still follows the other variable, which it now precedes. -/
theorem cursors_stale : ∃ c m assigned m', classify friendPattern = .ok c ∧
    Rebuilt c [] friendStore m friendCalls {} friendStore assigned m' ∧
    ¬ CursorsFollow assigned m'.references := by
  obtain ⟨c, m, assigned, m', hc, h, hpasts, hcursors⟩ := rebuilt_friends
  refine ⟨c, m, assigned, m', hc, h, fun hlaw => ?_⟩
  have ha := congrArg (·[0]?) hpasts
  have hr := congrArg (·[2]?) hcursors
  simp only [List.getElem?_map, List.getElem?_cons_zero, List.getElem?_cons_succ,
    Option.map_eq_some_iff, Prod.mk.injEq] at ha hr
  obtain ⟨a, ha, -, huses, hnone⟩ := ha
  obtain ⟨r, hr, cursor, hcursor, hfollows⟩ := hr
  have hlookup := (hlaw a (List.mem_of_getElem? ha) 2 (by simp [huses]) r cursor hr hcursor
    ⟨"x"⟩ 0).1 hfollows
  rw [hnone] at hlookup
  cases hlookup

theorem cursors_iff_built_friends : ∃ c m assigned m', classify friendPattern = .ok c ∧
    Rebuilt c [] friendStore m friendCalls {} friendStore assigned m' ∧
    (CursorsFollow assigned m'.references ↔ ∀ earlier ∈ m.built friendCalls, ∀ b ∈ earlier,
      ∀ a ∈ assigned, b.id = a.id → ∀ dep offset rid,
        b.past.lookup dep offset = some rid → a.past.lookup dep offset = some rid) := by
  obtain ⟨c, m, assigned, m', hc, h, -⟩ := rebuilt_friends
  obtain ⟨-, hiff⟩ := cursors_iff_built friendPattern c hc [] friendStore m friendCalls {}
    friendStore assigned m' h
  exact ⟨c, m, assigned, m', hc, h, hiff⟩

end TriplePlan
