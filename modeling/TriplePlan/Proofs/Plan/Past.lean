import Mathlib.Data.List.ProdSigma
import TriplePlan.Plan.Past
import TriplePlan.Proofs.Plan.Classify

/-! The past of a variable has the references of the groups that are put into it, each at its place
in its group, and their cursors say so. Following changes nothing else about a reference. -/
namespace TriplePlan

def Reference.followed? (r : Reference) : Option Var := r.cursor.bind (·.follows)

theorem PastKey.cmp_of_eq {a b : PastKey} (h : a.1 = b.1) : cmp a b = compare a.2 b.2 := by
  have hself : Var.cmp b.1 b.1 = .eq := Std.ReflCmp.compare_self
  rw [cmp, h, hself, Ordering.eq_then]

namespace Past

variable {p : Past} {dep dep' : Var} {position offset : Nat} {rid : RefId}

theorem lookup_pushCursor (p : Past) (dep : Var) (position : Nat) (x : RefId × Nat) (dep' : Var)
    (offset : Nat) : (p.pushCursor dep position x).lookup dep' offset =
      if dep' = dep ∧ offset = x.2 then some x.1 else p.lookup dep' offset := by
  simp only [lookup, pushCursor, OrderedMap.get?_insert, Prod.mk.injEq]
  split
  · simp
  · cases hi : p.index.get? (dep', offset) with
    | none => rfl
    | some i => exact List.getElem?_append_left (p.index_lt _ (OrderedMap.mem_entries.2 hi))

theorem lookup_foldl_pushCursor {l : List (RefId × Nat)} (hn : (l.map (·.2)).Nodup) :
    (l.foldl (pushCursor dep position) p).lookup dep' offset = some rid ↔
      (dep' = dep ∧ (rid, offset) ∈ l) ∨
        ((dep' = dep → offset ∉ l.map (·.2)) ∧ p.lookup dep' offset = some rid) := by
  induction l using List.reverseRecOn with
  | nil => simp
  | append_singleton l x ih =>
    obtain ⟨ref, place⟩ := x
    rw [List.map_append, List.nodup_append] at hn
    have hplace : place ∉ l.map (·.2) := fun hmem => hn.2.2 place hmem place (by simp) rfl
    rw [List.foldl_concat, lookup_pushCursor, List.map_append]
    by_cases hhere : dep' = dep ∧ offset = place
    · obtain ⟨rfl, rfl⟩ := hhere
      have hnone : (rid, offset) ∉ l := fun hmem => hplace (List.mem_map_of_mem hmem)
      simp [hnone, eq_comm]
    · rw [if_neg hhere, ih hn.1]
      by_cases hdep : dep' = dep
      · have hoffset : offset ≠ place := fun h => hhere ⟨hdep, h⟩
        simp [hdep, hoffset]
      · simp [hdep]

theorem foldl_pushCursor (dep : Var) (position : Nat) (l : List (RefId × Nat)) (p : Past) :
    (l.foldl (pushCursor dep position) p).cursors = p.cursors ++ l.map (·.1) ∧
    (l.foldl (pushCursor dep position) p).positions =
      p.positions ++ List.replicate l.length position ∧
    (l.foldl (pushCursor dep position) p).groups = p.groups := by
  induction l generalizing p with
  | nil => simp
  | cons x l ih =>
    obtain ⟨hcursors, hpositions, hgroups⟩ := ih (p.pushCursor dep position x)
    refine ⟨hcursors.trans ?_, hpositions.trans ?_, hgroups⟩
    · exact List.append_assoc ..
    · exact List.append_assoc ..

/-- A past that took in groups, one after the other. -/
def filled (groups : List (Var × Nat × List RefId)) : Past :=
  groups.foldl (fun p g => p.push g.1 g.2.1 g.2.2) empty

/-- A past that took in groups and has its merge order. -/
def gathered (groups : List (Var × Nat × List RefId)) (references : List Reference) : Past :=
  (filled groups).finish references

theorem filled_append (groups : List (Var × Nat × List RefId)) (g : Var × Nat × List RefId) :
    filled (groups ++ [g]) = (filled groups).push g.1 g.2.1 g.2.2 := List.foldl_concat ..

theorem cursors_push (p : Past) (dep : Var) (position : Nat) (refs : List RefId) :
    (p.push dep position refs).cursors = p.cursors ++ refs := by
  have hcursors := (foldl_pushCursor dep position refs.zipIdx p).1
  rwa [List.zipIdx_map_fst] at hcursors

theorem positions_push (p : Past) (dep : Var) (position : Nat) (refs : List RefId) :
    (p.push dep position refs).positions =
      p.positions ++ List.replicate refs.length position := by
  have hpositions := (foldl_pushCursor dep position refs.zipIdx p).2.1
  rwa [List.length_zipIdx] at hpositions

theorem groups_push (p : Past) (dep : Var) (position : Nat) (refs : List RefId) :
    (p.push dep position refs).groups = p.groups ++ [(dep, position)] :=
  congrArg (· ++ [(dep, position)]) (foldl_pushCursor dep position refs.zipIdx p).2.2

theorem lookup_push_of_ne {refs : List RefId} (hdep : dep' ≠ dep) :
    (p.push dep position refs).lookup dep' offset = p.lookup dep' offset := by
  refine Option.ext fun rid => (lookup_foldl_pushCursor ?_).trans (by simp [hdep])
  rw [List.zipIdx_map_snd]
  exact List.nodup_range'

theorem lookup_push (hnone : ∀ offset, p.lookup dep offset = none) {refs : List RefId} :
    (p.push dep position refs).lookup dep offset = refs[offset]? := by
  refine Option.ext fun rid => (lookup_foldl_pushCursor ?_).trans ?_
  · rw [List.zipIdx_map_snd]
    exact List.nodup_range'
  · simp [hnone, List.mem_zipIdx_iff_getElem?]

theorem cursors_filled (groups : List (Var × Nat × List RefId)) :
    (filled groups).cursors = groups.flatMap (·.2.2) := by
  induction groups using List.reverseRecOn with
  | nil => rfl
  | append_singleton groups g ih =>
    rw [filled_append, cursors_push, ih, List.flatMap_append, List.flatMap_singleton]

theorem positions_filled (groups : List (Var × Nat × List RefId)) :
    (filled groups).positions = groups.flatMap fun g => List.replicate g.2.2.length g.2.1 := by
  induction groups using List.reverseRecOn with
  | nil => rfl
  | append_singleton groups g ih =>
    rw [filled_append, positions_push, ih, List.flatMap_append, List.flatMap_singleton]

theorem groups_filled (groups : List (Var × Nat × List RefId)) :
    (filled groups).groups = groups.map fun g => (g.1, g.2.1) := by
  induction groups using List.reverseRecOn with
  | nil => rfl
  | append_singleton groups g ih =>
    rw [filled_append, groups_push, ih, List.map_append, List.map_singleton]

/-- Where no variable has two groups, each is asked for its own. -/
theorem lookup_filled_eq_some_iff {groups : List (Var × Nat × List RefId)}
    (hn : (groups.map (·.1)).Nodup) : (filled groups).lookup dep offset = some rid ↔
      ∃ g ∈ groups, g.1 = dep ∧ g.2.2[offset]? = some rid := by
  induction groups using List.reverseRecOn generalizing offset rid with
  | nil => simp [filled, lookup, empty, OrderedMap.get?_empty]
  | append_singleton groups g ih =>
    rw [List.map_append, List.map_singleton, List.nodup_append] at hn
    obtain ⟨hgroups, -, hnew⟩ := hn
    have hfresh : ∀ g' ∈ groups, g'.1 ≠ g.1 := fun g' hg' =>
      hnew _ (List.mem_map_of_mem hg') _ (List.mem_singleton_self _)
    simp only [filled_append, List.mem_append, List.mem_singleton, or_and_right, exists_or,
      exists_eq_left]
    by_cases hdep : dep = g.1
    · subst hdep
      have hother : ∀ (offset : Nat) (rid : RefId),
          ¬ ∃ g' ∈ groups, g'.1 = g.1 ∧ g'.2.2[offset]? = some rid := by
        rintro offset rid ⟨g', hg', heq, -⟩
        exact hfresh g' hg' heq
      have hnone : ∀ offset, (filled groups).lookup g.1 offset = none := by
        intro offset
        refine Option.eq_none_iff_forall_ne_some.2 fun rid h => ?_
        exact hother offset rid ((ih hgroups).1 h)
      rw [lookup_push hnone, or_iff_right (hother offset rid), and_iff_right rfl]
    · rw [lookup_push_of_ne hdep, ih hgroups, or_iff_left fun h => hdep h.1.symm]

/-- The keys of a variable stand together, and nothing of it stands below its first place. -/
theorem entries_of_walk (p : Past) (dep : Var) :
    ((p.index.entries.dropWhile fun x => PastKey.cmp x.1 (dep, 0) = .lt).takeWhile
      fun x => x.1.1 = dep) = p.index.entries.filter fun x => x.1.1 = dep := by
  have hblock : ∀ a b : PastKey, PastKey.cmp a (dep, 0) ≠ .lt → PastKey.cmp a b = .lt →
      decide (b.1 = dep) → decide (a.1 = dep) := by
    intro a b hge hab hb
    obtain rfl : b.1 = dep := of_decide_eq_true hb
    rw [PastKey.cmp] at hge hab
    -- Between the first place of a variable and a key of it, a smaller label is below the first
    -- place and a greater one above the key.
    cases hdep : Var.cmp a.1 b.1 with
    | lt => simp [hdep] at hge
    | gt => simp [hdep] at hab
    | eq => simpa using Std.LawfulEqCmp.eq_of_compare hdep
  refine OrderedMap.walk_eq_filter hblock (fun k hk hlt => ?_) p.index.sorted
  rw [PastKey.cmp_of_eq (of_decide_eq_true hk)] at hlt
  exact Nat.not_lt_zero _ (Nat.compare_eq_lt.1 hlt)

/-- A walk through the index meets what the lookups of the variable find, place by place. -/
theorem exists_walk (p : Past) (dep : Var) : ∃ l : List (Nat × RefId),
    p.cursorsFor dep = l.map (·.2) ∧ l.Pairwise (fun a b => a.1 < b.1) ∧
      ∀ offset rid, (offset, rid) ∈ l ↔ p.lookup dep offset = some rid := by
  refine ⟨(p.index.entries.filter fun x => x.1.1 = dep).filterMap
    fun x => p.cursors[x.2]?.map (x.1.2, ·), ?_, ?_, fun offset rid => ?_⟩
  · rw [cursorsFor, entries_of_walk, List.map_filterMap]
    refine List.filterMap_congr fun x _ => ?_
    rw [Option.map_map]
    exact Option.map_id'.symm
  · refine List.pairwise_filterMap.2 ((p.index.sorted.filter _).imp_of_mem ?_)
    intro x y hx hy hlt a ha b hb
    have hdep : x.1.1 = y.1.1 := by
      rw [of_decide_eq_true (List.mem_filter.1 hx).2, of_decide_eq_true (List.mem_filter.1 hy).2]
    rw [PastKey.cmp_of_eq hdep] at hlt
    obtain ⟨_, -, rfl⟩ := Option.map_eq_some_iff.1 ha
    obtain ⟨_, -, rfl⟩ := Option.map_eq_some_iff.1 hb
    exact Nat.compare_eq_lt.1 hlt
  · rw [lookup, Option.bind_eq_some_iff, List.mem_filterMap]
    constructor
    · intro h
      obtain ⟨⟨⟨dep', offset'⟩, i⟩, hx, hfound⟩ := h
      obtain ⟨hentry, hdep⟩ := List.mem_filter.1 hx
      obtain ⟨rid', hrid, heq⟩ := Option.map_eq_some_iff.1 hfound
      obtain ⟨rfl, rfl⟩ := Prod.mk.inj heq
      obtain rfl : dep' = dep := of_decide_eq_true hdep
      exact ⟨i, OrderedMap.mem_entries.1 hentry, hrid⟩
    · intro h
      obtain ⟨i, hi, hrid⟩ := h
      refine ⟨((dep, offset), i), List.mem_filter.2 ⟨OrderedMap.mem_entries.2 hi, ?_⟩, ?_⟩
      · simp
      · simp [hrid]

theorem mem_cursorsFor_iff {p : Past} {dep : Var} {rid : RefId} :
    rid ∈ p.cursorsFor dep ↔ ∃ offset, p.lookup dep offset = some rid := by
  obtain ⟨l, hl, -, hmem⟩ := p.exists_walk dep
  rw [hl, List.mem_map]
  constructor
  · intro h
    obtain ⟨⟨offset, rid⟩, ha, rfl⟩ := h
    exact ⟨offset, (hmem offset rid).1 ha⟩
  · intro h
    obtain ⟨offset, hlookup⟩ := h
    exact ⟨(offset, rid), (hmem offset rid).2 hlookup, rfl⟩

theorem zipIdx_pairwise {α : Type} (l : List α) : l.zipIdx.Pairwise fun a b => a.2 < b.2 := by
  refine List.pairwise_map.1 ?_
  rw [List.zipIdx_map_snd]
  exact List.pairwise_lt_range'

theorem eq_of_places {l l' : List (Nat × RefId)} (h : l.Pairwise fun a b => a.1 < b.1)
    (h' : l'.Pairwise fun a b => a.1 < b.1) (hmem : ∀ a, a ∈ l ↔ a ∈ l') : l = l' := by
  have hascending : ∀ {l : List (Nat × RefId)}, (l.Pairwise fun a b => a.1 < b.1) →
      l.Pairwise fun a b => compareOn Prod.fst a b = .lt :=
    fun h => h.imp fun hlt => Nat.compare_eq_lt.2 hlt
  exact eq_of_ascending (hascending h) (hascending h') hmem

theorem cursorsFor_eq {refs : List RefId} (h : ∀ offset, p.lookup dep offset = refs[offset]?) :
    p.cursorsFor dep = refs := by
  obtain ⟨l, hl, hplaces, hmem⟩ := p.exists_walk dep
  have heq : l = refs.zipIdx.map Prod.swap := by
    refine eq_of_places hplaces (List.pairwise_map.2 (zipIdx_pairwise refs)) fun a => ?_
    have hplace : (a.2, a.1) ∈ refs.zipIdx ↔ refs[a.1]? = some a.2 :=
      List.mem_zipIdx_iff_getElem?
    rw [hmem, h, ← hplace]
    exact (List.mem_map_swap a.2 a.1 refs.zipIdx).symm
  rw [hl, heq, List.map_map]
  exact List.zipIdx_map_fst 0 refs

section

variable {groups : List (Var × Nat × List RefId)} (hn : (groups.map (·.1)).Nodup)
  {references : List Reference}
include hn

theorem lookup_gathered {g : Var × Nat × List RefId} (hg : g ∈ groups) (offset : Nat) :
    (gathered groups references).lookup g.1 offset = g.2.2[offset]? := by
  refine Option.ext fun rid => (lookup_filled_eq_some_iff hn).trans ?_
  constructor
  · intro h
    obtain ⟨g', hg', hdep, href⟩ := h
    rwa [List.inj_on_of_nodup_map hn hg' hg hdep] at href
  · exact fun href => ⟨g, hg, rfl, href⟩

theorem cursorsFor_gathered {g : Var × Nat × List RefId} (hg : g ∈ groups) :
    (gathered groups references).cursorsFor g.1 = g.2.2 :=
  cursorsFor_eq (lookup_gathered hn hg)

theorem mem_cursorsFor_gathered :
    rid ∈ (gathered groups references).cursorsFor dep ↔
      ∃ g ∈ groups, g.1 = dep ∧ rid ∈ g.2.2 := by
  rw [mem_cursorsFor_iff]
  constructor
  · intro h
    obtain ⟨offset, hlookup⟩ := h
    obtain ⟨g, hg, hdep, href⟩ := (lookup_filled_eq_some_iff hn).1 hlookup
    exact ⟨g, hg, hdep, List.mem_of_getElem? href⟩
  · intro h
    obtain ⟨g, hg, hdep, hrid⟩ := h
    obtain ⟨offset, href⟩ := List.mem_iff_getElem?.1 hrid
    exact ⟨offset, (lookup_filled_eq_some_iff hn).2 ⟨g, hg, hdep, href⟩⟩

theorem mem_cursors_gathered : rid ∈ (gathered groups references).cursors ↔
    ∃ dep, rid ∈ (gathered groups references).cursorsFor dep := by
  have hcursors : (gathered groups references).cursors = groups.flatMap (·.2.2) :=
    cursors_filled groups
  simp only [mem_cursorsFor_gathered hn, hcursors, List.mem_flatMap]
  constructor
  · intro h
    obtain ⟨g, hg, hrid⟩ := h
    exact ⟨g.1, g, hg, rfl, hrid⟩
  · intro h
    obtain ⟨_, g, hg, -, hrid⟩ := h
    exact ⟨g, hg, hrid⟩

end

/-- A reference that is told to follow a variable, and its place in the group. -/
structure Mark where
  dep : Var
  offset : Nat
  ref : RefId

def marksOf (dep : Var) (refs : List RefId) : List Mark :=
  refs.zipIdx.map fun x => ⟨dep, x.2, x.1⟩

def marks (p : Past) : List Mark := p.groups.flatMap fun g => marksOf g.1 (p.cursorsFor g.1)

def markAll (marks : List Mark) (refs : List Reference) : List Reference :=
  marks.foldl (fun l e => l.modify e.ref (mark e.dep e.offset)) refs

theorem mem_marksOf {refs : List RefId} {e : Mark} :
    e ∈ marksOf dep refs ↔ e.dep = dep ∧ refs[e.offset]? = some e.ref := by
  have hplace : (e.ref, e.offset) ∈ refs.zipIdx ↔ refs[e.offset]? = some e.ref :=
    List.mem_zipIdx_iff_getElem?
  rw [marksOf, List.mem_map, ← hplace]
  constructor
  · rintro ⟨x, hx, rfl⟩
    exact ⟨rfl, hx⟩
  · rintro ⟨rfl, he⟩
    exact ⟨_, he, rfl⟩

theorem marks_gathered {groups : List (Var × Nat × List RefId)} (hn : (groups.map (·.1)).Nodup)
    (references : List Reference) :
    (gathered groups references).marks = groups.flatMap fun g => marksOf g.1 g.2.2 := by
  have hgroups : (gathered groups references).groups = groups.map fun g => (g.1, g.2.1) :=
    groups_filled groups
  rw [marks, hgroups, List.flatMap_map]
  exact List.flatMap_congr fun g hg => by rw [cursorsFor_gathered hn hg]

theorem mem_marks_gathered {groups : List (Var × Nat × List RefId)} (hn : (groups.map (·.1)).Nodup)
    {references : List Reference} {e : Mark} : e ∈ (gathered groups references).marks ↔
      (gathered groups references).lookup e.dep e.offset = some e.ref := by
  have hlookup : (gathered groups references).lookup e.dep e.offset = some e.ref ↔ _ :=
    lookup_filled_eq_some_iff hn
  simp only [marks_gathered hn, List.mem_flatMap, mem_marksOf, hlookup, eq_comm]

theorem map_ref_marks_gathered {groups : List (Var × Nat × List RefId)}
    (hn : (groups.map (·.1)).Nodup) (references : List Reference) :
    (gathered groups references).marks.map (·.ref) = (gathered groups references).cursors := by
  have hcursors : (gathered groups references).cursors = groups.flatMap (·.2.2) :=
    cursors_filled groups
  rw [marks_gathered hn, hcursors, List.map_flatMap]
  refine List.flatMap_congr fun g _ => ?_
  rw [marksOf, List.map_map]
  exact List.zipIdx_map_fst 0 g.2.2

theorem foldl_follow (groups : List (Var × Nat × List RefId)) (refs : List Reference) :
    groups.foldl (fun l g => follow g.1 g.2.2 l) refs =
      markAll (groups.flatMap fun g => marksOf g.1 g.2.2) refs := by
  induction groups generalizing refs with
  | nil => rfl
  | cons g groups ih =>
    have hfirst : follow g.1 g.2.2 refs = markAll (marksOf g.1 g.2.2) refs := by
      rw [markAll, marksOf, List.foldl_map]
      rfl
    rw [List.foldl_cons, ih, hfirst, markAll, markAll, ← List.foldl_append, List.flatMap_cons]
    rfl

theorem markAll_append (marks marks' : List Mark) (refs : List Reference) :
    markAll (marks ++ marks') refs = markAll marks' (markAll marks refs) :=
  List.foldl_append

theorem map_markAll {β : Type} {g : Reference → β}
    (hg : ∀ dep offset r, g (mark dep offset r) = g r) (marks : List Mark)
    (refs : List Reference) : (markAll marks refs).map g = refs.map g := by
  induction marks generalizing refs with
  | nil => rfl
  | cons e marks ih =>
    change (markAll marks (refs.modify e.ref (mark e.dep e.offset))).map g = refs.map g
    rw [ih]
    refine List.ext_getElem? fun j => ?_
    rw [List.getElem?_map, List.getElem?_map, List.getElem?_modify]
    cases refs[j]? with
    | none => rfl
    | some r => by_cases hj : e.ref = j <;> simp [hj, hg]

theorem exists_unmarked {marks : List Mark} {refs : List Reference} {rid : RefId}
    {r : Reference} (h : (markAll marks refs)[rid]? = some r) : ∃ r', refs[rid]? = some r' ∧
      r'.countKey? = r.countKey? ∧ r'.cursor.map (·.count) = r.cursor.map (·.count) ∧
      r'.cursor.isSome = r.cursor.isSome := by
  have hkeep := map_markAll (g := fun r => (r.countKey?, r.cursor.map (·.count)))
    (fun dep offset r => by simp [mark, Reference.countKey?, Function.comp_def]) marks refs
  have hat := congrArg (·[rid]?) hkeep
  simp only [List.getElem?_map, h, Option.map_some] at hat
  obtain ⟨r', hr', heq⟩ := Option.map_eq_some_iff.1 hat.symm
  obtain ⟨hkey, hcount⟩ := Prod.mk.inj heq
  exact ⟨r', hr', hkey, hcount, by simpa using congrArg Option.isSome hcount⟩

theorem core_markAll (marks : List Mark) (refs : List Reference) :
    (markAll marks refs).map Reference.core = refs.map Reference.core :=
  map_markAll (fun _ _ _ => rfl) marks refs

theorem getElem?_markAll_of_not_mem {marks : List Mark} {j : RefId}
    (h : j ∉ marks.map (·.ref)) (refs : List Reference) :
    (markAll marks refs)[j]? = refs[j]? := by
  induction marks generalizing refs with
  | nil => rfl
  | cons e marks ih =>
    rw [List.map_cons, List.mem_cons, not_or] at h
    change (markAll marks (refs.modify e.ref (mark e.dep e.offset)))[j]? = refs[j]?
    rw [ih h.2, List.getElem?_modify_ne _ _ (Ne.symm h.1)]

theorem getElem?_markAll {marks : List Mark} (hn : (marks.map (·.ref)).Nodup)
    {e : Mark} (he : e ∈ marks) (refs : List Reference) :
    (markAll marks refs)[e.ref]? = refs[e.ref]?.map (mark e.dep e.offset) := by
  induction marks generalizing refs with
  | nil => cases he
  | cons d marks ih =>
    rw [List.map_cons, List.nodup_cons] at hn
    change (markAll marks (refs.modify d.ref (mark d.dep d.offset)))[e.ref]? = _
    cases he with
    | head => rw [getElem?_markAll_of_not_mem hn.1, List.getElem?_modify_eq]; rfl
    | tail _ he =>
      have hne : d.ref ≠ e.ref := fun h => hn.1 (h ▸ List.mem_map_of_mem he)
      rw [ih hn.2 he, List.getElem?_modify_ne _ _ hne]

end Past

end TriplePlan
