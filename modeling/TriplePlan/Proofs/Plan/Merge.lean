import TriplePlan.Proofs.Plan.Placement

/-! The past of a variable as a whole. The list of its references, the index that is asked for one
of them or walked through for those of a variable, and the order of the merge all speak of the
groups that were put in. -/
namespace TriplePlan

open Assignment

namespace Past

variable {groups : List (Var × Nat × List RefId)} {references : List Reference}

def mergeKeys (groups : List (Var × Nat × List RefId)) (references : List Reference) :
    List (Nat × Nat) :=
  groups.flatMap fun g => g.2.2.map fun rid => (g.2.1, countOf references rid)

/-- A past has the references of certain groups. Each is found by the variable of its group and its
place there, and so are all of a variable in turn. The merge takes every place once, by position and
then by count, and equal ones as they stand in the list. -/
structure Gathers (groups : List (Var × Nat × List RefId)) (references : List Reference)
    (p : Past) : Prop where
  cursors : p.cursors = groups.flatMap (·.2.2)
  lookup : ∀ g ∈ groups, ∀ offset, p.lookup g.1 offset = g.2.2[offset]?
  lookup_other : ∀ dep, dep ∉ groups.map (·.1) → ∀ offset, p.lookup dep offset = none
  cursorsFor : ∀ g ∈ groups, p.cursorsFor g.1 = g.2.2
  cursorsFor_other : ∀ dep, dep ∉ groups.map (·.1) → p.cursorsFor dep = []
  order : p.order.Perm (List.range p.size)
  sorted : p.order.Pairwise fun i j => ∀ k l, (mergeKeys groups references)[i]? = some k →
    (mergeKeys groups references)[j]? = some l →
      k.1 < l.1 ∨ k.1 = l.1 ∧ (k.2 < l.2 ∨ k.2 = l.2 ∧ i < j)
  merged : p.inMergeOrder.map some = p.order.map (p.cursors[·]?)
  once : p.inMergeOrder.Perm p.cursors

theorem lookup_gathered_of_not_mem (hn : (groups.map (·.1)).Nodup) {dep : Var}
    (hdep : dep ∉ groups.map (·.1)) (offset : Nat) :
    (gathered groups references).lookup dep offset = none := by
  refine Option.eq_none_iff_forall_ne_some.2 fun rid h => hdep ?_
  obtain ⟨g, hg, rfl, -⟩ := (lookup_filled_eq_some_iff hn).1 h
  exact List.mem_map_of_mem hg

theorem map_fst_mergeKeys (groups : List (Var × Nat × List RefId)) (references : List Reference) :
    (mergeKeys groups references).map (·.1) = (filled groups).positions := by
  rw [mergeKeys, positions_filled, List.map_flatMap]
  refine List.flatMap_congr fun g _ => ?_
  rw [List.map_map]
  exact List.map_const' ..

theorem map_snd_mergeKeys (groups : List (Var × Nat × List RefId)) (references : List Reference) :
    (mergeKeys groups references).map (·.2) =
      (filled groups).cursors.map (countOf references) := by
  rw [mergeKeys, cursors_filled, List.map_flatMap, List.map_flatMap]
  exact List.flatMap_congr fun g _ => List.map_map

theorem rank_filled {i : Nat} {k : Nat × Nat} (hk : (mergeKeys groups references)[i]? = some k) :
    (filled groups).rank references i = k := by
  have hposition := congrArg (·[i]?) (map_fst_mergeKeys groups references)
  have hcount := congrArg (·[i]?) (map_snd_mergeKeys groups references)
  simp only [List.getElem?_map, hk, Option.map_some] at hposition hcount
  rw [rank, ← hposition, ← hcount]
  rfl

theorem rankLe_iff {a b : Nat × Nat} : rankLe a b ↔ a.1 < b.1 ∨ a.1 = b.1 ∧ a.2 ≤ b.2 := by
  simp [rankLe]

theorem order_finish_pairwise (p : Past) (references : List Reference) :
    (p.finish references).order.Pairwise fun i j =>
      rankLe (p.rank references i) (p.rank references j) ∧
        (rankLe (p.rank references j) (p.rank references i) → i < j) := by
  refine stableSort_pairwise (fun i j k hij hjk => ?_) (fun i j => ?_) List.pairwise_lt_range
  · rw [rankLe_iff] at hij hjk ⊢
    omega
  · rw [rankLe_iff, rankLe_iff]
    omega

theorem order_finish_perm (p : Past) (references : List Reference) :
    (p.finish references).order.Perm (List.range p.size) :=
  stableSort_perm _ _

theorem map_some_filterMap {α β : Type} {f : α → Option β} {l : List α}
    (h : ∀ a ∈ l, (f a).isSome) : (l.filterMap f).map some = l.map f := by
  induction l with
  | nil => rfl
  | cons a l ih =>
    obtain ⟨ha, hl⟩ := List.forall_mem_cons.1 h
    obtain ⟨b, hb⟩ := Option.isSome_iff_exists.1 ha
    rw [List.filterMap_cons_some hb, List.map_cons, List.map_cons, ih hl, hb]

theorem filterMap_range_getElem? {α : Type} (l : List α) :
    (List.range l.length).filterMap (l[·]?) = l := by
  refine List.map_injective_iff.2 (fun _ _ => Option.some.inj) ?_
  rw [map_some_filterMap fun i hi => by simpa using hi]
  refine List.ext_getElem? fun i => ?_
  rw [List.getElem?_map, List.getElem?_map]
  by_cases hi : i < l.length
  · rw [List.getElem?_range hi, List.getElem?_eq_getElem hi]
    simp [hi]
  · rw [List.getElem?_eq_none (by simpa using hi), List.getElem?_eq_none (by simpa using hi)]
    rfl

theorem map_some_inMergeOrder_finish (p : Past) (references : List Reference) :
    (p.finish references).inMergeOrder.map some =
      (p.finish references).order.map ((p.finish references).cursors[·]?) := by
  refine map_some_filterMap fun i hi => ?_
  have hlt := List.mem_range.1 ((order_finish_perm p references).mem_iff.1 hi)
  exact Option.isSome_of_eq_some (List.getElem?_eq_getElem (l := p.cursors) hlt)

theorem inMergeOrder_finish_perm (p : Past) (references : List Reference) :
    (p.finish references).inMergeOrder.Perm p.cursors := by
  have hperm := (order_finish_perm p references).filterMap (p.cursors[·]?)
  rwa [size, filterMap_range_getElem?] at hperm

theorem gathers_gathered (hn : (groups.map (·.1)).Nodup) (references : List Reference) :
    Gathers groups references (gathered groups references) := by
  refine ⟨cursors_filled groups, fun g hg => lookup_gathered hn hg,
    fun dep hdep => lookup_gathered_of_not_mem hn hdep,
    fun g hg => cursorsFor_gathered hn hg,
    fun dep hdep => cursorsFor_eq fun offset => ?_,
    order_finish_perm _ references, ?_, map_some_inMergeOrder_finish _ references,
    inMergeOrder_finish_perm _ references⟩
  · rw [lookup_gathered_of_not_mem hn hdep, List.getElem?_nil]
  · refine (order_finish_pairwise _ references).imp fun hle k l hk hl => ?_
    obtain ⟨hab, hba⟩ := hle
    rw [rank_filled hk, rank_filled hl, rankLe_iff] at hab hba
    omega

/-- Whatever groups are put into a past, no variable twice, it gathers them; and an assignment has
one that gathers the groups of the variables before it. -/
theorem past_gathers :
    (∀ groups references, (groups.map (·.1)).Nodup →
      Gathers groups references (gathered groups references)) ∧
    ∀ {σ : Type} [Readable σ] (requireRoot : Bool) (s : σ) assigned references c out references',
      assign requireRoot s assigned c references = (.ok out, references') →
        ∃ a, out = assigned ++ [a] ∧ Gathers (pastGroups assigned c) references' a.past := by
  refine ⟨fun groups references hn => gathers_gathered hn references, ?_⟩
  intro σ _ requireRoot s assigned references c out references' h
  obtain ⟨e, -, hrun⟩ | ⟨a, -, -, hpast, hrun⟩ := assign_cases requireRoot s assigned c references
  · rw [hrun] at h
    cases h
  · generalize markAll a.past.marks references = followed at hpast hrun
    rw [hrun] at h
    cases h
    refine ⟨a, rfl, ?_⟩
    rw [hpast]
    exact gathers_gathered (nodup_pastGroups assigned c) references'

def countedReferences (counts : List Nat) : List Reference :=
  counts.map fun n => { Reference.plain "" 0 .ground none none with cursor := some (.probed [] n) }

def prefixAssigned : List Assignment :=
  [⟨"ab"⟩, ⟨"a"⟩].map fun v => ⟨v, .zero, [], [], none, .empty, .empty, []⟩

def prefixCodex : Codex :=
  ⟨{ Codex.Content.empty with double := .ofList [(⟨"ab"⟩, [0, 3]), (⟨"a"⟩, [1, 2])] }, ⟨"x"⟩⟩

theorem past_gathers_prefixes : ∃ references a,
    assign false (.empty : Store) prefixAssigned prefixCodex (countedReferences [5, 3, 4, 5]) =
      (.ok (prefixAssigned ++ [a]), references) ∧
    (a.past.cursors, a.past.order, a.past.cursorsFor ⟨"a"⟩, a.past.cursorsFor ⟨"ab"⟩) =
      ([1, 2, 0, 3], [2, 3, 0, 1], [1, 2], [0, 3]) ∧
    Gathers (pastGroups prefixAssigned prefixCodex) references a.past ∧
    Gathers (pastGroups prefixAssigned prefixCodex) references
      (gathered (pastGroups prefixAssigned prefixCodex) references) := by
  have hrun : (assign false (.empty : Store) prefixAssigned prefixCodex
      (countedReferences [5, 3, 4, 5])).1.map (fun out => out[2]?.map fun a =>
        (a.past.cursors, a.past.order, a.past.cursorsFor ⟨"a"⟩, a.past.cursorsFor ⟨"ab"⟩)) =
      .ok (some ([1, 2, 0, 3], [2, 3, 0, 1], [1, 2], [0, 3])) := by
    decide +kernel
  obtain ⟨out, hout, hpast⟩ := map_eq_ok_iff.1 hrun
  obtain ⟨hgathered, hassign⟩ := past_gathers
  obtain ⟨a, rfl, hgathers⟩ := hassign false _ _ _ _ out _ (Prod.ext hout rfl)
  exact ⟨_, a, Prod.ext hout rfl, Option.some.inj hpast, hgathers,
    hgathered _ _ (nodup_pastGroups prefixAssigned prefixCodex)⟩

end Past

end TriplePlan
