import TriplePlan.Proofs.Source
import Mathlib.Data.List.Induction
import Mathlib.Data.List.Perm.Subperm

/-! A list of sources and the inserts that made it. It has what was put into it, in ascending order
and once each, so that neither the order of the inserts nor a repeated one shows in the list or in
its bytes. -/
namespace TriplePlan.SourceList

def insertAll (l : SourceList) (sources : List Source) : SourceList :=
  sources.foldl (fun l s => (l.insert s).2) l

def answers (l : SourceList) : List Source → List Bool
  | [] => []
  | s :: r => (l.insert s).1 :: (l.insert s).2.answers r

/-- The bytes after some inserts, each into the list that is read from the bytes before it. -/
def storeAll? (bs : Bytes) (sources : List Source) : Option Bytes :=
  sources.foldlM (fun bs s => (ofBytes? bs).map fun l => (l.insert s).2.toBytes) bs

theorem Ascending.insertAll {l : SourceList} (hl : l.Ascending) (sources : List Source) :
    (l.insertAll sources).Ascending := by
  induction sources generalizing l with
  | nil => exact hl
  | cons s r ih => exact ih (hl.insert s)

theorem mem_insertAll (l : SourceList) (sources : List Source) (x : Source) :
    x ∈ (l.insertAll sources).sources ↔ x ∈ l.sources ∨ x ∈ sources := by
  induction sources generalizing l with
  | nil => simp [insertAll]
  | cons s r ih =>
    have hrest := ih (l.insert s).2
    rw [mem_insert] at hrest
    rw [List.mem_cons, ← or_assoc, or_comm (a := x ∈ l.sources)]
    exact hrest

theorem Ascending.answers_eq {l : SourceList} (hl : l.Ascending) (sources : List Source) :
    l.answers sources =
      sources.mapIdx fun i s => decide (s ∉ l.sources ∧ s ∉ sources.take i) := by
  induction sources generalizing l with
  | nil => rfl
  | cons s r ih =>
    have hfirst : (l.insert s).1 = decide (s ∉ l.sources) := by
      rw [Bool.eq_iff_iff, hl.sorted.insert_fst, decide_eq_true_iff]
    have hrest : ∀ i x, (x ∉ (l.insert s).2.sources ∧ x ∉ r.take i) ↔
        (x ∉ l.sources ∧ x ∉ (s :: r).take (i + 1)) := by
      intro i x
      rw [mem_insert, List.take_succ_cons, List.mem_cons]
      tauto
    rw [answers, ih (hl.insert s), List.mapIdx_cons, hfirst]
    simp only [hrest, List.take_zero, List.not_mem_nil, not_false_eq_true, and_true]

/-- A list is what certain inserts make of an empty one: in ascending order it has the sources that
were inserted and no others, so that one is new to it if it was not inserted yet. -/
structure Gathers (sources : List Source) (l : SourceList) : Prop where
  ascending : l.Ascending
  mem : ∀ s, s ∈ l.sources ↔ s ∈ sources
  answer : ∀ s, (l.insert s).1 = true ↔ s ∉ sources

theorem gathers_insertAll (sources : List Source) : Gathers sources (empty.insertAll sources) := by
  have hascending := ascending_empty.insertAll sources
  have hmem : ∀ s, s ∈ (empty.insertAll sources).sources ↔ s ∈ sources := by
    intro s
    rw [mem_insertAll]
    exact or_iff_right List.not_mem_nil
  refine ⟨hascending, hmem, fun s => ?_⟩
  rw [hascending.sorted.insert_fst, hmem]

theorem answers_empty (sources : List Source) :
    empty.answers sources = sources.mapIdx fun i s => decide (s ∉ sources.take i) := by
  have hnone : ∀ s, s ∉ empty.sources := fun s => List.not_mem_nil
  rw [ascending_empty.answers_eq]
  simp only [hnone, not_false_eq_true, true_and]

theorem insertAll_congr {sources other : List Source} (h : ∀ s, s ∈ other ↔ s ∈ sources) :
    empty.insertAll other = empty.insertAll sources := by
  have hother := gathers_insertAll other
  have hsources := gathers_insertAll sources
  refine hother.ascending.ext hsources.ascending fun s => ?_
  rw [hother.mem, hsources.mem, h]

/-- Eight bytes hold the number of sources and the lengths of their texts, as they do of everything
that stands in memory. -/
structure WordSized (l : SourceList) : Prop where
  length : l.sources.length < Cbor.wordSize
  texts : ∀ s ∈ l.sources, s.WordSized

theorem WordSized.ofBytes?_toBytes {l : SourceList} (h : l.WordSized) :
    ofBytes? l.toBytes = some l := SourceList.ofBytes?_toBytes h.length h.texts

theorem WordSized.insertAll {sources : List Source} (h : WordSized ⟨sources⟩) :
    (empty.insertAll sources).WordSized := by
  have hgathers := gathers_insertAll sources
  have hsub : (empty.insertAll sources).sources ⊆ sources := fun s hs => (hgathers.mem s).1 hs
  have hlength := (List.subperm_of_subset hgathers.ascending.nodup hsub).length_le
  exact ⟨hlength.trans_lt h.length, fun s hs => h.texts s (hsub hs)⟩

/-- Nothing is lost or doubled when the list goes through its bytes before each insert. -/
theorem storeAll?_eq {sources : List Source} (h : WordSized ⟨sources⟩) :
    storeAll? empty.toBytes sources = some (empty.insertAll sources).toBytes := by
  induction sources using List.reverseRecOn with
  | nil => rfl
  | append_singleton r s ih =>
    have hfront : r <+: r ++ [s] := List.prefix_append r [s]
    have hr : WordSized ⟨r⟩ :=
      ⟨hfront.length_le.trans_lt h.length, fun x hx => h.texts x (hfront.mem hx)⟩
    have hstep : empty.insertAll (r ++ [s]) = ((empty.insertAll r).insert s).2 := by
      rw [insertAll, List.foldl_append]
      rfl
    have hread := hr.insertAll.ofBytes?_toBytes
    have hbefore := ih hr
    rw [storeAll?] at hbefore ⊢
    rw [List.foldlM_append, hbefore, hstep]
    simp [hread]

/-- Whatever is inserted into an empty list, one source after the other, it gathers, and each insert
answers whether its source is new. Inserts of the same sources in another order make the same list
and the same bytes. Every list is read back from its bytes, so that a run may go through them at
each insert. -/
theorem inserts_gathered :
    (∀ sources, Gathers sources (empty.insertAll sources) ∧
      empty.answers sources = sources.mapIdx fun i s => decide (s ∉ sources.take i)) ∧
    (∀ sources other, (∀ s, s ∈ other ↔ s ∈ sources) →
      empty.insertAll other = empty.insertAll sources ∧
        (empty.insertAll other).toBytes = (empty.insertAll sources).toBytes) ∧
    (∀ l : SourceList, l.WordSized → ofBytes? l.toBytes = some l) ∧
    ∀ sources, WordSized ⟨sources⟩ →
      storeAll? empty.toBytes sources = some (empty.insertAll sources).toBytes := by
  refine ⟨fun sources => ⟨gathers_insertAll sources, answers_empty sources⟩,
    fun sources other h => ?_, fun l hl => hl.ofBytes?_toBytes, fun sources h => storeAll?_eq h⟩
  have hsame := insertAll_congr h
  exact ⟨hsame, congrArg toBytes hsame⟩

def edgeSources : List Source :=
  [⟨"dd", "g", 24⟩, ⟨"é", "abcdefghijklmnopqrstuvwxyz", 65536⟩, ⟨"d", "", 4294967295⟩,
    ⟨"dd", "g", 23⟩, ⟨"dd", "g", 24⟩, ⟨"d", "\x00", 256⟩]

theorem inserts_gathered_edgeSources :
    empty.answers edgeSources = [true, true, true, true, false, true] ∧
      empty.insertAll edgeSources.reverse = empty.insertAll edgeSources ∧
      WordSized ⟨edgeSources⟩ ∧ ofBytes? (toBytes ⟨edgeSources⟩) = some ⟨edgeSources⟩ ∧
        storeAll? empty.toBytes edgeSources = some (empty.insertAll edgeSources).toBytes := by
  have hsized : WordSized ⟨edgeSources⟩ := ⟨by decide, by decide⟩
  obtain ⟨hruns, hsame, hread, hstored⟩ := inserts_gathered
  refine ⟨(hruns edgeSources).2.trans (by decide), ?_, hsized, hread _ hsized, hstored _ hsized⟩
  exact (hsame edgeSources _ fun s => List.mem_reverse).1

end TriplePlan.SourceList
