import TriplePlan.Store.Index
import TriplePlan.Proofs.Key
import TriplePlan.Proofs.Source
import TriplePlan.Proofs.Statement
import TriplePlan.Proofs.Transaction
import Mathlib.Data.Finset.Card

/-! The content of an index is fixed by the facts it was given, a set of triples with the places
where they are stated: which sources stand under a value key, and what a counter counts. Storing
one more fact leads from one such content to the next. -/
namespace TriplePlan

namespace Index

theorem tripleKey_eq (t : Triple Node) (u : Position) :
    Key.tripleKey t u = (Key.Entry.value u (t.get (u.rotate 1)) (t.get (u.rotate 2))
      (t.get u)).key := rfl

theorem tripleKey_inj {t t' : Triple Node} {u u' : Position}
    (h : Key.tripleKey t u = Key.tripleKey t' u') :
    t = t' ∧ u = u' := by
  rw [tripleKey_eq, tripleKey_eq] at h
  have h := Key.Entry.key_injective h
  simp only [Key.Entry.value.injEq] at h
  obtain ⟨rfl, h1, h2, h3⟩ := h
  exact ⟨Triple.ext_rotate (Prod.ext h1 (Prod.ext h2 h3)), rfl⟩

theorem mem_valueKeys {k : Bytes} {t : Triple Node} :
    k ∈ valueKeys t ↔ ∃ u, k = Key.tripleKey t u := by
  simp only [valueKeys, List.mem_map, Position.mem_all, true_and, eq_comm]

theorem tripleKey_mem_valueKeys {t t' : Triple Node} {u : Position} :
    Key.tripleKey t u ∈ valueKeys t' ↔ t = t' := by
  rw [mem_valueKeys]
  constructor
  · rintro ⟨u', h⟩
    exact (tripleKey_inj h).1
  · rintro rfl
    exact ⟨u, rfl⟩

theorem mem_counterKeys {k : Bytes} {t : Triple Node} :
    k ∈ counterKeys t ↔ (∃ u, k = minorKeyOf t u) ∨ ∃ q, k = majorKeyOf t q := by
  simp only [counterKeys, List.mem_append, List.mem_map, Position.mem_all, true_and, eq_comm]

theorem tripleKey_not_mem_counterKeys (t t' : Triple Node) (u : Position) :
    Key.tripleKey t u ∉ counterKeys t' := by
  rw [mem_counterKeys]
  rintro (⟨v, h⟩ | ⟨q, h⟩)
  · cases Key.Entry.key_injective (e := .value ..) (f := .minor ..) h
  · cases Key.Entry.key_injective (e := .value ..) (f := .major ..) h

theorem ne_tripleKey {k : Bytes} {t : Triple Node} (hk : k ∈ counterKeys t) (t' : Triple Node)
    (u : Position) : k ≠ Key.tripleKey t' u := by
  rintro rfl
  exact tripleKey_not_mem_counterKeys t' t u hk

theorem minorKey_ne_tripleKey (u : Position) (m n : Node) (t : Triple Node) (v : Position) :
    Key.minorKey u m n ≠ Key.tripleKey t v := fun h => by
  cases Key.Entry.key_injective (e := .minor ..) (f := .value ..) h

theorem majorKey_ne_tripleKey (q : Position) (c : Node) (t : Triple Node) (v : Position) :
    Key.majorKey q c ≠ Key.tripleKey t v := fun h => by
  cases Key.Entry.key_injective (e := .major ..) (f := .value ..) h

theorem minorKey_mem_counterKeys {u : Position} {m n : Node} {t : Triple Node} :
    Key.minorKey u m n ∈ counterKeys t ↔ t.get (u.rotate 1) = m ∧ t.get (u.rotate 2) = n := by
  rw [mem_counterKeys]
  constructor
  · rintro (⟨v, h⟩ | ⟨q, h⟩)
    · have := Key.Entry.key_injective (e := .minor ..) (f := .minor ..) h
      simp only [Key.Entry.minor.injEq] at this
      obtain ⟨rfl, rfl, rfl⟩ := this
      exact ⟨rfl, rfl⟩
    · cases Key.Entry.key_injective (e := .minor ..) (f := .major ..) h
  · rintro ⟨rfl, rfl⟩
    exact .inl ⟨u, rfl⟩

theorem majorKey_mem_counterKeys {q : Position} {c : Node} {t : Triple Node} :
    Key.majorKey q c ∈ counterKeys t ↔ t.get q = c := by
  rw [mem_counterKeys]
  constructor
  · rintro (⟨v, h⟩ | ⟨p, h⟩)
    · cases Key.Entry.key_injective (e := .major ..) (f := .minor ..) h
    · have := Key.Entry.key_injective (e := .major ..) (f := .major ..) h
      simp only [Key.Entry.major.injEq] at this
      obtain ⟨rfl, rfl⟩ := this
      rfl
  · rintro rfl
    exact .inr ⟨q, rfl⟩

theorem all_nodup : Position.all.Nodup := by decide

theorem valueKeys_nodup (t : Triple Node) : (valueKeys t).Nodup :=
  all_nodup.map fun _ _ h => (tripleKey_inj h).2

theorem counterKeys_nodup (t : Triple Node) : (counterKeys t).Nodup := by
  have hminor : Function.Injective (minorKeyOf t) := by
    intro u v h
    have := Key.Entry.key_injective (e := .minor ..) (f := .minor ..) h
    exact (Key.Entry.minor.inj this).1
  have hmajor : Function.Injective (majorKeyOf t) := by
    intro u v h
    have := Key.Entry.key_injective (e := .major ..) (f := .major ..) h
    exact (Key.Entry.major.inj this).1
  refine List.nodup_append.2 ⟨all_nodup.map hminor, all_nodup.map hmajor, ?_⟩
  intro a ha b hb hab
  obtain ⟨u, -, rfl⟩ := List.mem_map.1 ha
  obtain ⟨q, -, rfl⟩ := List.mem_map.1 hb
  cases Key.Entry.key_injective (e := .minor ..) (f := .major ..) hab

/-- A triple and a place where it is stated. -/
abbrev Fact := Source × Triple Node

def triples (facts : Finset Fact) : Finset (Triple Node) := facts.image Prod.snd

/-- How many triples are counted at a key. -/
def countAt (facts : Finset Fact) (key : Bytes) : Nat :=
  ((triples facts).filter (key ∈ counterKeys ·)).card

def counted (ts : Finset (Triple Node)) (key : Bytes) : Nat :=
  (ts.filter (key ∈ counterKeys ·)).card

/-- There is no counter of zero. -/
def counter (n : Nat) : Option Bytes := if n = 0 then none else some (Key.encodeCount n)

/-- There is no entry without a source. -/
def entry (l : SourceList) : Option Bytes := if l.sources = [] then none else some l.toBytes

/-- The list of the places where a triple is stated. -/
structure Lists (facts : Finset Fact) (t : Triple Node) (l : SourceList) : Prop where
  ascending : l.Ascending
  mem : ∀ s, s ∈ l.sources ↔ (s, t) ∈ facts

/-- What is read at every key once exactly these facts are indexed. -/
structure Content (facts : Finset Fact) (get? : Bytes → Option Bytes) : Prop where
  value : ∀ t u, ∃ l, Lists facts t l ∧ get? (Key.tripleKey t u) = entry l
  counter : ∀ k, (∀ t u, k ≠ Key.tripleKey t u) → get? k = counter (countAt facts k)

/-- Lengths and counts fit into eight bytes. -/
structure Bounded (facts : Finset Fact) : Prop where
  card : facts.card < Cbor.wordSize
  sized : ∀ f ∈ facts, f.1.WordSized

theorem Bounded.subset {facts facts' : Finset Fact} (h : Bounded facts') (hs : facts ⊆ facts') :
    Bounded facts :=
  ⟨(Finset.card_le_card hs).trans_lt h.card, fun f hf => h.sized f (hs hf)⟩

theorem mem_triples {facts : Finset Fact} {t : Triple Node} :
    t ∈ triples facts ↔ ∃ s, (s, t) ∈ facts := by
  simp [triples]

theorem triples_insert (f : Fact) (facts : Finset Fact) :
    triples (Insert.insert f facts) = Insert.insert f.2 (triples facts) :=
  Finset.image_insert _ _ _

theorem countAt_eq (facts : Finset Fact) (key : Bytes) :
    countAt facts key = counted (triples facts) key := rfl

theorem counted_insert {ts : Finset (Triple Node)} {t : Triple Node} (h : t ∉ ts) (key : Bytes) :
    counted (Insert.insert t ts) key =
      if key ∈ counterKeys t then counted ts key + 1 else counted ts key := by
  rw [counted, Finset.filter_insert]
  split
  · rw [Finset.card_insert_of_notMem fun hm => h (Finset.mem_filter.1 hm).1, counted]
  · rfl

theorem counted_ne_zero {ts : Finset (Triple Node)} {t : Triple Node} (ht : t ∈ ts) {key : Bytes}
    (hkey : key ∈ counterKeys t) : counted ts key ≠ 0 :=
  Finset.card_ne_zero_of_mem (Finset.mem_filter.2 ⟨ht, hkey⟩)

theorem counted_eq_zero {ts : Finset (Triple Node)} {key : Bytes}
    (h : ∀ t ∈ ts, key ∉ counterKeys t) : counted ts key = 0 := by
  rw [counted, Finset.filter_false_of_mem h, Finset.card_empty]

theorem counted_mono {ts ts' : Finset (Triple Node)} (h : ts ⊆ ts') (key : Bytes) :
    counted ts key ≤ counted ts' key :=
  Finset.card_le_card (Finset.filter_subset_filter _ h)

theorem counted_minorKey (ts : Finset (Triple Node)) (u : Position) (m n : Node) :
    counted ts (Key.minorKey u m n) =
      (ts.filter fun t => t.get (u.rotate 1) = m ∧ t.get (u.rotate 2) = n).card := by
  simp only [counted, minorKey_mem_counterKeys]

theorem counted_majorKey (ts : Finset (Triple Node)) (q : Position) (c : Node) :
    counted ts (Key.majorKey q c) = (ts.filter fun t => t.get q = c).card := by
  simp only [counted, majorKey_mem_counterKeys]

theorem Lists.eq_nil_iff {facts : Finset Fact} {t : Triple Node} {l : SourceList}
    (h : Lists facts t l) :
    l.sources = [] ↔ t ∉ triples facts := by
  simp only [mem_triples, not_exists, List.eq_nil_iff_forall_not_mem, h.mem]

theorem length_le_card {facts : Finset Fact} {t : Triple Node} {sources : List Source}
    (hn : sources.Nodup) (h : ∀ s ∈ sources, (s, t) ∈ facts) : sources.length ≤ facts.card := by
  have hinj : Function.Injective fun s : Source => (s, t) := fun _ _ h => (Prod.mk.inj h).1
  rw [← List.length_map (fun s : Source => (s, t)), ← List.toFinset_card_of_nodup (hn.map hinj)]
  refine Finset.card_le_card ?_
  intro f hf
  obtain ⟨s, hs, rfl⟩ := List.mem_map.1 (List.mem_toFinset.1 hf)
  exact h s hs

theorem Lists.length_le {facts : Finset Fact} {t : Triple Node} {l : SourceList}
    (h : Lists facts t l) :
    l.sources.length ≤ facts.card :=
  length_le_card h.ascending.nodup fun s => (h.mem s).1

theorem Lists.ext {facts : Finset Fact} {t : Triple Node} {l k : SourceList} (hl : Lists facts t l)
    (hk : Lists facts t k) : l = k :=
  hl.ascending.ext hk.ascending fun s => (hl.mem s).trans (hk.mem s).symm

theorem countAt_le (facts : Finset Fact) (k : Bytes) : countAt facts k ≤ facts.card :=
  (Finset.card_filter_le _ _).trans Finset.card_image_le

/-- The facts fix what is read at every key. -/
theorem Content.unique {facts : Finset Fact} {g g' : Bytes → Option Bytes} (h : Content facts g)
    (h' : Content facts g') : g = g' := by
  funext k
  by_cases hk : ∃ t u, k = Key.tripleKey t u
  · obtain ⟨t, u, rfl⟩ := hk
    obtain ⟨l, hl, hg⟩ := h.value t u
    obtain ⟨l', hl', hg'⟩ := h'.value t u
    rw [hg, hg', hl.ext hl']
  · simp only [not_exists] at hk
    rw [h.counter k hk, h'.counter k hk]

theorem content_empty : Content ∅ fun _ => none := by
  have hlists : ∀ t, Lists ∅ t .empty := fun t =>
    ⟨SourceList.ascending_empty, by simp [SourceList.empty]⟩
  refine ⟨fun t u => ⟨.empty, hlists t, by simp [entry, SourceList.empty]⟩, ?_⟩
  intro k _
  simp [Index.counter, countAt, triples]

end Index

end TriplePlan
