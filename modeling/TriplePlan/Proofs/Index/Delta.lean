import TriplePlan.Proofs.Index.Documents
import TriplePlan.Proofs.Index.Effect

/-! What indexing a document adds to a store, whatever the store holds: its rotations may disagree
and its counters count something else. The lists of the stated triples gain the places where they
are stated, and the counters of those that the store lacked under their subject grow by their
number. -/
namespace TriplePlan

def Document.triples (d : Document) : Finset (Triple Node) :=
  (d.dataset.toList.map fun e => Index.ground d.name e.2.2).toFinset

namespace Index

variable {s : Store} {facts : Finset Fact} {g : Bytes → Option Bytes} {triple : Triple Node}
  {source : Source}

/-- The triples without an entry in the rotation of their subject. -/
def fresh (s : Store) (ts : Finset (Triple Node)) : Finset (Triple Node) :=
  ts.filter fun t => s.get? (Key.tripleKey t .subject) = none

def growth (s : Store) (ts : Finset (Triple Node)) (key : Bytes) : Nat := counted (fresh s ts) key

theorem fresh_insert (s : Store) (t : Triple Node) (ts : Finset (Triple Node)) :
    fresh s (Insert.insert t ts) = if s.get? (Key.tripleKey t .subject) = none
      then Insert.insert t (fresh s ts) else fresh s ts :=
  Finset.filter_insert _ _ _

theorem not_mem_fresh {t : Triple Node} {ts : Finset (Triple Node)} (h : t ∉ ts) : t ∉ fresh s ts :=
  fun hm => h (Finset.mem_filter.1 hm).1

theorem fresh_insert_of_old {t : Triple Node} {ts : Finset (Triple Node)}
    (h : ¬ (t ∉ ts ∧ s.get? (Key.tripleKey t .subject) = none)) :
    fresh s (Insert.insert t ts) = fresh s ts := by
  by_cases hmem : t ∈ ts
  · rw [Finset.insert_eq_of_mem hmem]
  · rw [fresh_insert, if_neg fun hnone => h ⟨hmem, hnone⟩]

theorem card_fresh_insert {t : Triple Node} {ts : Finset (Triple Node)} (hmem : t ∉ ts)
    (hnone : s.get? (Key.tripleKey t .subject) = none) :
    (fresh s (Insert.insert t ts)).card = (fresh s ts).card + 1 := by
  rw [fresh_insert, if_pos hnone, Finset.card_insert_of_notMem (not_mem_fresh hmem)]

theorem growth_insert {t : Triple Node} {ts : Finset (Triple Node)} (hmem : t ∉ ts)
    (hnone : s.get? (Key.tripleKey t .subject) = none) {key : Bytes} (hkey : key ∈ counterKeys t) :
    growth s (Insert.insert t ts) key = growth s ts key + 1 := by
  rw [growth, fresh_insert, if_pos hnone, counted_insert (not_mem_fresh hmem), if_pos hkey, growth]

theorem growth_insert_of_not_mem (s : Store) {t : Triple Node} (ts : Finset (Triple Node))
    {key : Bytes} (hkey : key ∉ counterKeys t) :
    growth s (Insert.insert t ts) key = growth s ts key := by
  by_cases h : t ∉ ts ∧ s.get? (Key.tripleKey t .subject) = none
  · rw [growth, fresh_insert, if_pos h.2, counted_insert (not_mem_fresh h.1), if_neg hkey, growth]
  · rw [growth, fresh_insert_of_old h, growth]

theorem growth_ne_zero {t : Triple Node} {ts : Finset (Triple Node)} (hmem : t ∈ ts)
    (hnone : s.get? (Key.tripleKey t .subject) = none) {key : Bytes} (hkey : key ∈ counterKeys t) :
    growth s ts key ≠ 0 := counted_ne_zero (Finset.mem_filter.2 ⟨hmem, hnone⟩) hkey

theorem growth_mono {ts ts' : Finset (Triple Node)} (h : ts ⊆ ts') (key : Bytes) :
    growth s ts key ≤ growth s ts' key :=
  counted_mono (Finset.filter_subset_filter _ h) key

/-- The number of an entry has grown by `n`. Where that is nothing the entry is the same, even if no
number can be read. -/
def Grown (n : Nat) (before after : Option Bytes) : Prop :=
  if n = 0 then after = before else ∃ c, countIn? before = some c ∧ countIn? after = some (c + n)

theorem Grown.countedUp {n : Nat} {before value after : Option Bytes} (h : Grown n before value)
    (hroom : ∀ c, countIn? before = some c → c + (n + 1) < Cbor.wordSize)
    (hup : countedUp value = some after) : Grown (n + 1) before after := by
  obtain ⟨c, hc, rfl⟩ := Option.map_eq_some_iff.1 hup
  have hdecode : ∀ k, k < Cbor.wordSize → countIn? (some (Key.encodeCount k)) = some k :=
    fun k hk => Key.decodeCount?_encodeCount hk
  rw [Grown, if_neg (Nat.succ_ne_zero n)]
  rw [Grown] at h
  split at h
  · rename_i hzero
    subst hzero h
    exact ⟨c, hc, by rw [hdecode _ (hroom c hc), Nat.zero_add]⟩
  · obtain ⟨b, hb, hvalue⟩ := h
    rw [hvalue] at hc
    obtain rfl := Option.some.inj hc
    exact ⟨b, hb, by rw [Nat.add_assoc, hdecode _ (hroom b hb)]⟩

theorem Grown.isSome_iff {n : Nat} {before after : Option Bytes} (h : Grown n before after) :
    (countIn? after).isSome ↔ (countIn? before).isSome := by
  rw [Grown] at h
  split at h
  · rw [h]
  · obtain ⟨c, hbefore, hafter⟩ := h
    rw [hbefore, hafter]
    rfl

theorem Grown.isSome {n : Nat} {before after : Option Bytes} (h : Grown n before after)
    (hn : n ≠ 0) : (countIn? before).isSome := by
  rw [Grown, if_neg hn] at h
  obtain ⟨c, hbefore, -⟩ := h
  rw [hbefore]
  rfl

theorem Grown.readCount {n : Nat} {key : Bytes} {s' : Store}
    (h : Grown n (s.get? key) (s'.get? key)) :
    readCount s' key = (readCount s key).map (· + n) := by
  rw [Grown] at h
  split at h
  · rename_i hn
    subst hn
    have hsame : TriplePlan.readCount s' key = TriplePlan.readCount s key := by
      simp only [TriplePlan.readCount, Readable.get?, h]
    rw [hsame]
    cases TriplePlan.readCount s key <;> rfl
  · obtain ⟨c, hbefore, hafter⟩ := h
    rw [(readCount_ok_iff rfl).2 hafter, (readCount_ok_iff rfl).2 hbefore]
    rfl

theorem sourcesIn?_of_bind {value : Option Bytes} {list : SourceList}
    (h : value.bind SourceList.ofBytes? = some list) : sourcesIn? value = some list := by
  obtain ⟨bytes, rfl, hlist⟩ := Option.bind_eq_some_iff.1 h
  exact hlist

theorem length_le_of_gains {t : Triple Node} {old list : SourceList}
    (h : old.Gains (fun x => (x, t) ∈ facts) list) :
    list.sources.length ≤ old.sources.length + facts.card := by
  obtain ⟨gained, hnodup, hgained, hperm⟩ := h.perm
  rw [hperm.length_eq, List.length_append]
  exact Nat.add_le_add_left (length_le_card hnodup fun x hx => ((hgained x).1 hx).1) _

theorem withSource_gains {old list : SourceList} {added : Source → Prop}
    {value value' : Option Bytes} (h : old.Gains added list) (hlist : sourcesIn? value = some list)
    (hwrite : withSource source value = some value')
    (hlen : (list.insert source).2.sources.length < Cbor.wordSize)
    (hsized : ∀ x ∈ (list.insert source).2.sources, x.WordSized) :
    ∃ new, value'.bind SourceList.ofBytes? = some new ∧
      old.Gains (fun x => x = source ∨ added x) new := by
  refine ⟨(list.insert source).2, ?_, h.insert source⟩
  have hpresent := withSource_isSome hwrite
  rw [withSource_eq hlist] at hwrite
  obtain rfl := Option.some.inj hwrite
  split
  · exact SourceList.ofBytes?_toBytes hlen hsized
  · rename_i hold
    rw [if_neg hold] at hpresent
    obtain ⟨bytes, rfl⟩ := Option.isSome_iff_exists.1 hpresent
    rw [SourceList.insert_snd_of_not_added (Bool.eq_false_iff.2 hold)]
    exact hlist

/-- Lengths and counts fit into eight bytes also after the facts are stored. -/
structure Room (s : Store) (facts : Finset Fact) : Prop where
  sized : ∀ f ∈ facts, f.1.WordSized
  lists : ∀ t ∈ triples facts, ∀ u list, sourcesIn? (s.get? (Key.tripleKey t u)) = some list →
    list.sources.length + facts.card < Cbor.wordSize ∧ ∀ x ∈ list.sources, x.WordSized
  counts : ∀ key n, readCount s key = .ok n → n + growth s (triples facts) key < Cbor.wordSize

/-- What is read at every key once the facts are stored. -/
structure Delta (s : Store) (facts : Finset Fact) (get? : Bytes → Option Bytes) : Prop where
  stated : ∀ t ∈ triples facts, ∀ u, ∃ old new,
    sourcesIn? (s.get? (Key.tripleKey t u)) = some old ∧
      (get? (Key.tripleKey t u)).bind SourceList.ofBytes? = some new ∧
        old.Gains (fun x => (x, t) ∈ facts) new
  unstated : ∀ t, t ∉ triples facts → ∀ u,
    get? (Key.tripleKey t u) = s.get? (Key.tripleKey t u)
  counter : ∀ key, (∀ t u, key ≠ Key.tripleKey t u) →
    Grown (growth s (triples facts) key) (s.get? key) (get? key)

/-- Every list that stands under a value key is sorted. -/
def ListsSorted (s : Store) : Prop :=
  ∀ t u list, (s.get? (Key.tripleKey t u)).bind SourceList.ofBytes? = some list → list.Sorted

theorem triples_subset {facts' : Finset Fact} (h : facts ⊆ facts') :
    triples facts ⊆ triples facts' :=
  Finset.image_subset_image h

theorem Room.subset {facts' : Finset Fact} (h : Room s facts') (hsub : facts ⊆ facts') :
    Room s facts where
  sized f hf := h.sized f (hsub hf)
  lists t ht u list hlist := by
    obtain ⟨hlen, hsized⟩ := h.lists t (triples_subset hsub ht) u list hlist
    exact ⟨(Nat.add_le_add_left (Finset.card_le_card hsub) _).trans_lt hlen, hsized⟩
  counts key n hn :=
    (Nat.add_le_add_left (growth_mono (triples_subset hsub) key) n).trans_lt (h.counts key n hn)

/-- It is enough that every entry leaves room for all facts. -/
theorem room_of_entries (hb : Bounded facts)
    (hlists : ∀ e ∈ s.entries, ∀ list, SourceList.ofBytes? e.2 = some list →
      list.sources.length + facts.card < Cbor.wordSize ∧ ∀ x ∈ list.sources, x.WordSized)
    (hcounts : ∀ e ∈ s.entries, ∀ n, Key.decodeCount? e.2 = some n →
      n + facts.card < Cbor.wordSize) : Room s facts where
  sized := hb.sized
  lists t _ u list hlist := by
    cases hget : s.get? (Key.tripleKey t u) with
    | none =>
      rw [hget] at hlist
      cases hlist
      exact ⟨by simpa [SourceList.empty] using hb.card, nofun⟩
    | some bytes =>
      rw [hget] at hlist
      exact hlists _ (OrderedMap.mem_entries.2 hget) list hlist
  counts key n hn := by
    have hgrowth : growth s (triples facts) key ≤ facts.card :=
      (counted_mono (Finset.filter_subset _ _) key).trans (countAt_le facts key)
    refine (Nat.add_le_add_left hgrowth n).trans_lt ?_
    have hcount := (readCount_ok_iff rfl).1 hn
    change countIn? (s.get? key) = some n at hcount
    cases hget : s.get? key with
    | none =>
      rw [hget] at hcount
      cases hcount
      rw [Nat.zero_add]
      exact hb.card
    | some bytes =>
      rw [hget] at hcount
      exact hcounts _ (OrderedMap.mem_entries.2 hget) n hcount

theorem delta_empty (s : Store) : Delta s ∅ s.get? where
  stated := nofun
  unstated _ _ _ := rfl
  counter _ _ := by simp [Grown, growth, fresh, triples, counted]

namespace Delta

theorem sources_isSome_iff (h : Delta s facts g) (t : Triple Node) (u : Position) :
    (sourcesIn? (g (Key.tripleKey t u))).isSome ↔
      (sourcesIn? (s.get? (Key.tripleKey t u))).isSome := by
  by_cases ht : t ∈ triples facts
  · obtain ⟨old, new, hold, hnew, -⟩ := h.stated t ht u
    rw [hold, sourcesIn?_of_bind hnew]
    rfl
  · rw [h.unstated t ht u]

theorem eq_none_iff (h : Delta s facts g) (t : Triple Node) (u : Position) :
    g (Key.tripleKey t u) = none ↔ t ∉ triples facts ∧ s.get? (Key.tripleKey t u) = none := by
  by_cases ht : t ∈ triples facts
  · obtain ⟨old, new, -, hnew, -⟩ := h.stated t ht u
    obtain ⟨bytes, hbytes, -⟩ := Option.bind_eq_some_iff.1 hnew
    simp [ht, hbytes]
  · simp [ht, h.unstated t ht u]

theorem counter_of_mem (h : Delta s facts g) {t : Triple Node} {key : Bytes}
    (hkey : key ∈ counterKeys t) :
    Grown (growth s (triples facts) key) (s.get? key) (g key) := h.counter key (ne_tripleKey hkey)

theorem storable (h : Delta s facts g) {t : Triple Node} (ht : t ∈ triples facts) :
    Storable s.get? t := by
  refine ⟨fun key hkey => ?_, fun hnone key hkey => ?_⟩
  · obtain ⟨u, rfl⟩ := mem_valueKeys.1 hkey
    obtain ⟨old, new, hold, -⟩ := h.stated t ht u
    rw [hold]
    rfl
  · exact (h.counter_of_mem hkey).isSome (growth_ne_zero ht hnone hkey)

/-- A triple is refused now if it was refused in the beginning. -/
theorem storable_iff (h : Delta s facts g) (t : Triple Node) :
    Storable g t ↔ Storable s.get? t := by
  by_cases ht : t ∈ triples facts
  · refine iff_of_true ⟨fun key hkey => ?_, fun hnone => ?_⟩ (h.storable ht)
    · obtain ⟨u, rfl⟩ := mem_valueKeys.1 hkey
      exact (h.sources_isSome_iff t u).2 ((h.storable ht).sources _ hkey)
    · exact absurd ht ((h.eq_none_iff t .subject).1 hnone).1
  · have hsources : (∀ key ∈ valueKeys t, (sourcesIn? (g key)).isSome) ↔
        ∀ key ∈ valueKeys t, (sourcesIn? (s.get? key)).isSome := by
      refine forall₂_congr fun key hkey => ?_
      obtain ⟨u, rfl⟩ := mem_valueKeys.1 hkey
      exact h.sources_isSome_iff t u
    have hcounters : (∀ key ∈ counterKeys t, (countIn? (g key)).isSome) ↔
        ∀ key ∈ counterKeys t, (countIn? (s.get? key)).isSome :=
      forall₂_congr fun key hkey => (h.counter_of_mem hkey).isSome_iff
    have hnew := h.unstated t ht .subject
    constructor
    · rintro ⟨hs, hc⟩
      exact ⟨hsources.1 hs, fun hnone => hcounters.1 (hc (hnew.trans hnone))⟩
    · rintro ⟨hs, hc⟩
      exact ⟨hsources.2 hs, fun hnone => hcounters.2 (hc (hnew.symm.trans hnone))⟩

theorem sources (h : Delta s facts g) (hsorted : ListsSorted s) {t : Triple Node} {u : Position}
    {old : SourceList} (hold : sourcesIn? (s.get? (Key.tripleKey t u)) = some old) :
    ∃ list, sourcesIn? (g (Key.tripleKey t u)) = some list ∧
      old.Gains (fun x => (x, t) ∈ facts) list := by
  by_cases ht : t ∈ triples facts
  · obtain ⟨old', new, hold', hnew, hgains⟩ := h.stated t ht u
    rw [hold] at hold'
    obtain rfl := Option.some.inj hold'
    exact ⟨new, sourcesIn?_of_bind hnew, hgains⟩
  · refine ⟨old, by rw [h.unstated t ht u, hold], ?_⟩
    have hsort : old.Sorted := by
      cases hget : s.get? (Key.tripleKey t u) with
      | none =>
        rw [hget] at hold
        cases hold
        exact .nil
      | some bytes =>
        rw [hget] at hold
        exact hsorted t u old (by rw [hget]; exact hold)
    exact hsort.gains.congr fun x => iff_false_intro fun hx => ht (mem_triples.2 ⟨x, hx⟩)

theorem readCount {s' : Store} (h : Delta s facts s'.get?) {key : Bytes}
    (hkey : ∀ t u, key ≠ Key.tripleKey t u) :
    readCount s' key = (readCount s key).map (· + growth s (triples facts) key) :=
  (h.counter key hkey).readCount

theorem listsSorted {s' : Store} (h : Delta s facts s'.get?) (hsorted : ListsSorted s) :
    ListsSorted s' := by
  intro t u list hlist
  by_cases ht : t ∈ triples facts
  · obtain ⟨old, new, -, hnew, hgains⟩ := h.stated t ht u
    rw [hlist] at hnew
    obtain rfl := Option.some.inj hnew
    exact hgains.sorted
  · rw [h.unstated t ht u] at hlist
    exact hsorted t u list hlist

theorem kept (h : Delta s facts g) {key : Bytes} (hvalue : ∀ t ∈ triples facts, key ∉ valueKeys t)
    (hcounter : ∀ t ∈ fresh s (triples facts), key ∉ counterKeys t) : g key = s.get? key := by
  by_cases hkey : ∃ t u, key = Key.tripleKey t u
  · obtain ⟨t, u, rfl⟩ := hkey
    exact h.unstated t (fun ht => hvalue t ht (tripleKey_mem_valueKeys.2 rfl)) u
  · simp only [not_exists] at hkey
    have hgrown := h.counter key hkey
    rwa [growth, counted_eq_zero hcounter] at hgrown

end Delta

variable {t t' : Transaction} {new : Bool}

theorem Stored.tripleKey_eq (h : Stored triple source t new t') {other : Triple Node}
    (hne : other ≠ triple) (u : Position) :
    t'.get? (Key.tripleKey other u) = t.get? (Key.tripleKey other u) :=
  h.kept _ (mt tripleKey_mem_valueKeys.1 hne) (tripleKey_not_mem_counterKeys other triple u)

theorem Delta.stated_insert (hd : Delta s facts t.get?) (hsorted : ListsSorted s)
    (hroom : Room s (Insert.insert (source, triple) facts))
    (h : Stored triple source t new t') (hs : Storable s.get? triple) (u : Position) :
    ∃ old new, sourcesIn? (s.get? (Key.tripleKey triple u)) = some old ∧
      (t'.get? (Key.tripleKey triple u)).bind SourceList.ofBytes? = some new ∧
        old.Gains (fun x => (x, triple) ∈ Insert.insert (source, triple) facts) new := by
  have hkey : Key.tripleKey triple u ∈ valueKeys triple := tripleKey_mem_valueKeys.2 rfl
  obtain ⟨old, hold⟩ := Option.isSome_iff_exists.1 (hs.sources _ hkey)
  obtain ⟨list, hlist, hgains⟩ := hd.sources hsorted hold
  have hmem : triple ∈ triples (Insert.insert (source, triple) facts) :=
    mem_triples.2 ⟨source, Finset.mem_insert_self _ _⟩
  obtain ⟨hlen, hsized⟩ := hroom.lists triple hmem u old hold
  have hstates : ∀ x, (x, triple) ∈ Insert.insert (source, triple) facts ↔
      x = source ∨ (x, triple) ∈ facts := by
    intro x
    rw [Finset.mem_insert, Prod.mk.injEq, and_iff_left rfl]
  have hgains' := (hgains.insert source).congr hstates
  obtain ⟨new, hnew, hgains''⟩ := withSource_gains hgains hlist (h.value _ hkey)
    ((length_le_of_gains hgains').trans_lt hlen) fun x hx =>
      (hgains'.mem hx).elim (hsized x) fun hx => hroom.sized _ hx
  exact ⟨old, new, hold, hnew, hgains''.congr hstates⟩

/-- Storing a fact whose triple can be stored makes its difference. -/
theorem Delta.insert (hd : Delta s facts t.get?) (hsorted : ListsSorted s)
    (hroom : Room s (Insert.insert (source, triple) facts))
    (h : Stored triple source t new t') (hs : Storable s.get? triple) :
    Delta s (Insert.insert (source, triple) facts) t'.get? where
  stated other hother u := by
    by_cases hne : other = triple
    · subst hne
      exact hd.stated_insert hsorted hroom h hs u
    · have hold : other ∈ triples facts := by
        rw [triples_insert] at hother
        exact Finset.mem_of_mem_insert_of_ne hother hne
      obtain ⟨old, new, hget, hnew, hgains⟩ := hd.stated other hold u
      refine ⟨old, new, hget, by rwa [h.tripleKey_eq hne], hgains.congr fun x => ?_⟩
      rw [Finset.mem_insert, Prod.mk.injEq, or_iff_right fun heq => hne heq.2]
  unstated other hother u := by
    rw [triples_insert, Finset.mem_insert, not_or] at hother
    rw [h.tripleKey_eq hother.1, hd.unstated other hother.2]
  counter key hkey := by
    have hvalue : key ∉ valueKeys triple := fun hv => by
      obtain ⟨u, hu⟩ := mem_valueKeys.1 hv
      exact hkey triple u hu
    have hgrown := hd.counter key hkey
    have hnew := h.new_iff.trans (hd.eq_none_iff triple .subject)
    by_cases hc : key ∈ counterKeys triple
    · have hcounter := h.counter key hc
      cases new with
      | false =>
        have hsame : growth s (triples (Insert.insert (source, triple) facts)) key =
            growth s (triples facts) key := by
          rw [triples_insert, growth, fresh_insert_of_old (hnew.not.1 Bool.false_ne_true), growth]
        rw [hsame, hcounter]
        exact hgrown
      | true =>
        obtain ⟨hmem, hnone⟩ := hnew.1 rfl
        have hmore : growth s (triples (Insert.insert (source, triple) facts)) key =
            growth s (triples facts) key + 1 := by
          rw [triples_insert, growth_insert hmem hnone hc]
        rw [hmore]
        refine hgrown.countedUp (fun c hc => ?_) hcounter
        rw [← hmore]
        exact hroom.counts key c ((readCount_ok_iff rfl).2 hc)
    · rw [triples_insert, growth_insert_of_not_mem s _ hc, h.kept key hvalue hc]
      exact hgrown

theorem Delta.card_fresh (hd : Delta s facts t.get?) (h : Stored triple source t new t') :
    (fresh s (triples (Insert.insert (source, triple) facts))).card =
      (fresh s (triples facts)).card + if new then 1 else 0 := by
  have hnew := h.new_iff.trans (hd.eq_none_iff triple .subject)
  rw [triples_insert]
  cases new with
  | false => rw [fresh_insert_of_old (hnew.not.1 Bool.false_ne_true)]; rfl
  | true => exact card_fresh_insert (hnew.1 rfl).1 (hnew.1 rfl).2

/-- How storing facts on a store ends: with an error if a triple is refused, and otherwise with
their difference, when the new triples are reported. -/
inductive Ends (s : Store) (facts : Finset Fact) (statements : Nat) :
    Except StoreError Report × Transaction → Prop
  | refused {t : Triple Node} {e : StoreError} {t' : Transaction} :
    t ∈ triples facts → ¬ Storable s.get? t → Ends s facts statements (.error e, t')
  | done {t : Transaction} : Delta s facts t.get? →
    Ends s facts statements (.ok ⟨statements, (fresh s (triples facts)).card⟩, t)

/-- Listed statements are stored one by one, each on the difference that those before it made. -/
theorem foldlM_ends {d : Document} {es : List (String × Nat × Statement)}
    (hfits : ∀ e ∈ es, e.2.1 < UInt32.size) (hsorted : ListsSorted s)
    (hroom : Room s (facts ∪ (es.map d.fact).toFinset)) (statements : Nat)
    (hd : Delta s facts t.get?) :
    Ends s (facts ∪ (es.map d.fact).toFinset) (statements + es.length)
      (es.foldlM (insertStatement d.name) ⟨statements, (fresh s (triples facts)).card⟩ t) := by
  induction es generalizing facts statements t with
  | nil =>
    rw [List.map_nil, List.toFinset_nil, Finset.union_empty]
    exact .done hd
  | cons e es ih =>
    have hunion : facts ∪ ((e :: es).map d.fact).toFinset =
        Insert.insert (d.fact e) facts ∪ (es.map d.fact).toFinset := by
      rw [List.map_cons, List.toFinset_cons, Finset.union_insert, Finset.insert_union]
    rw [hunion] at hroom ⊢
    rw [List.foldlM_cons, insertStatement_eq (hfits e List.mem_cons_self), Action.bind_apply,
      Action.bind_apply]
    have hstores := insert_stores t (d.fact e).2 (d.fact e).1
    generalize insert (d.fact e).2 (d.fact e).1 t = first at hstores ⊢
    cases hstores with
    | refused hs =>
      -- What is refused in between was so from the start: no fact of the document makes it worse.
      refine .refused (t := (d.fact e).2) ?_ (mt (hd.storable_iff _).2 hs)
      exact mem_triples.2 ⟨_, Finset.mem_union_left _ (Finset.mem_insert_self _ _)⟩
    | done hs hstored =>
      have hroom' := hroom.subset Finset.subset_union_left
      have hrest := ih (fun e he => hfits e (List.mem_cons_of_mem _ he)) hroom (statements + 1)
        (hd.insert hsorted hroom' hstored ((hd.storable_iff _).1 hs))
      rw [hd.card_fresh hstored] at hrest
      rwa [List.length_cons, Nat.add_comm es.length, ← Nat.add_assoc]

theorem triples_facts {d : Document} (hfits : d.Fits) : triples d.facts.toFinset = d.triples := by
  ext t
  simp [triples, Document.triples, Document.facts, hfits, Document.fact]

theorem index_ends {d : Document} (hfits : d.Fits) (hsorted : ListsSorted s)
    (hroom : Room s d.facts.toFinset) :
    Ends s d.facts.toFinset d.dataset.size
      (d.dataset.toList.foldlM (insertStatement d.name) ⟨0, 0⟩ (.start s)) := by
  have hfacts : d.facts = d.dataset.toList.map d.fact := if_pos hfits
  rw [hfacts] at hroom ⊢
  rw [← Finset.empty_union (d.dataset.toList.map d.fact).toFinset] at hroom ⊢
  have hends := foldlM_ends (t := .start s) hfits hsorted hroom 0 (delta_empty s)
  rwa [Nat.zero_add, Dataset.length_toList] at hends

theorem not_storable_iff {t : Triple Node} : ¬ Storable g t ↔
    (∃ u bytes, g (Key.tripleKey t u) = some bytes ∧ SourceList.ofBytes? bytes = none) ∨
      (g (Key.tripleKey t .subject) = none ∧
        ∃ key ∈ counterKeys t, ∃ bytes, g key = some bytes ∧ bytes.length ≠ 8) := by
  have hlist : ∀ value, ¬ (sourcesIn? value).isSome ↔
      ∃ bytes, value = some bytes ∧ SourceList.ofBytes? bytes = none := by
    intro value
    cases value <;> simp [sourcesIn?]
  have hsources : (∀ key ∈ valueKeys t, (sourcesIn? (g key)).isSome) ↔
      ∀ u, (sourcesIn? (g (Key.tripleKey t u))).isSome :=
    ⟨fun h u => h _ (mem_valueKeys.2 ⟨u, rfl⟩), fun h key hkey => by
      obtain ⟨u, rfl⟩ := mem_valueKeys.1 hkey
      exact h u⟩
  have hstorable : Storable g t ↔ (∀ u, (sourcesIn? (g (Key.tripleKey t u))).isSome) ∧
      (g (Key.tripleKey t .subject) = none → ∀ key ∈ counterKeys t, (countIn? (g key)).isSome) :=
    ⟨fun h => ⟨hsources.1 h.sources, h.counters⟩, fun h => ⟨hsources.2 h.1, h.2⟩⟩
  simp only [hstorable, not_and_or, not_forall, hlist, exists_prop, Option.not_isSome_iff_eq_none,
    countIn?_eq_none_iff]

/-- Indexing a document on a store whose lists are sorted, whatever else it holds. It fails exactly
if an index does not fit, if some list of a stated triple cannot be read, or if a counter of a new
one has not eight bytes. Otherwise the report counts the statements and the new triples; the
counters grow by the new triples that they count; the list of every stated triple gains, in each
rotation, exactly the places where the document states it; and nothing else changes, so the lists
are sorted as before. -/
theorem index_delta (s : Store) (d : Document) (hsorted : ListsSorted s)
    (hroom : Room s d.facts.toFinset) :
    ((∃ e, s.index d.name d.dataset = (.error e, s)) ↔ ¬ d.Fits ∨ ∃ t ∈ d.triples,
      (∃ u bytes, s.get? (Key.tripleKey t u) = some bytes ∧ SourceList.ofBytes? bytes = none) ∨
      (s.get? (Key.tripleKey t .subject) = none ∧
        ∃ key ∈ counterKeys t, ∃ bytes, s.get? key = some bytes ∧ bytes.length ≠ 8)) ∧
    ∀ report s', s.index d.name d.dataset = (.ok report, s') →
      report = ⟨d.dataset.size, (fresh s d.triples).card⟩ ∧
      (∀ u m n, readCount s' (Key.minorKey u m n) = (readCount s (Key.minorKey u m n)).map (· +
        ((fresh s d.triples).filter fun t =>
          t.get (u.rotate 1) = m ∧ t.get (u.rotate 2) = n).card)) ∧
      (∀ q c, readCount s' (Key.majorKey q c) = (readCount s (Key.majorKey q c)).map (· +
        ((fresh s d.triples).filter fun t => t.get q = c).card)) ∧
      (∀ t ∈ d.triples, ∀ u, ∃ old new, sourcesIn? (s.get? (Key.tripleKey t u)) = some old ∧
        (s'.get? (Key.tripleKey t u)).bind SourceList.ofBytes? = some new ∧
          old.Gains (d.States · t) new) ∧
      ListsSorted s' ∧
      ∀ key, (∀ t ∈ d.triples, key ∉ valueKeys t) →
        (∀ t ∈ fresh s d.triples, key ∉ counterKeys t) → s'.get? key = s.get? key := by
  simp only [← not_storable_iff]
  by_cases hfits : d.Fits
  · have hends := index_ends hfits hsorted hroom
    generalize hrun : d.dataset.toList.foldlM (insertStatement d.name) ⟨0, 0⟩ (.start s) = last
      at hends
    cases hends with
    | refused ht hs =>
      rw [triples_facts hfits] at ht
      rw [Store.index, Transaction.update_error hrun]
      exact ⟨iff_of_true ⟨_, rfl⟩ (.inr ⟨_, ht, hs⟩), fun _ _ hrun => by cases hrun⟩
    | @done t hdelta =>
      rw [← get?_commit_eq] at hdelta
      rw [Store.index, (isScript_statements d.name d.dataset).update_ok hrun]
      have htriples := triples_facts hfits
      have hstorable : ∀ t ∈ d.triples, Storable s.get? t := fun t ht =>
        hdelta.storable (htriples.symm ▸ ht)
      refine ⟨iff_of_false (fun hfails => ?_) ?_, fun report s' hrun => ?_⟩
      · obtain ⟨e, he⟩ := hfails
        cases he
      · rintro (hnot | ⟨t, ht, hs⟩)
        · exact hnot hfits
        · exact hs (hstorable t ht)
      · cases hrun
        rw [← htriples]
        refine ⟨rfl, fun u m n => ?_, fun q c => ?_, fun t ht u => ?_,
          hdelta.listsSorted hsorted, fun _ => hdelta.kept⟩
        · rw [hdelta.readCount (minorKey_ne_tripleKey u m n), growth, counted_minorKey]
        · rw [hdelta.readCount (majorKey_ne_tripleKey q c), growth, counted_majorKey]
        · obtain ⟨old, new, hold, hnew, hgains⟩ := hdelta.stated t ht u
          refine ⟨old, new, hold, hnew, hgains.congr fun x => ?_⟩
          rw [List.mem_toFinset, Document.mem_facts, and_iff_right hfits]
  · obtain ⟨e, he⟩ := index_error hfits s
    rw [he]
    exact ⟨iff_of_true ⟨e, rfl⟩ (.inl hfits), fun _ _ hrun => by cases hrun⟩

def halfStored : Triple Node := ⟨.iri "a", .iri "p", .iri "o"⟩

def skewed : Store :=
  (OrderedMap.empty.insert (Key.tripleKey halfStored .object)
    (SourceList.mk [⟨"z", "g", 5⟩]).toBytes).insert
    (Key.majorKey .predicate (.iri "p")) (Key.encodeCount 41)

def repeated : Document :=
  let s : Statement := ⟨.node (.iri "a"), .node (.iri "p"), .node (.iri "o")⟩
  let s' : Statement := ⟨.node (.iri "b"), .node (.iri "p"), .node (.iri "o")⟩
  ⟨"d", (Dataset.empty.insertAll "g" [s]).insertAll "h" [s, s']⟩

theorem lists_skewed : ∀ e ∈ skewed.entries, ∀ list, SourceList.ofBytes? e.2 = some list →
    list = ⟨[⟨"z", "g", 5⟩]⟩ := by
  have hlists : ∀ e ∈ skewed.entries, SourceList.ofBytes? e.2 = none ∨
      SourceList.ofBytes? e.2 = some ⟨[⟨"z", "g", 5⟩]⟩ := by decide +kernel
  intro e he list hlist
  cases hlists e he with
  | inl h => cases h.symm.trans hlist
  | inr h => exact Option.some.inj (hlist.symm.trans h)

theorem listsSorted_skewed : ListsSorted skewed := by
  intro t u list h
  obtain ⟨bytes, hget, hlist⟩ := Option.bind_eq_some_iff.1 h
  rw [lists_skewed _ (OrderedMap.mem_entries.2 hget) list hlist]
  exact List.pairwise_singleton _ _

theorem room_skewed : Room skewed repeated.facts.toFinset := by
  have hword : WordSized [repeated] := wordSized_of_size (by decide) (by decide) (by decide)
  have hb := hword.bounded
  rw [factsOf_singleton] at hb
  have hcard : repeated.facts.toFinset.card ≤ 3 :=
    (List.toFinset_card_le _).trans (length_facts_le repeated)
  have hcounts : ∀ e ∈ skewed.entries, Key.decodeCount? e.2 = none ∨
      Key.decodeCount? e.2 = some 41 := by decide +kernel
  refine room_of_entries hb (fun e he list hlist => ?_) fun e he n hn => ?_
  · obtain rfl := lists_skewed e he list hlist
    refine ⟨(Nat.add_le_add_left hcard 1).trans_lt (by decide), fun x hx => ?_⟩
    obtain rfl := List.mem_singleton.1 hx
    exact ⟨by decide, by decide⟩
  · have h41 : n = 41 := by
      cases hcounts e he with
      | inl h => cases h.symm.trans hn
      | inr h => exact Option.some.inj (hn.symm.trans h)
    rw [h41]
    exact (Nat.add_le_add_left hcard 41).trans_lt (by decide)

theorem index_delta_skewed :
    ListsSorted skewed ∧ Room skewed repeated.facts.toFinset ∧
    ∃ s', skewed.index repeated.name repeated.dataset = (.ok ⟨3, 2⟩, s') ∧
      readCount s' (Key.majorKey .predicate (.iri "p")) = .ok 43 ∧
      ∃ new, (s'.get? (Key.tripleKey halfStored .object)).bind SourceList.ofBytes? = some new ∧
        SourceList.Gains ⟨[⟨"z", "g", 5⟩]⟩ (repeated.States · halfStored) new := by
  have hends : (skewed.index repeated.name repeated.dataset).1 = .ok ⟨3, 2⟩ := by
    decide +kernel
  obtain ⟨s', hrun⟩ : ∃ s', skewed.index repeated.name repeated.dataset = (.ok ⟨3, 2⟩, s') :=
    ⟨_, by rw [← hends]⟩
  obtain ⟨-, -, hmajor, hlists, -, -⟩ :=
    (index_delta skewed repeated listsSorted_skewed room_skewed).2 _ s' hrun
  refine ⟨listsSorted_skewed, room_skewed, s', hrun, ?_, ?_⟩
  · have hnew : ((fresh skewed repeated.triples).filter fun t =>
        t.get .predicate = .iri "p").card = 2 := by decide +kernel
    have hold : readCount skewed (Key.majorKey .predicate (.iri "p")) = .ok 41 := by
      decide +kernel
    rw [hmajor, hnew, hold]
    rfl
  · have hold : sourcesIn? (skewed.get? (Key.tripleKey halfStored .object)) =
        some ⟨[⟨"z", "g", 5⟩]⟩ := by decide +kernel
    obtain ⟨old, new, hget, hnew, hgains⟩ := hlists halfStored (by decide +kernel) .object
    rw [hold] at hget
    obtain rfl := Option.some.inj hget
    exact ⟨new, hnew, hgains⟩

end Index

end TriplePlan
