import TriplePlan.Source.Record
import TriplePlan.Proofs.Ascending
import TriplePlan.Proofs.Cbor

/-! A search by halves comes to a source or to the gap where it belongs. So a list of sources stays
ascending and gains exactly the source that is put into it; and it is read back from its byte form.
-/
namespace TriplePlan

namespace Source

instance : Std.TransCmp Source.cmp :=
  inferInstanceAs (Std.TransCmp (compareLex (compareOn fun s : Source => Text.utf8 s.document)
    (compareLex (compareOn fun s => Text.utf8 s.graph) (compareOn fun s => s.index.toNat))))

instance : Std.LawfulEqCmp Source.cmp where
  eq_of_compare {a b} h := by
    obtain ⟨hd, h⟩ := Ordering.then_eq_eq.1 h
    obtain ⟨hg, hi⟩ := Ordering.then_eq_eq.1 h
    cases a
    cases b
    have := UInt32.toNat_inj.1 (Nat.compare_eq_eq.1 hi)
    rw [Std.LawfulEqCmp.compare_eq_iff_eq] at hd hg
    simp_all

/-- The lengths of its texts fit into eight bytes. -/
structure WordSized (s : Source) : Prop where
  document : (Text.utf8 s.document).length < Cbor.wordSize
  graph : (Text.utf8 s.graph).length < Cbor.wordSize

instance (s : Source) : Decidable s.WordSized :=
  decidable_of_iff ((Text.utf8 s.document).length < Cbor.wordSize ∧
    (Text.utf8 s.graph).length < Cbor.wordSize) ⟨fun h => ⟨h.1, h.2⟩, fun h => ⟨h.1, h.2⟩⟩

end Source

namespace SourceList

def Ascending (l : SourceList) : Prop := l.sources.Pairwise fun a b => a.cmp b = .lt

theorem ascending_empty : empty.Ascending := .nil

theorem Ascending.nodup {l : SourceList} (h : l.Ascending) : l.sources.Nodup := nodup_of_ascending h

theorem Ascending.ext {l k : SourceList} (hl : l.Ascending) (hk : k.Ascending)
    (h : ∀ s, s ∈ l.sources ↔ s ∈ k.sources) : l = k := by
  have hsources := eq_of_ascending hl hk h
  cases l
  cases k
  exact congrArg SourceList.mk hsources

/-- Ascending, where neighbours may be equal. -/
def Sorted (l : SourceList) : Prop := l.sources.Pairwise fun a b => (a.cmp b).isLE

theorem Ascending.sorted {l : SourceList} (h : l.Ascending) : l.Sorted :=
  h.imp Ordering.isLE_of_eq_lt

theorem eq_of_drop {l r : List Source} {t : Source} {n : Nat} (h : l.drop n = t :: r) :
    l = l.take n ++ t :: r := by
  rw [← h, List.take_append_drop]

theorem mem_of_search {s : Source} {l : List Source} {start index : Nat}
    (h : search s l start = .taken index) : s ∈ l := by
  fun_induction search s l start with
  | case1 => cases h
  | case2 l start t r hmiddle _ ih =>
    rw [eq_of_drop hmiddle]
    exact List.mem_append_right _ (List.mem_cons_of_mem t (ih h))
  | case3 l start t r hmiddle heq =>
    obtain rfl := Std.LawfulEqCmp.compare_eq_iff_eq.1 heq
    rw [eq_of_drop hmiddle]
    exact List.mem_append_right _ List.mem_cons_self
  | case4 l start t r _ _ ih => exact List.mem_of_mem_take (ih h)

/-- A cut between sources. Where they are sorted, this source has its place there. -/
structure Gap (s : Source) (l before after : List Source) : Prop where
  split : l = before ++ after
  below : Sorted ⟨l⟩ → ∀ a ∈ before, a.cmp s = .lt
  above : Sorted ⟨l⟩ → ∀ a ∈ after, s.cmp a = .lt

section

variable {s t : Source} {l r before after : List Source}

theorem Gap.right (h : Gap s r before after) (hlt : t.cmp s = .lt) :
    Gap s (l ++ t :: r) (l ++ t :: before) after := by
  refine ⟨by rw [h.split, List.append_assoc, List.cons_append], fun hsorted a ha => ?_,
    fun hsorted => h.above (List.pairwise_cons.1 (List.pairwise_append.1 hsorted).2.1).2⟩
  obtain ⟨-, hr, hcross⟩ := List.pairwise_append.1 hsorted
  rcases List.mem_append.1 ha with ha | ha
  · exact Std.TransCmp.lt_of_isLE_of_lt (hcross a ha t List.mem_cons_self) hlt
  · cases ha with
    | head => exact hlt
    | tail _ ha => exact h.below (List.pairwise_cons.1 hr).2 a ha

theorem Gap.left (h : Gap s l before after) (hgt : t.cmp s = .gt) :
    Gap s (l ++ t :: r) before (after ++ t :: r) := by
  refine ⟨by rw [h.split, List.append_assoc],
    fun hsorted => h.below (List.pairwise_append.1 hsorted).1, fun hsorted a ha => ?_⟩
  obtain ⟨hl, hr, -⟩ := List.pairwise_append.1 hsorted
  have hst : s.cmp t = .lt := Std.OrientedCmp.lt_of_gt hgt
  rcases List.mem_append.1 ha with ha | ha
  · exact h.above hl a ha
  · cases ha with
    | head => exact hst
    | tail _ ha => exact Std.TransCmp.lt_of_lt_of_isLE hst ((List.pairwise_cons.1 hr).1 a ha)

end

theorem exists_gap_of_search {s : Source} {l : List Source} {start index : Nat}
    (h : search s l start = .free index) :
    ∃ before after, Gap s l before after ∧ index = start + before.length := by
  fun_induction search s l start with
  | case1 l start hmiddle =>
    cases h
    have hlength := List.drop_eq_nil_iff.1 hmiddle
    obtain rfl : l = [] := List.length_eq_zero_iff.1 (by omega)
    exact ⟨[], [], ⟨rfl, by simp, by simp⟩, rfl⟩
  | case2 l start t r hmiddle hlt ih =>
    obtain ⟨before, after, hgap, rfl⟩ := ih h
    refine ⟨l.take (l.length / 2) ++ t :: before, after, ?_, ?_⟩
    · have := hgap.right (l := l.take (l.length / 2)) hlt
      rwa [← eq_of_drop hmiddle] at this
    · simp only [List.length_append, List.length_take, List.length_cons]
      omega
  | case3 => cases h
  | case4 l start t r hmiddle hgt ih =>
    obtain ⟨before, after, hgap, rfl⟩ := ih h
    refine ⟨before, after ++ t :: r, ?_, rfl⟩
    have := hgap.left (r := r) hgt
    rwa [← eq_of_drop hmiddle] at this

theorem insertIdx_length_append (before after : List Source) (s : Source) :
    (before ++ after).insertIdx before.length s = before ++ s :: after := by
  induction before with
  | nil => rfl
  | cons a before ih =>
    rw [List.length_cons, List.cons_append, List.insertIdx_succ_cons, ih, List.cons_append]

/-- A source that is there changes nothing, and any other one is put into a gap. -/
theorem insert_cases (l : SourceList) (s : Source) :
    (s ∈ l.sources ∧ l.insert s = (false, l)) ∨
      ∃ before after, Gap s l.sources before after ∧
        l.insert s = (true, ⟨before ++ s :: after⟩) := by
  unfold insert
  cases h : search s l.sources 0 with
  | taken index => exact .inl ⟨mem_of_search h, rfl⟩
  | free index =>
    obtain ⟨before, after, hgap, rfl⟩ := exists_gap_of_search h
    refine .inr ⟨before, after, hgap, ?_⟩
    have hplace := insertIdx_length_append before after s
    rw [← hgap.split] at hplace
    simp only [Nat.zero_add, hplace]

section

variable {s : Source} {l before after : List Source}

theorem Gap.perm (h : Gap s l before after) : (before ++ s :: after).Perm (s :: l) := by
  rw [h.split]
  exact List.perm_middle

theorem Gap.not_mem (h : Gap s l before after) (hl : Sorted ⟨l⟩) : s ∉ l := by
  have hself : s.cmp s = .eq := Std.ReflCmp.compare_self
  rw [h.split]
  intro hs
  rcases List.mem_append.1 hs with hs | hs
  · cases hself.symm.trans (h.below hl s hs)
  · cases hself.symm.trans (h.above hl s hs)

/-- Any order that goes with the strict one is kept, so a list may repeat its sources or not. -/
theorem Gap.pairwise {R : Source → Source → Prop} (h : Gap s l before after)
    (hlt : ∀ a b, a.cmp b = .lt → R a b) (hl : l.Pairwise R) (hsorted : Sorted ⟨l⟩) :
    (before ++ s :: after).Pairwise R := by
  rw [h.split] at hl
  obtain ⟨hbefore, hafter, hcross⟩ := List.pairwise_append.1 hl
  refine List.pairwise_append.2 ⟨hbefore, List.pairwise_cons.2 ⟨?_, hafter⟩, fun a ha b hb => ?_⟩
  · exact fun b hb => hlt s b (h.above hsorted b hb)
  · cases hb with
    | head => exact hlt a s (h.below hsorted a ha)
    | tail _ hb => exact hcross a ha b hb

end

theorem mem_insert (l : SourceList) (s x : Source) :
    x ∈ (l.insert s).2.sources ↔ x = s ∨ x ∈ l.sources := by
  obtain ⟨hs, hinsert⟩ | ⟨before, after, hgap, hinsert⟩ := insert_cases l s
  · rw [hinsert]
    constructor
    · exact .inr
    · rintro (rfl | hx)
      · exact hs
      · exact hx
  · rw [hinsert]
    exact hgap.perm.mem_iff.trans List.mem_cons

theorem Ascending.insert {l : SourceList} (hl : l.Ascending) (s : Source) :
    (l.insert s).2.Ascending := by
  obtain ⟨-, hinsert⟩ | ⟨before, after, hgap, hinsert⟩ := insert_cases l s
  · rwa [hinsert]
  · rw [hinsert]
    exact hgap.pairwise (fun _ _ => id) hl hl.sorted

theorem insert_snd_of_not_added {l : SourceList} {s : Source} (h : (l.insert s).1 = false) :
    (l.insert s).2 = l := by
  obtain ⟨-, hinsert⟩ | ⟨before, after, -, hinsert⟩ := insert_cases l s
  · rw [hinsert]
  · rw [hinsert] at h
    cases h

theorem Sorted.insert_fst {l : SourceList} (hl : l.Sorted) (s : Source) :
    (l.insert s).1 = true ↔ s ∉ l.sources := by
  obtain ⟨hs, hinsert⟩ | ⟨before, after, hgap, hinsert⟩ := insert_cases l s
  · rw [hinsert]
    simp [hs]
  · rw [hinsert]
    simp [hgap.not_mem hl]

/-- The list has become another sorted one by the sources that were added and not yet there, each
gained once. -/
structure Gains (old : SourceList) (added : Source → Prop) (new : SourceList) : Prop where
  sorted : new.Sorted
  perm : ∃ gained : List Source, gained.Nodup ∧
    (∀ s, s ∈ gained ↔ added s ∧ s ∉ old.sources) ∧ new.sources.Perm (old.sources ++ gained)

theorem Sorted.gains {l : SourceList} (h : l.Sorted) : l.Gains (fun _ => False) l :=
  ⟨h, [], .nil, by simp, by simp⟩

section

variable {old l : SourceList} {added : Source → Prop}

theorem Gains.congr {added' : Source → Prop} (h : old.Gains added l)
    (ha : ∀ s, added' s ↔ added s) : old.Gains added' l := by
  rwa [show added' = added from funext fun s => propext (ha s)]

theorem Gains.mem (h : old.Gains added l) {s : Source} (hs : s ∈ l.sources) :
    s ∈ old.sources ∨ added s := by
  obtain ⟨gained, -, hgained, hperm⟩ := h.perm
  exact (List.mem_append.1 (hperm.mem_iff.1 hs)).imp_right fun hg => ((hgained s).1 hg).1

theorem Gains.insert (h : old.Gains added l) (s : Source) :
    old.Gains (fun x => x = s ∨ added x) (l.insert s).2 := by
  obtain ⟨gained, hnodup, hgained, hperm⟩ := h.perm
  obtain ⟨hs, hinsert⟩ | ⟨before, after, hgap, hinsert⟩ := insert_cases l s
  · have hs := h.mem hs
    rw [hinsert]
    refine ⟨h.sorted, gained, hnodup, fun x => ?_, hperm⟩
    rw [hgained]
    constructor
    · exact fun hx => ⟨.inr hx.1, hx.2⟩
    · rintro ⟨rfl | hx, hold⟩
      · exact ⟨hs.resolve_left hold, hold⟩
      · exact ⟨hx, hold⟩
  · have hs : s ∉ old.sources ++ gained := fun hs =>
      hgap.not_mem h.sorted (hperm.mem_iff.2 hs)
    obtain ⟨hold, hnew⟩ := not_or.1 (List.mem_append.not.1 hs)
    rw [hinsert]
    refine ⟨hgap.pairwise (fun _ _ => Ordering.isLE_of_eq_lt) h.sorted h.sorted,
      s :: gained, hnodup.cons hnew, fun x => ?_, ?_⟩
    · rw [List.mem_cons, hgained]
      constructor
      · rintro (rfl | hx)
        · exact ⟨.inl rfl, hold⟩
        · exact ⟨.inr hx.1, hx.2⟩
      · rintro ⟨rfl | hx, hx'⟩
        · exact .inl rfl
        · exact .inr ⟨hx, hx'⟩
    · exact hgap.perm.trans ((hperm.cons s).trans List.perm_middle.symm)

end

end SourceList

namespace Cbor.Reader

theorem once_none {α : Type} {read : Reader α} {bs rest : Bytes} {a : α}
    (h : read bs = some (a, rest)) : once none read bs = some (some a, rest) := map_eq h

theorem word_natural (n : UInt32) (rest : Bytes) :
    word (natural n.toNat ++ rest) = some (n, rest) := by
  have hlt : n.toNat < UInt32.size := n.toNat_lt
  have := map_eq (f := UInt32.ofNat)
    (natBelow_natural hlt (hlt.trans (by decide : UInt32.size < wordSize)) rest)
  rwa [UInt32.ofNat_toNat] at this

theorem utf8_ne {a b : String} (h : a ≠ b) : Text.utf8 a ≠ Text.utf8 b :=
  fun he => h (Text.utf8_injective he)

theorem source_toCbor {s : Source} (h : s.WordSized) (room : Nat) (rest : Bytes) :
    source room (s.toCbor ++ rest) = some (s, rest) := by
  have hdocument :
    ∀ rest, sourceField room {} (Text.utf8 "document") (Cbor.text s.document ++ rest) =
      some ({ document := some s.document }, rest) := by
    intro rest
    rw [sourceField, if_pos rfl, bind_eq (once_none (text_text h.document rest))]
    rfl
  have hgraph : ∀ rest, sourceField room { document := some s.document } (Text.utf8 "graph")
      (Cbor.text s.graph ++ rest) = some
      ({ document := some s.document, graph := some s.graph }, rest) := by
    intro rest
    rw [sourceField, if_neg (utf8_ne (by decide)), if_pos rfl,
      bind_eq (once_none (text_text h.graph rest))]
    rfl
  have hindex : ∀ rest, sourceField room { document := some s.document, graph := some s.graph }
      (Text.utf8 "index") (natural s.index.toNat ++ rest) =
      some ({ document := some s.document, graph := some s.graph, index := some s.index },
        rest) := by
    intro rest
    rw [sourceField, if_neg (utf8_ne (by decide)), if_neg (utf8_ne (by decide)), if_pos rfl,
      bind_eq (once_none (word_natural s.index rest))]
    rfl
  have hfields : ReadsFields (sourceField room) {}
      [("document", Cbor.text s.document), ("graph", Cbor.text s.graph),
        ("index", natural s.index.toNat)]
      { document := some s.document, graph := some s.graph, index := some s.index } :=
    .cons (by decide) hdocument (.cons (by decide) hgraph (.cons (by decide) hindex (.nil _)))
  rw [source, Source.toCbor, bind_eq (hfields.entries (by simp [wordSize, UInt64.size]) rest)]
  rfl

theorem sourceList_toBytes {l : SourceList} (hl : l.sources.length < wordSize)
    (h : ∀ s ∈ l.sources, s.WordSized) (rest : Bytes) :
    sourceList (l.toBytes ++ rest) = some (l, rest) := by
  have hsources :
    ∀ rest, sourceListField none (Text.utf8 "sources") (array Source.toCbor l.sources ++ rest) =
      some (some l.sources, rest) := by
    intro rest
    rw [sourceListField, if_pos rfl]
    exact once_none (list_array hl (fun s hs => source_toCbor (h s hs) _) rest)
  have hfields : ReadsFields sourceListField none
      [("sources", array Source.toCbor l.sources)] (some l.sources) :=
    .cons (by decide) hsources (.nil _)
  rw [sourceList, SourceList.toBytes,
    bind_eq (hfields.entries (by simp [wordSize, UInt64.size]) rest)]
  rfl

end Cbor.Reader

theorem SourceList.ofBytes?_toBytes {l : SourceList} (hl : l.sources.length < Cbor.wordSize)
    (h : ∀ s ∈ l.sources, s.WordSized) : SourceList.ofBytes? l.toBytes = some l := by
  have := Cbor.Reader.sourceList_toBytes hl h []
  rw [List.append_nil] at this
  simp [ofBytes?, Cbor.read?, this]

end TriplePlan
