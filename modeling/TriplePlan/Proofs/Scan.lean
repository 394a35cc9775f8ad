import TriplePlan.Store.Probe
import TriplePlan.Proofs.Except
import TriplePlan.Proofs.Key
import TriplePlan.Proofs.OrderedMap
import Mathlib.Data.List.TakeWhile
import Mathlib.Data.Set.List

/-! Scanning a prefix lists exactly the entries under it. Where the keys under a value prefix are
those of nodes, the candidates are these nodes in the order of their byte forms. -/
namespace TriplePlan

theorem compare_append_left (p a b : Bytes) : compare (p ++ a) (p ++ b) = compare a b := by
  induction p with
  | nil => rfl
  | cons x p ih => rw [List.cons_append, List.cons_append, List.compare_cons_cons, ih,
      Std.ReflOrd.compare_self, Ordering.eq_then]

theorem compare_ne_lt_of_prefix {p k : Bytes} (h : p <+: k) : compare k p ≠ .lt := by
  obtain ⟨t, rfl⟩ := h
  have := compare_append_left p t []
  rw [List.append_nil] at this
  rw [this]
  cases t <;> simp [List.compare_cons_nil]

/-- The keys that start with `p` have no gap: what lies between `p` and one of them starts with
`p`. -/
theorem prefix_of_between {p a b : Bytes} (hpa : compare a p ≠ .lt) (hab : compare a b = .lt)
    (hb : p <+: b) :
    p <+: a := by
  induction p generalizing a b with
  | nil => exact List.nil_prefix
  | cons c p ih =>
    obtain ⟨t, rfl⟩ := hb
    cases a with
    | nil => exact absurd List.compare_nil_cons hpa
    | cons d a =>
      rw [List.compare_cons_cons] at hpa
      rw [List.cons_append, List.compare_cons_cons] at hab
      cases hd : compare d c with
      | lt => simp [hd] at hpa
      | gt => simp [hd] at hab
      | eq =>
        obtain rfl := Std.LawfulEqOrd.compare_eq_iff_eq.1 hd
        simp only [hd, Ordering.eq_then] at hpa hab
        obtain ⟨t', ht'⟩ := ih hpa hab ⟨t, rfl⟩
        exact ⟨t', by rw [List.cons_append, ht']⟩

variable {υ : Type}

theorem scan_eq_filter {l : List (Bytes × υ)} (hs : l.Pairwise fun a b => compare a.1 b.1 = .lt)
    (start : Bytes) : scan l start = l.filter fun e => start.isPrefixOf e.1 := by
  refine OrderedMap.walk_eq_filter (fun a b hge hab hb => ?_) (fun k hk => ?_) hs
  · rw [List.isPrefixOf_iff_prefix] at hb ⊢
    exact prefix_of_between hge hab hb
  · exact compare_ne_lt_of_prefix (List.isPrefixOf_iff_prefix.1 hk)

theorem scan_entries (m : OrderedMap Bytes υ compare) (start : Bytes) :
    scan m.entries start = (m.filterKeys (start.isPrefixOf ·)).entries :=
  scan_eq_filter m.sorted start

theorem scan_spec (m : OrderedMap Bytes υ compare) (start : Bytes) :
    (scan m.entries start).Pairwise (fun a b => compare a.1 b.1 = .lt) ∧
      ∀ k v, (k, v) ∈ scan m.entries start ↔ m.get? k = some v ∧ start <+: k := by
  rw [scan_entries]
  refine ⟨OrderedMap.sorted _, ?_⟩
  intro k v
  rw [OrderedMap.mem_entries, OrderedMap.get?_filterKeys, ← List.isPrefixOf_iff_prefix]
  by_cases hk : start.isPrefixOf k <;> simp [hk]

/-- The entries under a prefix are one block: the keys in front of it lie below the prefix, and no
key behind it starts with the prefix. -/
theorem exists_scan_block (m : OrderedMap Bytes υ compare) (start : Bytes) :
    ∃ below above, m.entries = below ++ (scan m.entries start ++ above) ∧
      (∀ e ∈ below, compare e.1 start = .lt) ∧ ∀ e ∈ above, ¬ start <+: e.1 := by
  let rest := m.entries.dropWhile fun e => compare e.1 start = .lt
  let below := m.entries.takeWhile fun e => compare e.1 start = .lt
  let above := rest.dropWhile fun e => start.isPrefixOf e.1
  have hsplit : m.entries = below ++ (scan m.entries start ++ above) := by
    rw [scan, List.takeWhile_append_dropWhile, List.takeWhile_append_dropWhile]
  refine ⟨below, above, hsplit, fun e he => ?_, fun e he hp => ?_⟩
  · simpa using List.mem_takeWhile_imp he
  · -- The block is all that the filter keeps, so it keeps nothing of what stands behind it.
    have hblock := scan_eq_filter m.sorted start
    have hkept := congrArg (fun l => (l.filter fun e => start.isPrefixOf e.1).length) hsplit
    have hsame : (scan m.entries start).filter (fun e => start.isPrefixOf e.1) =
        scan m.entries start := by
      rw [hblock, List.filter_filter]
      simp only [Bool.and_self]
    simp only [List.filter_append, List.length_append, hsame, ← hblock] at hkept
    have hmem : e ∈ above.filter fun e => start.isPrefixOf e.1 :=
      List.mem_filter.2 ⟨he, List.isPrefixOf_iff_prefix.2 hp⟩
    have hpos := List.length_pos_of_mem hmem
    omega

def Store.keysUnder (s : Store) (start : Bytes) : List Bytes := s.keys.filter (start.isPrefixOf ·)

theorem Store.mem_keysUnder {s : Store} {start key : Bytes} :
    key ∈ s.keysUnder start ↔ (s.get? key).isSome ∧ start <+: key := by
  simp only [Store.keysUnder, OrderedMap.keys, List.mem_filter, List.mem_map, Prod.exists,
    OrderedMap.mem_entries, List.isPrefixOf_iff_prefix, Option.isSome_iff_exists, exists_and_right,
    exists_eq_right]

theorem Store.keysUnder_ascending (s : Store) (start : Bytes) :
    (s.keysUnder start).Pairwise fun a b => compare a b = .lt :=
  (List.pairwise_map.2 s.sorted).filter _

theorem mapM_ok {ε α β : Type} {f : α → Except ε β} {g : α → β} {l : List α}
    (h : ∀ a ∈ l, f a = .ok (g a)) :
    l.mapM f = .ok (l.map g) := by
  rw [mapM_eq_ok_iff, List.map_map]
  exact List.map_congr_left h

theorem candidate_append (start tail : Bytes) :
    candidate start (start ++ tail) =
      ((Key.decodeNode tail).map fun x => Key.encodeNode x.1).mapError .corruptKey := by
  simp only [candidate, Key.nodeBehind, List.length_append, Nat.le_add_right, if_true,
    List.drop_left]
  cases Key.decodeNode tail <;> rfl

theorem candidate_valueKey (u : Position) (m n x : Node) :
    candidate (Key.valuePrefix u m n) (Key.valueKey u m n x) = .ok (Key.encodeNode x) := by
  have hdecode := Key.decodeNode_encodeNode x []
  rw [List.append_nil] at hdecode
  rw [Key.valueKey, candidate_append, hdecode]
  rfl

theorem candidateValues_eq_mapM (s : Store) (u : Position) (m n : Node) :
    candidateValues s u m n =
      (s.keysUnder (Key.valuePrefix u m n)).mapM (candidate (Key.valuePrefix u m n)) := by
  have hscan : Store.keysUnder s (Key.valuePrefix u m n) =
      (TriplePlan.scan s.entries (Key.valuePrefix u m n)).map (·.1) := by
    rw [scan_eq_filter s.sorted, Store.keysUnder, OrderedMap.keys, List.filter_map]
    rfl
  rw [hscan, List.mapM_map]
  rfl

/-- If every key under the prefix of `(m, n)` is that of a node, the candidates are the nodes
stored there, each once and in ascending order. -/
theorem candidateValues_eq {s : Store} {u : Position} {m n : Node}
    (hkeys : ∀ k, (s.get? k).isSome → Key.valuePrefix u m n <+: k → ∃ x, Key.valueKey u m n x = k) :
    ∃ xs : List Node, candidateValues s u m n = .ok (xs.map Key.encodeNode) ∧
      (xs.map Key.encodeNode).Pairwise (fun a b => compare a b = .lt) ∧
      ∀ x, x ∈ xs ↔ (s.get? (Key.valueKey u m n x)).isSome := by
  obtain ⟨xs, hxs⟩ : s.keysUnder (Key.valuePrefix u m n) ∈
      Set.range (List.map (Key.valueKey u m n)) := by
    rw [Set.range_list_map]
    intro k hk
    obtain ⟨hget, hp⟩ := Store.mem_keysUnder.1 hk
    exact hkeys k hget hp
  refine ⟨xs, ?_, ?_, ?_⟩
  · rw [candidateValues_eq_mapM, ← hxs, List.mapM_map]
    exact mapM_ok fun x _ => candidate_valueKey u m n x
  · have hsorted := s.keysUnder_ascending (Key.valuePrefix u m n)
    rw [← hxs, List.pairwise_map] at hsorted
    refine List.pairwise_map.2 (hsorted.imp ?_)
    intro a b h
    rwa [Key.valueKey, Key.valueKey, compare_append_left] at h
  · intro x
    have hinj : Function.Injective (Key.valueKey u m n) := fun a b h =>
      Key.encodeNode_injective (List.append_cancel_left h)
    rw [← List.mem_map_of_injective hinj, hxs, Store.mem_keysUnder]
    exact and_iff_left ⟨_, rfl⟩

end TriplePlan
