import TriplePlan.Store.Transaction
import TriplePlan.Proofs.OrderedMap
import TriplePlan.Proofs.Scan

/-! A transaction shows the base with its pending writes on top, and committing keeps what it
shows. -/
namespace TriplePlan.Transaction

theorem get?_put (t : Transaction) (key value : Bytes) (k : Bytes) :
    (t.put key value).get? k = if k = key then some value else t.get? k := by
  by_cases h : k = key <;> simp [put, get?, OrderedMap.get?_insert, h]

theorem get?_delete (t : Transaction) (key : Bytes) (k : Bytes) :
    (t.delete key).get? k = if k = key then none else t.get? k := by
  by_cases h : k = key <;> simp [delete, get?, OrderedMap.get?_insert, h]

theorem get?_applyWrite (m : Store) (w : Bytes × Option Bytes) (k : Bytes) :
    (applyWrite m w).get? k = if k = w.1 then w.2 else m.get? k := by
  obtain ⟨key, value⟩ := w
  cases value with
  | none => exact OrderedMap.get?_erase m key k
  | some value => exact OrderedMap.get?_insert m key value k

theorem get?_applyWrites (m : Store) {l : List (Bytes × Option Bytes)}
    (hl : l.Pairwise fun a b => compare a.1 b.1 = .lt) (k : Bytes) :
    (applyWrites m l).get? k = (OrderedMap.lookup compare k l).getD (m.get? k) := by
  induction l generalizing m with
  | nil => rfl
  | cons w r ih =>
    obtain ⟨hw, hr⟩ := List.pairwise_cons.1 hl
    have hstep : (applyWrites m (w :: r)).get? k = (applyWrites (applyWrite m w) r).get? k := rfl
    rw [hstep, ih _ hr, get?_applyWrite]
    by_cases hk : k = w.1
    · subst hk
      have hnone : OrderedMap.lookup compare w.1 r = none := by
        cases hget : OrderedMap.lookup compare w.1 r with
        | none => rfl
        | some v =>
          have := hw _ (OrderedMap.mem_of_lookup_eq_some hget)
          simp [Std.ReflCmp.compare_self] at this
      simp [OrderedMap.lookup, hnone]
    · have hne : compare k w.1 ≠ .eq := fun h => hk (Std.LawfulEqCmp.compare_eq_iff_eq.1 h)
      simp [OrderedMap.lookup, hne, hk]

theorem get?_commit (t : Transaction) (k : Bytes) : t.commit.get? k = t.get? k := by
  rw [commit, get?_applyWrites _ t.writes.sorted, get?]
  change ((t.writes.get? k).getD _) = _
  cases t.writes.get? k <;> rfl

theorem commit_start (s : Store) : (start s).commit = s := rfl

theorem commit_put (t : Transaction) (key value : Bytes) :
    (t.put key value).commit = t.commit.insert key value := by
  apply OrderedMap.ext_get?
  intro k
  rw [get?_commit, get?_put, OrderedMap.get?_insert, get?_commit]

theorem commit_delete (t : Transaction) (key : Bytes) :
    (t.delete key).commit = t.commit.erase key := by
  apply OrderedMap.ext_get?
  intro k
  rw [get?_commit, get?_delete, OrderedMap.get?_erase, get?_commit]

/-- The pending writes under the prefix carried out on the entries under it give the entries under
it after the commit. -/
theorem scan_commit (t : Transaction) (start : Bytes) :
    TriplePlan.scan t.commit.entries start = t.scan start := by
  rw [scan, scan_entries, scan_entries, scan_entries, OrderedMap.ofList_entries]
  congr 1
  apply OrderedMap.ext_get?
  intro k
  rw [get?_applyWrites _ (t.writes.filterKeys _).sorted, OrderedMap.get?_filterKeys,
    OrderedMap.get?_filterKeys, get?_commit, get?]
  change _ = ((t.writes.filterKeys _).get? k).getD _
  rw [OrderedMap.get?_filterKeys]
  by_cases hk : start.isPrefixOf k
  · rw [if_pos hk, if_pos hk, if_pos hk]
    cases t.writes.get? k <;> rfl
  · rw [if_neg hk, if_neg hk, if_neg hk]
    rfl

theorem readable_get?_commit (t : Transaction) (key : Bytes) :
    Readable.get? t.commit key = Readable.get? t key :=
  congrArg Except.ok (t.get?_commit key)

theorem readable_scan_commit (t : Transaction) (start : Bytes) :
    Readable.scan t.commit start = Readable.scan t start :=
  congrArg Except.ok (t.scan_commit start)

theorem readCount_commit (t : Transaction) (key : Bytes) :
    readCount t.commit key = readCount t key := by
  rw [readCount, readCount, readable_get?_commit]

section

variable {ε α : Type} {f : Action Transaction ε α} {s : Store} {t : Transaction}

theorem commit_of_isEmpty (h : t.writes.isEmpty) : t.commit = t.base := by
  rw [commit, List.isEmpty_iff.1 h]
  rfl

theorem update_ok {a : α} (h : f (start s) = (.ok a, t)) :
    s.update f = (.ok a, if t.writes.isEmpty then s else t.commit) := by
  simp only [Store.update, run, Action.bind_apply, Action.get_apply, h, Action.lift_apply]
  cases t.writes.isEmpty <;> rfl

theorem update_error {e : ε} (h : f (start s) = (.error e, t)) : s.update f = (.error e, s) := by
  simp only [Store.update, run, Action.bind_apply, Action.get_apply, h, Action.lift_apply]

end

end TriplePlan.Transaction

namespace TriplePlan

/-- The scan of an ordered map, of whatever values, by a range and the first key that does not start
with the prefix is the list of all entries whose keys start with it, each once and in ascending
order; it is one block of the map. So a store is scanned, and an update as the map that it would
commit. -/
theorem scan_exact {υ : Type} (m : OrderedMap Bytes υ compare) (s : Store) (t : Transaction)
    (start : Bytes) :
    (scan m.entries start = m.entries.filter (fun e => start.isPrefixOf e.1) ∧
      (∀ e, e ∈ scan m.entries start ↔ e ∈ m.entries ∧ start <+: e.1) ∧
      ((scan m.entries start).map (·.1)).Nodup ∧
      (scan m.entries start).Pairwise (fun a b => compare a.1 b.1 = .lt) ∧
      ∃ below above, m.entries = below ++ (scan m.entries start ++ above) ∧
        (∀ e ∈ below, compare e.1 start = .lt) ∧ ∀ e ∈ above, ¬ start <+: e.1) ∧
    Readable.scan s start = .ok (s.entries.filter fun e => start.isPrefixOf e.1) ∧
    Readable.scan t start = .ok (t.commit.entries.filter fun e => start.isPrefixOf e.1) := by
  have hfilter := scan_eq_filter m.sorted start
  refine ⟨⟨hfilter, fun e => ?_, ?_, ?_, exists_scan_block m start⟩,
    congrArg Except.ok (scan_eq_filter s.sorted start), ?_⟩
  · rw [hfilter, List.mem_filter, List.isPrefixOf_iff_prefix]
  · rw [scan_entries]
    exact OrderedMap.keys_nodup _
  · rw [scan_entries]
    exact OrderedMap.sorted _
  · rw [← scan_eq_filter t.commit.sorted, t.scan_commit]
    rfl

end TriplePlan
