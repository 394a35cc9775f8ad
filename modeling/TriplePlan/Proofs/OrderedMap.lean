import TriplePlan.OrderedMap
import TriplePlan.Proofs.Ascending
import Mathlib.Data.List.Induction

/-! An ordered map is the function from its keys to its values: insertion and removal change it at
one key, and two maps with the same function are the same list of entries. -/
namespace TriplePlan.OrderedMap

variable {κ υ : Type} {cmp : κ → κ → Ordering}

@[simp] theorem get?_empty (k : κ) : (empty : OrderedMap κ υ cmp).get? k = none := rfl

def mapValues (f : κ → υ → υ) (m : OrderedMap κ υ cmp) : OrderedMap κ υ cmp :=
  ⟨m.entries.map fun e => (e.1, f e.1 e.2), List.pairwise_map.2 m.sorted⟩

theorem modify_mapValues {f : κ → υ → υ} {g : υ → υ} (h : ∀ k v, g (f k v) = f k (g v))
    (m : OrderedMap κ υ cmp) (k : κ) :
    (m.mapValues f).modify k g = (m.modify k g).mapValues f := by
  refine ext ?_
  simp only [mapValues, modify, List.map_map]
  refine List.map_congr_left fun e _ => ?_
  by_cases hk : cmp k e.1 = .eq <;> simp [hk, h]

section

variable [Std.LawfulEqCmp cmp]

theorem lookup_filter (p : κ → Bool) (l : List (κ × υ)) (k : κ) :
    lookup cmp k (l.filter fun e => p e.1) = if p k then lookup cmp k l else none := by
  induction l with
  | nil => simp [lookup]
  | cons e r ih =>
    obtain ⟨ke, ve⟩ := e
    by_cases hk : cmp k ke = .eq
    · obtain rfl := Std.LawfulEqCmp.compare_eq_iff_eq.1 hk
      cases hp : p k <;> simp [lookup, hk, hp, ih]
    · cases hp : p ke <;> simp [lookup, hk, hp, ih]

theorem get?_filterKeys (m : OrderedMap κ υ cmp) (p : κ → Bool) (k : κ) :
    (m.filterKeys p).get? k = if p k then m.get? k else none :=
  lookup_filter p m.entries k

theorem get?_erase [DecidableEq κ] (m : OrderedMap κ υ cmp) (k k' : κ) :
    (m.erase k).get? k' = if k' = k then none else m.get? k' := by
  have h : lookup cmp k' (m.entries.filter fun e => decide (cmp k e.1 ≠ .eq)) = _ :=
    lookup_filter (fun a => decide (cmp k a ≠ .eq)) m.entries k'
  have heq : cmp k k' = .eq ↔ k' = k := Std.LawfulEqCmp.compare_eq_iff_eq.trans eq_comm
  simp only [decide_eq_true_eq, ne_eq, heq, ite_not] at h
  simpa [erase, get?] using h

theorem lookup_map_values (f : κ → υ → υ) (l : List (κ × υ)) (k : κ) :
    lookup cmp k (l.map fun e => (e.1, f e.1 e.2)) = (lookup cmp k l).map (f k) := by
  induction l with
  | nil => rfl
  | cons e l ih =>
    rw [List.map_cons, lookup, lookup, ih]
    split
    · rename_i heq
      rw [Std.LawfulEqCmp.eq_of_compare heq]
      rfl
    · rfl

theorem get?_mapValues (f : κ → υ → υ) (m : OrderedMap κ υ cmp) (k : κ) :
    (m.mapValues f).get? k = (m.get? k).map (f k) :=
  lookup_map_values f m.entries k

theorem mem_of_lookup_eq_some {k : κ} {v : υ} {l : List (κ × υ)} (h : lookup cmp k l = some v) :
    (k, v) ∈ l := by
  induction l with
  | nil => cases h
  | cons e r ih =>
    obtain ⟨ke, ve⟩ := e
    rw [lookup] at h
    split at h
    · rename_i hk
      obtain rfl := Std.LawfulEqCmp.compare_eq_iff_eq.1 hk
      cases h
      exact List.mem_cons_self
    · exact List.mem_cons_of_mem _ (ih h)

theorem lookup_eq_none_of_lt {k : κ} {l : List (κ × υ)} (h : ∀ e ∈ l, cmp k e.1 = .lt) :
    lookup cmp k l = none := by
  cases hget : lookup cmp k l with
  | none => rfl
  | some v =>
    have hlt := h _ (mem_of_lookup_eq_some hget)
    have hself : cmp k k = .eq := Std.ReflCmp.compare_self
    rw [hself] at hlt
    cases hlt

theorem keys_nodup (m : OrderedMap κ υ cmp) : m.keys.Nodup := by
  refine List.pairwise_map.2 (m.sorted.imp ?_)
  intro a b h heq
  have : cmp a.1 b.1 = .eq := Std.LawfulEqCmp.compare_eq_iff_eq.2 heq
  rw [this] at h
  cases h

end

section

variable [Std.TransCmp cmp] [Std.LawfulEqCmp cmp]

theorem lookup_eq_some_of_mem {k : κ} {v : υ} {l : List (κ × υ)}
    (hs : l.Pairwise fun a b => cmp a.1 b.1 = .lt) (h : (k, v) ∈ l) : lookup cmp k l = some v := by
  induction l with
  | nil => cases h
  | cons e r ih =>
    obtain ⟨ke, ve⟩ := e
    obtain ⟨hlt, hr⟩ := List.pairwise_cons.1 hs
    rw [lookup]
    cases List.mem_cons.1 h with
    | inl h =>
      cases h
      rw [if_pos (Std.ReflCmp.compare_self)]
    | inr h =>
      have hgt : cmp k ke = .gt := Std.OrientedCmp.gt_of_lt (hlt _ h)
      rw [if_neg (by rw [hgt]; decide), ih hr h]

theorem mem_entries {m : OrderedMap κ υ cmp} {k : κ} {v : υ} :
    (k, v) ∈ m.entries ↔ m.get? k = some v :=
  ⟨lookup_eq_some_of_mem m.sorted, mem_of_lookup_eq_some⟩

theorem ext_get? {m n : OrderedMap κ υ cmp} (h : ∀ k, m.get? k = n.get? k) : m = n := by
  have hmem : ∀ e, e ∈ m.entries ↔ e ∈ n.entries := by
    rintro ⟨k, v⟩
    rw [mem_entries, mem_entries, h]
  have : Std.OrientedCmp fun a b : κ × υ => cmp a.1 b.1 := ⟨Std.OrientedCmp.eq_swap⟩
  exact ext (eq_of_ascending m.sorted n.sorted hmem)

theorem ofList_concat (l : List (κ × υ)) (e : κ × υ) :
    (ofList (l ++ [e]) : OrderedMap κ υ cmp) = (ofList l).insert e.1 e.2 :=
  List.foldl_concat ..

theorem mem_of_get?_ofList [DecidableEq κ] {l : List (κ × υ)} {k : κ} {v : υ}
    (h : (ofList l : OrderedMap κ υ cmp).get? k = some v) : (k, v) ∈ l := by
  induction l using List.reverseRecOn with
  | nil => cases h
  | append_singleton l e ih =>
    rw [ofList_concat, get?_insert] at h
    rw [List.mem_append, List.mem_singleton]
    split at h
    · rename_i hk
      exact .inr (Prod.ext hk (Option.some.inj h).symm)
    · exact .inl (ih h)

theorem get?_ofList_eq_some_iff [DecidableEq κ] {l : List (κ × υ)} (hn : (l.map (·.1)).Nodup)
    {k : κ} {v : υ} : (ofList l : OrderedMap κ υ cmp).get? k = some v ↔ (k, v) ∈ l := by
  refine ⟨mem_of_get?_ofList, fun h => ?_⟩
  induction l using List.reverseRecOn with
  | nil => cases h
  | append_singleton l e ih =>
    rw [List.map_append, List.map_singleton, List.nodup_append] at hn
    obtain ⟨hl, -, he⟩ := hn
    rw [ofList_concat, get?_insert]
    cases List.mem_append.1 h with
    | inl hmem =>
      rw [if_neg (he _ (List.mem_map_of_mem hmem) _ (List.mem_singleton_self _)), ih hl hmem]
    | inr hmem =>
      obtain rfl := List.mem_singleton.1 hmem
      rw [if_pos rfl]

theorem ofList_entries [DecidableEq κ] (m : OrderedMap κ υ cmp) : ofList m.entries = m :=
  ext_get? fun _ => Option.ext fun _ => (get?_ofList_eq_some_iff m.keys_nodup).trans mem_entries

end

section

variable {start : κ} {block : κ → Bool}
  (hblock : ∀ a b, cmp a start ≠ .lt → cmp a b = .lt → block b → block a)
include hblock

theorem takeWhile_eq_filter {l : List (κ × υ)} (hs : l.Pairwise fun a b => cmp a.1 b.1 = .lt)
    (hge : ∀ e ∈ l, cmp e.1 start ≠ .lt) :
    (l.takeWhile fun e => block e.1) = l.filter fun e => block e.1 := by
  induction l with
  | nil => rfl
  | cons e r ih =>
    obtain ⟨he, hr⟩ := List.pairwise_cons.1 hs
    cases hb : block e.1 with
    | true => simp [hb, ih hr fun f hf => hge f (List.mem_cons_of_mem _ hf)]
    | false =>
      have hnone : ∀ f ∈ r, ¬ block f.1 := by
        intro f hf hbf
        rw [hblock e.1 f.1 (hge e List.mem_cons_self) (he f hf) hbf] at hb
        cases hb
      rw [List.takeWhile_cons_of_neg (by simp [hb]), List.filter_cons_of_neg (by simp [hb]),
        List.filter_eq_nil_iff.2 hnone]

/-- A walk from a key on lists a block of keys that has no gap and begins there. -/
theorem walk_eq_filter [Std.TransCmp cmp] (hstart : ∀ k, block k → cmp k start ≠ .lt)
    {l : List (κ × υ)} (hs : l.Pairwise fun a b => cmp a.1 b.1 = .lt) :
    ((l.dropWhile fun e => cmp e.1 start = .lt).takeWhile fun e => block e.1) =
      l.filter fun e => block e.1 := by
  induction l with
  | nil => rfl
  | cons e r ih =>
    obtain ⟨he, hr⟩ := List.pairwise_cons.1 hs
    by_cases hlt : cmp e.1 start = .lt
    · have hb : block e.1 = false := Bool.eq_false_iff.2 fun hb => hstart e.1 hb hlt
      rw [List.dropWhile_cons_of_pos (by simpa using hlt), ih hr,
        List.filter_cons_of_neg (by simp [hb])]
    · have hge : ∀ f ∈ e :: r, cmp f.1 start ≠ .lt := by
        intro f hf hfs
        cases hf with
        | head => exact hlt hfs
        | tail _ hf => exact hlt (Std.TransCmp.lt_trans (he f hf) hfs)
      rw [List.dropWhile_cons_of_neg (by simpa using hlt), takeWhile_eq_filter hblock hs hge]

end

end TriplePlan.OrderedMap
