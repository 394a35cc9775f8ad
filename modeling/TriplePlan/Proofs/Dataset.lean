import TriplePlan.Dataset
import TriplePlan.Proofs.Distinct
import TriplePlan.Proofs.OrderedMap
import Mathlib.Algebra.BigOperators.Group.List.Basic

/-! The listing of a dataset has every statement at the graph and index by which it is found. A
dataset that is made of lists has the first occurrences of each. -/
namespace TriplePlan.Dataset

theorem mem_toList {d : Dataset} {graph : String} {index : Nat} {s : Statement} :
    (graph, index, s) ∈ d.toList ↔ d.statement? graph index = some s := by
  have hlist : (graph, index, s) ∈ d.toList ↔
      ∃ l, (graph, l) ∈ d.graphs.entries ∧ l[index]? = some s := by
    simp only [toList, List.mem_flatMap, List.mem_mapIdx, Prod.mk.injEq, Prod.exists]
    constructor
    · rintro ⟨g, l, hg, i, hi, rfl, rfl, rfl⟩
      exact ⟨l, hg, List.getElem?_eq_getElem hi⟩
    · rintro ⟨l, hg, hs⟩
      obtain ⟨hi, rfl⟩ := List.getElem?_eq_some_iff.1 hs
      exact ⟨graph, l, hg, index, hi, rfl, rfl, rfl⟩
  rw [hlist, statement?, statements, graph?]
  simp only [OrderedMap.mem_entries]
  constructor
  · rintro ⟨l, hl, hs⟩
    rw [hl]
    exact hs
  · intro hs
    cases hg : d.graphs.get? graph with
    | none => simp [hg] at hs
    | some l => exact ⟨l, rfl, by simpa [hg] using hs⟩

theorem nodup_toList (d : Dataset) : d.toList.Nodup := by
  refine List.nodup_flatMap.2 ⟨?_, ?_⟩
  · intro g _
    have hindexes : (g.2.mapIdx fun i s => (g.1, i, s)).map (·.2.1) = List.range g.2.length := by
      apply List.ext_getElem
      · simp
      · simp
    apply List.Nodup.of_map (·.2.1)
    rw [hindexes]
    exact List.nodup_range
  · refine (List.pairwise_map.1 d.graphs.keys_nodup).imp ?_
    intro g g' hne e he he'
    obtain ⟨i, hi, rfl⟩ := List.mem_mapIdx.1 he
    obtain ⟨j, hj, heq⟩ := List.mem_mapIdx.1 he'
    exact hne (congrArg (·.1) heq).symm

/-- An entry of the listing stands before another one by graph name and then index. -/
def Before (e e' : String × Nat × Statement) : Prop :=
  Text.cmp e.1 e'.1 = .lt ∨ (e.1 = e'.1 ∧ e.2.1 < e'.2.1)

theorem Before.asymm {e e' : String × Nat × Statement} (h : Before e e') : ¬ Before e' e := by
  have hself : Text.cmp e.1 e.1 = .eq := Std.ReflCmp.compare_self
  intro h'
  cases h with
  | inl hlt =>
    have hgt : Text.cmp e'.1 e.1 = .gt := Std.OrientedCmp.gt_of_lt hlt
    cases h' with
    | inl hlt' => simp [hgt] at hlt'
    | inr h' => simp [h'.1, hself] at hgt
  | inr h =>
    cases h' with
    | inl hlt' => simp [← h.1, hself] at hlt'
    | inr h' => omega

theorem pairwise_toList (d : Dataset) : d.toList.Pairwise Before := by
  refine List.pairwise_flatMap.2 ⟨?_, ?_⟩
  · intro g _
    rw [List.pairwise_iff_getElem]
    intro i j hi hj hij
    rw [List.getElem_mapIdx, List.getElem_mapIdx]
    exact .inr ⟨rfl, hij⟩
  · refine d.graphs.sorted.imp ?_
    intro g g' hlt e he e' he'
    obtain ⟨i, hi, rfl⟩ := List.mem_mapIdx.1 he
    obtain ⟨j, hj, rfl⟩ := List.mem_mapIdx.1 he'
    exact .inl hlt

theorem length_toList (d : Dataset) : d.toList.length = d.size := by
  simp [toList, size, OrderedMap.values, List.length_flatMap, List.sum_eq_foldl, List.foldl_map]

theorem graph_mem_keys {d : Dataset} {e : String × Nat × Statement} (h : e ∈ d.toList) :
    e.1 ∈ d.graphs.keys := by
  obtain ⟨g, hg, he⟩ := List.mem_flatMap.1 h
  obtain ⟨i, hi, rfl⟩ := List.mem_mapIdx.1 he
  exact List.mem_map.2 ⟨g, hg, rfl⟩

theorem statements_insert (d : Dataset) (name : String) (s : Statement) :
    (d.insert name s).2.statements name =
      if s ∈ d.statements name then d.statements name else d.statements name ++ [s] := by
  have hseen : d.seen name s = true ↔ s ∈ d.statements name := d.seen_iff name s
  rw [insert]
  split
  · rename_i h
    rw [if_pos (hseen.1 h)]
  · rename_i h
    rw [if_neg (mt hseen.2 h), statements, graph?, OrderedMap.get?_insert, if_pos rfl]
    rfl

theorem statements_insert_of_ne (d : Dataset) {name other : String} (h : other ≠ name)
    (s : Statement) : (d.insert name s).2.statements other = d.statements other := by
  rw [insert]
  split
  · rfl
  · rw [statements, graph?, OrderedMap.get?_insert, if_neg h]
    rfl

theorem statements_insert_eq (d : Dataset) (name other : String) (s : Statement) :
    (d.insert name s).2.statements other =
      if other = name ∧ s ∉ d.statements other then d.statements other ++ [s]
      else d.statements other := by
  by_cases hname : other = name
  · subst hname
    rw [statements_insert]
    by_cases hs : s ∈ d.statements other <;> simp [hs]
  · rw [statements_insert_of_ne d hname, if_neg fun h => hname h.1]

theorem statements_insertAll (d : Dataset) (name : String) (l : List Statement) :
    (d.insertAll name l).statements name = (d.statements name ++ l).eraseDups := by
  induction l using List.reverseRecOn with
  | nil =>
    rw [List.append_nil, eraseDups_of_nodup (d.nodup_statements name), insertAll, List.foldl_nil]
  | append_singleton l s ih =>
    have hlast : d.insertAll name (l ++ [s]) = ((d.insertAll name l).insert name s).2 := by
      rw [insertAll, List.foldl_append]
      rfl
    rw [hlast, statements_insert, ih, ← List.append_assoc, eraseDups_snoc]
    simp only [List.mem_eraseDups]

theorem statements_insertAll_of_ne (d : Dataset) {name other : String} (h : other ≠ name)
    (l : List Statement) : (d.insertAll name l).statements other = d.statements other := by
  induction l generalizing d with
  | nil => rfl
  | cons s l ih => exact (ih _).trans (d.statements_insert_of_ne h s)

theorem statements_foldl_insertAll {l : List (String × List Statement)}
    (hl : l.Pairwise fun g g' => Text.cmp g.1 g'.1 = .lt) (d : Dataset) (name : String) :
    (l.foldl (fun d g => d.insertAll g.1 g.2) d).statements name =
      (d.statements name ++ (OrderedMap.lookup Text.cmp name l).getD []).eraseDups := by
  induction l generalizing d with
  | nil => simp [OrderedMap.lookup, eraseDups_of_nodup (d.nodup_statements name)]
  | cons g l ih =>
    obtain ⟨hg, hl⟩ := List.pairwise_cons.1 hl
    rw [List.foldl_cons, ih hl, OrderedMap.lookup]
    by_cases hname : name = g.1
    · subst hname
      rw [if_pos Std.ReflCmp.compare_self, OrderedMap.lookup_eq_none_of_lt hg, statements_insertAll]
      simp [eraseDups_of_nodup (nodup_eraseDups _)]
    · have hne : Text.cmp name g.1 ≠ .eq := fun h => hname (Std.LawfulEqCmp.eq_of_compare h)
      rw [if_neg hne, statements_insertAll_of_ne d hname]

theorem statements_ofGraphs (graphs : Graphs) (name : String) :
    (ofGraphs graphs).statements name = ((graphs.get? name).getD []).eraseDups :=
  statements_foldl_insertAll graphs.sorted empty name

theorem graph?_eq (d : Dataset) (name : String) :
    d.graph? name = if d.statements name = [] then none else some (d.statements name) := by
  rw [statements]
  cases hget : d.graph? name with
  | none => rfl
  | some l =>
    have hne : l ≠ [] := d.nonempty _ (OrderedMap.mem_entries.2 hget)
    simp [hne]

theorem ofGraphs_graphs (d : Dataset) : ofGraphs d.graphs = d := by
  have hstatements : ∀ name, (ofGraphs d.graphs).statements name = d.statements name :=
    fun name => (statements_ofGraphs _ name).trans (eraseDups_of_nodup (d.nodup_statements name))
  apply Dataset.ext
  apply OrderedMap.ext_get?
  intro name
  change (ofGraphs d.graphs).graph? name = d.graph? name
  rw [graph?_eq, graph?_eq, hstatements]

end TriplePlan.Dataset
