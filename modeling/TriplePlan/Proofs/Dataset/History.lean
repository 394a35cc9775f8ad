import TriplePlan.Proofs.Dataset

/-! A dataset and the additions that made it. Every graph lists what was added to it, each statement
where it came first, and what a graph has once keeps its place in all that follows. -/
namespace TriplePlan.Dataset

/-- What adds a statement: to a graph that it names, or to the one of statements without a graph. -/
inductive Addition where
  | insert (graph : String) (s : Statement)
  | push (s : Statement)

namespace Addition

def graph : Addition → String
  | .insert graph _ => graph
  | .push _ => defaultGraph

def statement : Addition → Statement
  | .insert _ s => s
  | .push s => s

end Addition

def add (d : Dataset) : Addition → Bool × Dataset
  | .insert graph s => d.insert graph s
  | .push s => d.push s

def addAll (d : Dataset) (additions : List Addition) : Dataset :=
  additions.foldl (fun d a => (d.add a).2) d

def added (additions : List Addition) (graph : String) : List Statement :=
  (additions.filter (·.graph = graph)).map (·.statement)

theorem add_eq (d : Dataset) (a : Addition) : d.add a = d.insert a.graph a.statement := by
  cases a <;> rfl

theorem add_fst (d : Dataset) (a : Addition) :
    (d.add a).1 = true ↔ a.statement ∉ d.statements a.graph := by
  have hseen : d.seen a.graph a.statement = true ↔ a.statement ∈ d.statements a.graph :=
    d.seen_iff a.graph a.statement
  rw [add_eq, insert, ← hseen]
  split <;> simp [*]

theorem statements_add (d : Dataset) (a : Addition) (graph : String) :
    (d.add a).2.statements graph = (d.statements graph ++ added [a] graph).eraseDups := by
  have hnodup := eraseDups_of_nodup (d.nodup_statements graph)
  rw [add_eq, statements_insert_eq]
  by_cases hgraph : graph = a.graph
  · subst hgraph
    by_cases hs : a.statement ∈ d.statements a.graph <;> simp [added, eraseDups_snoc, hs, hnodup]
  · simp [added, hgraph, Ne.symm hgraph, hnodup]

theorem statements_prefix_add (d : Dataset) (a : Addition) (graph : String) :
    d.statements graph <+: (d.add a).2.statements graph := by
  rw [add_eq, statements_insert_eq]
  split
  · exact List.prefix_append ..
  · exact List.prefix_rfl

theorem addAll_append (d : Dataset) (l m : List Addition) :
    d.addAll (l ++ m) = (d.addAll l).addAll m := List.foldl_append

theorem added_append (l m : List Addition) (graph : String) :
    added (l ++ m) graph = added l graph ++ added m graph := by
  rw [added, List.filter_append, List.map_append]
  rfl

theorem statements_addAll (d : Dataset) (additions : List Addition) (graph : String) :
    (d.addAll additions).statements graph =
      (d.statements graph ++ added additions graph).eraseDups := by
  induction additions using List.reverseRecOn with
  | nil => simp [addAll, added, eraseDups_of_nodup (d.nodup_statements graph)]
  | append_singleton l a ih =>
    rw [addAll_append, added_append]
    change ((d.addAll l).add a).2.statements graph = _
    rw [statements_add, ih, ← List.append_assoc]
    exact eraseDups_append_congr (eraseDups_of_nodup (nodup_eraseDups _)) _

theorem statements_prefix_addAll (d : Dataset) (additions : List Addition) (graph : String) :
    d.statements graph <+: (d.addAll additions).statements graph := by
  induction additions generalizing d with
  | nil => exact List.prefix_rfl
  | cons a l ih => exact (statements_prefix_add d a graph).trans (ih _)

theorem ofStatements_eq (l : List Statement) :
    ofStatements l = empty.addAll (l.map .push) := by
  rw [addAll, List.foldl_map]
  rfl

/-- A dataset is what certain additions make of an empty one: every graph has the statements that
were added to it in the order of their first addition, no others and none twice, and is there only
if it has one. What was seen in it are the statements of its list, which decide whether another one
is new. Places stay as they are under later additions, and the listing goes through them all. -/
structure Gathers (additions : List Addition) (d : Dataset) : Prop where
  graph : ∀ name l, d.graph? name = some l ↔ l = (added additions name).eraseDups ∧ l ≠ []
  seen : ∀ name s, (d.seen name s = true ↔ s ∈ d.statements name) ∧
    (s ∈ d.statements name ↔ s ∈ added additions name)
  answer : ∀ a, (d.add a).1 = true ↔ a.statement ∉ added additions a.graph
  kept : ∀ later name index s, d.statement? name index = some s →
    (d.addAll later).statement? name index = some s
  listed : ∀ name index s, (name, index, s) ∈ d.toList ↔ d.statement? name index = some s
  listed_once : ∀ name, ∀ s ∈ added additions name, ∃! index, (name, index, s) ∈ d.toList
  ordered : d.toList.Pairwise Before
  size : d.size = d.toList.length

theorem existsUnique_mem_toList {d : Dataset} {name : String} {s : Statement}
    (hs : s ∈ d.statements name) : ∃! index, (name, index, s) ∈ d.toList := by
  simp only [mem_toList, statement?]
  obtain ⟨index, hindex⟩ := List.mem_iff_getElem?.1 hs
  refine ⟨index, hindex, fun other hother => ?_⟩
  have hlt := (List.getElem?_eq_some_iff.1 hother).1
  exact (List.getElem?_inj hlt (d.nodup_statements name)).1 (hother.trans hindex.symm)

theorem gathers_addAll (additions : List Addition) :
    Gathers additions (empty.addAll additions) := by
  have hstatements : ∀ name, (empty.addAll additions).statements name =
      (added additions name).eraseDups := statements_addAll empty additions
  have hmem : ∀ name s, s ∈ (empty.addAll additions).statements name ↔
      s ∈ added additions name := by
    intro name s
    rw [hstatements, List.mem_eraseDups]
  refine ⟨fun name l => ?_, fun name s => ⟨?_, hmem name s⟩, fun a => ?_,
    fun later name index s hs => ?_, fun _ _ _ => mem_toList,
    fun name s hs => existsUnique_mem_toList ((hmem name s).2 hs), pairwise_toList _,
    (length_toList _).symm⟩
  · rw [graph?_eq, hstatements]
    split
    · rename_i hnil
      simp [hnil]
    · rename_i hne
      rw [Option.some_inj]
      constructor
      · intro h
        exact ⟨h.symm, h ▸ hne⟩
      · exact fun h => h.1.symm
  · exact (empty.addAll additions).seen_iff name s
  · rw [add_fst, hmem]
  · obtain ⟨hlt, -⟩ := List.getElem?_eq_some_iff.1 hs
    obtain ⟨more, hmore⟩ := statements_prefix_addAll (empty.addAll additions) later name
    rw [statement?, ← hmore, List.getElem?_append_left hlt]
    exact hs

/-- Whatever is added to an empty dataset, it gathers; and so does one that is collected from a
list. -/
theorem additions_gathered (additions : List Addition) (l : List Statement) :
    Gathers additions (empty.addAll additions) ∧ Gathers (l.map .push) (ofStatements l) := by
  refine ⟨gathers_addAll additions, ?_⟩
  rw [ofStatements_eq]
  exact gathers_addAll _

end TriplePlan.Dataset
