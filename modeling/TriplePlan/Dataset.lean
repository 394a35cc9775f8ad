import TriplePlan.OrderedMap
import TriplePlan.Statement

/-!
Statements grouped into named graphs. A graph lists its statements in the order of their first
insertion, each once, and exists only while it holds one. Beside the lists stands what was seen in
each graph, which tells new statements from old ones.
-/
namespace TriplePlan

abbrev Graphs := OrderedMap String (List Statement) Text.cmp

structure Dataset where
  graphs : Graphs
  /-- Whether the set that goes with the list of a graph has a statement. -/
  seen : String → Statement → Bool
  nonempty : ∀ g ∈ graphs.entries, g.2 ≠ []
  nodup : ∀ g ∈ graphs.entries, g.2.Nodup
  seen_iff : ∀ name s, seen name s = true ↔ s ∈ (graphs.get? name).getD []

namespace Dataset

@[ext] theorem ext {d e : Dataset} (h : d.graphs = e.graphs) : d = e := by
  have hseen : d.seen = e.seen := by
    funext name s
    rw [Bool.eq_iff_iff, d.seen_iff, e.seen_iff, h]
  cases d
  cases e
  cases h
  cases hseen
  rfl

def defaultGraph : String := "@default"

def empty : Dataset := ⟨.empty, fun _ _ => false, nofun, nofun, fun _ _ => ⟨nofun, nofun⟩⟩

instance : EmptyCollection Dataset := ⟨empty⟩
instance : Inhabited Dataset := ⟨empty⟩

instance : DecidableEq Dataset := fun d e =>
  decidable_of_iff (d.graphs = e.graphs) ⟨ext, fun h => h ▸ rfl⟩

def graph? (d : Dataset) (name : String) : Option (List Statement) := d.graphs.get? name

def statements (d : Dataset) (name : String) : List Statement := (d.graph? name).getD []

def statement? (d : Dataset) (name : String) (index : Nat) : Option Statement :=
  (d.statements name)[index]?

theorem mem_of_lookup {κ υ : Type} {cmp : κ → κ → Ordering} {k : κ} {v : υ} {l : List (κ × υ)}
    (h : OrderedMap.lookup cmp k l = some v) : ∃ k', (k', v) ∈ l := by
  induction l with
  | nil => cases h
  | cons a r ih =>
    obtain ⟨k', v'⟩ := a
    rw [OrderedMap.lookup] at h
    split at h
    · cases h; exact ⟨k', List.mem_cons_self⟩
    · obtain ⟨k'', hk⟩ := ih h
      exact ⟨k'', List.mem_cons_of_mem _ hk⟩

theorem nodup_statements (d : Dataset) (name : String) : (d.statements name).Nodup := by
  unfold statements graph?
  cases h : d.graphs.get? name with
  | none => simp
  | some l => obtain ⟨k, hk⟩ := mem_of_lookup h; exact d.nodup _ hk

/-- Adds a statement at the end of its graph, unless it was seen there; tells whether it was
added. -/
def insert (d : Dataset) (name : String) (s : Statement) : Bool × Dataset :=
  if h : d.seen name s then (false, d)
  else (true,
    { graphs := d.graphs.insert name (d.statements name ++ [s])
      seen := fun n t => (n = name ∧ t = s) || d.seen n t
      nonempty := fun g hg => by
        rcases OrderedMap.mem_insertEntry hg with rfl | hg
        · simp
        · exact d.nonempty g hg
      nodup := fun g hg => by
        rw [d.seen_iff] at h
        rcases OrderedMap.mem_insertEntry hg with rfl | hg
        · refine List.nodup_append.2 ⟨d.nodup_statements name, by simp, fun a ha b hb => ?_⟩
          rintro rfl
          exact h (List.mem_singleton.1 hb ▸ ha)
        · exact d.nodup g hg
      seen_iff := fun n t => by
        rw [OrderedMap.get?_insert]
        by_cases hn : n = name
        · subst hn
          simp [d.seen_iff, statements, graph?, or_comm]
        · simp [hn, d.seen_iff] })

def push (d : Dataset) (s : Statement) : Bool × Dataset := d.insert defaultGraph s

def insertAll (d : Dataset) (name : String) (l : List Statement) : Dataset :=
  l.foldl (fun d s => (d.insert name s).2) d

def ofStatements (l : List Statement) : Dataset := empty.insertAll defaultGraph l

/-- The dataset of a table of graphs: repeated statements and empty graphs are dropped. -/
def ofGraphs (graphs : Graphs) : Dataset :=
  graphs.entries.foldl (fun d g => d.insertAll g.1 g.2) empty

/-- Every statement with its graph and index, by graph name and then index. -/
def toList (d : Dataset) : List (String × Nat × Statement) :=
  d.graphs.entries.flatMap fun g => g.2.mapIdx fun i s => (g.1, i, s)

def size (d : Dataset) : Nat := d.graphs.values.foldl (fun total l => total + l.length) 0

def isEmpty (d : Dataset) : Bool := d.size == 0

end Dataset

end TriplePlan
