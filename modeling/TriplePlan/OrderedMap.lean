/-!
Finite maps kept as one list of entries in strictly ascending key order, so that equal maps are
equal lists.
-/
namespace TriplePlan

structure OrderedMap (κ υ : Type) (cmp : κ → κ → Ordering) where
  entries : List (κ × υ)
  sorted : entries.Pairwise fun a b => cmp a.1 b.1 = .lt

namespace OrderedMap

variable {κ υ : Type} {cmp : κ → κ → Ordering}

@[ext] theorem ext {m n : OrderedMap κ υ cmp} (h : m.entries = n.entries) : m = n := by
  cases m; cases n; cases h; rfl

instance [DecidableEq κ] [DecidableEq υ] : DecidableEq (OrderedMap κ υ cmp) := fun m n =>
  decidable_of_iff (m.entries = n.entries) ⟨ext, fun h => h ▸ rfl⟩

def empty : OrderedMap κ υ cmp := ⟨[], .nil⟩

instance : EmptyCollection (OrderedMap κ υ cmp) := ⟨empty⟩
instance : Inhabited (OrderedMap κ υ cmp) := ⟨empty⟩

def size (m : OrderedMap κ υ cmp) : Nat := m.entries.length
def isEmpty (m : OrderedMap κ υ cmp) : Bool := m.entries.isEmpty
def keys (m : OrderedMap κ υ cmp) : List κ := m.entries.map (·.1)
def values (m : OrderedMap κ υ cmp) : List υ := m.entries.map (·.2)

def lookup (cmp : κ → κ → Ordering) (k : κ) : List (κ × υ) → Option υ
  | [] => none
  | (k', v) :: r => if cmp k k' = .eq then some v else lookup cmp k r

def get? (m : OrderedMap κ υ cmp) (k : κ) : Option υ := lookup cmp k m.entries

def contains (m : OrderedMap κ υ cmp) (k : κ) : Bool := (m.get? k).isSome

def insertEntry (cmp : κ → κ → Ordering) (k : κ) (v : υ) : List (κ × υ) → List (κ × υ)
  | [] => [(k, v)]
  | (k', v') :: r =>
    match cmp k k' with
    | .lt => (k, v) :: (k', v') :: r
    | .eq => (k, v) :: r
    | .gt => (k', v') :: insertEntry cmp k v r

theorem mem_insertEntry {k : κ} {v : υ} {e : κ × υ} {l : List (κ × υ)}
    (h : e ∈ insertEntry cmp k v l) : e = (k, v) ∨ e ∈ l := by
  induction l with
  | nil => simpa [insertEntry] using h
  | cons a r ih =>
    obtain ⟨k', v'⟩ := a
    rw [insertEntry] at h
    split at h <;> simp only [List.mem_cons] at h ⊢
    · exact h
    · exact h.imp_right .inr
    · rcases h with h | h
      · exact .inr (.inl h)
      · exact (ih h).imp_right .inr

theorem insertEntry_sorted [Std.TransCmp cmp] [Std.LawfulEqCmp cmp] (k : κ) (v : υ)
    {l : List (κ × υ)} (h : l.Pairwise fun a b => cmp a.1 b.1 = .lt) :
    (insertEntry cmp k v l).Pairwise fun a b => cmp a.1 b.1 = .lt := by
  induction l with
  | nil => simp [insertEntry]
  | cons a r ih =>
    obtain ⟨k', v'⟩ := a
    have hr := List.pairwise_cons.1 h
    rw [insertEntry]
    split
    · rename_i hlt
      refine List.pairwise_cons.2 ⟨fun e he => ?_, h⟩
      rcases List.mem_cons.1 he with rfl | he
      · exact hlt
      · exact Std.TransCmp.lt_trans hlt (hr.1 e he)
    · rename_i heq
      have := Std.LawfulEqCmp.eq_of_compare heq
      subst this
      exact List.pairwise_cons.2 ⟨fun e he => hr.1 e he, hr.2⟩
    · rename_i hgt
      refine List.pairwise_cons.2 ⟨fun e he => ?_, ih hr.2⟩
      rcases mem_insertEntry he with rfl | he
      · exact Std.OrientedCmp.lt_of_gt hgt
      · exact hr.1 e he

theorem lookup_insertEntry [DecidableEq κ] [Std.LawfulEqCmp cmp] (k : κ) (v : υ)
    (l : List (κ × υ)) (k' : κ) :
    lookup cmp k' (insertEntry cmp k v l) = if k' = k then some v else lookup cmp k' l := by
  have heq : ∀ a b : κ, cmp a b = .eq ↔ a = b := fun a b => Std.LawfulEqCmp.compare_eq_iff_eq
  induction l with
  | nil => simp [insertEntry, lookup, heq]
  | cons e r ih =>
    obtain ⟨ke, ve⟩ := e
    rw [insertEntry]
    split
    · simp only [lookup, heq]
    · rename_i he
      obtain rfl := (heq _ _).1 he
      by_cases h : k' = k <;> simp [lookup, heq, h]
    · rename_i hgt
      have hne : ¬ k = ke := by rintro rfl; simp [(heq k k).2 rfl] at hgt
      by_cases h : k' = ke
      · subst h
        simp [lookup, heq, Ne.symm hne]
      · simp only [lookup, heq, h, if_false, ih]

def insert [Std.TransCmp cmp] [Std.LawfulEqCmp cmp] (m : OrderedMap κ υ cmp) (k : κ) (v : υ) :
    OrderedMap κ υ cmp :=
  ⟨insertEntry cmp k v m.entries, insertEntry_sorted k v m.sorted⟩

theorem get?_insert [DecidableEq κ] [Std.TransCmp cmp] [Std.LawfulEqCmp cmp]
    (m : OrderedMap κ υ cmp) (k : κ) (v : υ) (k' : κ) :
    (m.insert k v).get? k' = if k' = k then some v else m.get? k' :=
  lookup_insertEntry k v m.entries k'

def erase (m : OrderedMap κ υ cmp) (k : κ) : OrderedMap κ υ cmp :=
  ⟨m.entries.filter fun e => cmp k e.1 ≠ .eq, m.sorted.filter _⟩

def filterKeys (m : OrderedMap κ υ cmp) (p : κ → Bool) : OrderedMap κ υ cmp :=
  ⟨m.entries.filter fun e => p e.1, m.sorted.filter _⟩

def modify (m : OrderedMap κ υ cmp) (k : κ) (f : υ → υ) : OrderedMap κ υ cmp :=
  ⟨m.entries.map fun e => if cmp k e.1 = .eq then (e.1, f e.2) else e, by
    refine List.pairwise_map.2 (m.sorted.imp fun {a b} h => ?_)
    by_cases ha : cmp k a.1 = .eq <;> by_cases hb : cmp k b.1 = .eq <;> simpa [ha, hb] using h⟩

theorem lookup_map_modify [DecidableEq κ] [Std.LawfulEqCmp cmp] (k : κ) (f : υ → υ)
    (l : List (κ × υ)) (k' : κ) :
    lookup cmp k' (l.map fun e => if cmp k e.1 = .eq then (e.1, f e.2) else e) =
      if k' = k then (lookup cmp k' l).map f else lookup cmp k' l := by
  have heq : ∀ a b : κ, cmp a b = .eq ↔ a = b := fun a b => Std.LawfulEqCmp.compare_eq_iff_eq
  induction l with
  | nil => simp [lookup]
  | cons e r ih =>
    obtain ⟨ke, ve⟩ := e
    by_cases hk : k = ke
    · subst hk
      by_cases h : k' = k <;> simp_all [lookup]
    · by_cases h : k' = ke
      · subst h
        simp [lookup, heq, hk, Ne.symm hk]
      · simpa [lookup, heq, hk, h] using ih

theorem get?_modify [DecidableEq κ] [Std.LawfulEqCmp cmp] (m : OrderedMap κ υ cmp) (k : κ)
    (f : υ → υ) (k' : κ) :
    (m.modify k f).get? k' = if k' = k then (m.get? k').map f else m.get? k' :=
  lookup_map_modify k f m.entries k'

theorem contains_modify [DecidableEq κ] [Std.LawfulEqCmp cmp] (m : OrderedMap κ υ cmp) (k : κ)
    (f : υ → υ) (k' : κ) : (m.modify k f).contains k' = m.contains k' := by
  rw [contains, get?_modify, contains]
  split <;> simp

/-- Later entries replace earlier ones with the same key. -/
def ofList [Std.TransCmp cmp] [Std.LawfulEqCmp cmp] (l : List (κ × υ)) : OrderedMap κ υ cmp :=
  l.foldl (fun m e => m.insert e.1 e.2) empty

end OrderedMap

end TriplePlan
