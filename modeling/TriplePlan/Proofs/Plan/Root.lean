import TriplePlan.Proofs.Plan.Candidates
import TriplePlan.Proofs.Plan.Classify
import TriplePlan.Proofs.Plan.Intersect
import Mathlib.Data.Set.List
import Mathlib.Tactic.Choose

/-! The value root of a variable on an index: the nodes that make every statement with this
variable alone a stored triple. A variable is refused if there is no such node, or no such
statement where one is required. -/
namespace TriplePlan

open Index

def HasOnly (es : List (String × Nat × Statement)) (v : Var) : Prop :=
  ∃ e ∈ es, ∃ u, e.2.2.IsOnly u v

/-- The node makes all statements with this variable alone stored triples. -/
def Admits (docs : List Document) (es : List (String × Nat × Statement)) (v : Var)
    (x : Node) : Prop :=
  ∀ e ∈ es, (∃ u, e.2.2.IsOnly u v) → Indexed docs (e.2.2.under fun _ => x)

/-- No root can be given to the variable. -/
def Rootless (docs : List Document) (es : List (String × Nat × Statement)) (requireRoot : Bool)
    (v : Var) : Prop :=
  (HasOnly es v ∧ ∀ x, ¬ Admits docs es v x) ∨ (requireRoot = true ∧ ¬ HasOnly es v)

/-- The root is what it should be. -/
structure IsRoot (docs : List Document) (es : List (String × Nat × Statement)) (v : Var)
    (root : Option (List Node)) : Prop where
  isSome : root.isSome ↔ HasOnly es v
  ascending : ∀ l, root = some l → (l.map Key.encodeNode).Pairwise fun a b => compare a b = .lt
  mem : ∀ l, root = some l → ∀ x, x ∈ l ↔ Admits docs es v x

/-- Values for the variables that make every statement a stored triple. -/
def Solves (docs : List Document) (es : List (String × Nat × Statement)) (σ : Var → Node) : Prop :=
  ∀ e ∈ es, Indexed docs (e.2.2.under σ)

theorem under_of_isOnly {s : Statement} {u : Position} {v : Var} (h : s.IsOnly u v)
    (σ : Var → Node) :
    s.under (fun _ => σ v) = s.under σ := by
  obtain ⟨m, n, rfl⟩ := Statement.isOnly_iff.1 h
  simp only [Statement.under_ofRotation]
  rfl

theorem Solves.admits {docs : List Document} {es : List (String × Nat × Statement)} {σ : Var → Node}
    (h : Solves docs es σ) (v : Var) : Admits docs es v (σ v) := by
  intro e he honly
  obtain ⟨u, hu⟩ := honly
  rw [under_of_isOnly hu]
  exact h e he

theorem exists_single_iff {e : String × Nat × Statement} {v : Var} :
    (∃ f ∈ filings e, f.owner = v ∧ f.shape = .single) ↔ ∃ u, e.2.2.IsOnly u v := by
  constructor
  · intro h
    obtain ⟨f, hf, rfl, hs⟩ := h
    cases files_of_mem hf with
    | single g i u m n v => exact ⟨u, Statement.isOnly_iff.2 ⟨m, n, rfl⟩⟩
    | constraint => cases hs
    | next => cases hs
    | last => cases hs
  · intro h
    obtain ⟨g, i, s⟩ := e
    obtain ⟨u, hu⟩ := h
    obtain ⟨m, n, rfl⟩ := Statement.isOnly_iff.1 hu
    exact ⟨_, by rw [filings_one]; exact List.mem_singleton_self _, rfl, rfl⟩

section

variable {es : List (String × Nat × Statement)} {codexes : List Codex} {c : Codex}

theorem Covers.mem_group {filed : List Filing} (h : Covers filed codexes) (hc : c ∈ codexes)
    (shape : Shape) {rid : RefId} :
    rid ∈ c.group shape ↔ ∃ f, filed[rid]? = some f ∧ f.owner = c.id ∧ f.shape = shape := by
  rw [h.group c hc, mem_places]

theorem exists_statement {rid : RefId} {f : Filing} (hf : (es.flatMap filings)[rid]? = some f) :
    ∃ e ∈ es, f ∈ filings e :=
  List.mem_flatMap.1 (List.mem_of_getElem? hf)

theorem exists_place {e : String × Nat × Statement} (he : e ∈ es) {f : Filing}
    (hf : f ∈ filings e) :
    ∃ rid : RefId, (es.flatMap filings)[rid]? = some f :=
  List.mem_iff_getElem?.1 (List.mem_flatMap.2 ⟨e, he, hf⟩)

theorem hasOnly_iff (h : Covers (es.flatMap filings) codexes) (hc : c ∈ codexes) :
    HasOnly es c.id ↔ c.single ≠ [] := by
  have hsingle : c.group .single = c.single := rfl
  rw [← hsingle]
  constructor
  · intro honly
    obtain ⟨e, he, hu⟩ := honly
    obtain ⟨f, hf, howner, hs⟩ := exists_single_iff.2 hu
    obtain ⟨rid, hrid⟩ := exists_place he hf
    exact List.ne_nil_of_mem ((h.mem_group hc .single).2 ⟨f, hrid, howner, hs⟩)
  · intro hne
    obtain ⟨rid, hrid⟩ := List.exists_mem_of_ne_nil _ hne
    obtain ⟨f, hf, howner, hs⟩ := (h.mem_group hc .single).1 hrid
    obtain ⟨e, he, hfe⟩ := exists_statement hf
    exact ⟨e, he, exists_single_iff.1 ⟨f, hfe, howner, hs⟩⟩

end

open Assignment

theorem decodeRoot_encodeNode (x : Node) : decodeRoot (Key.encodeNode x) = .ok x := by
  have hdecode := Key.decodeNode_encodeNode x []
  rw [List.append_nil] at hdecode
  rw [decodeRoot, hdecode]

theorem mapM_decodeRoot (root : List Node) :
    (root.map Key.encodeNode).mapM decodeRoot = .ok root := by
  have hrun := mapM_ok (l := root) fun x _ => decodeRoot_encodeNode x
  rw [List.mapM_map]
  rwa [List.map_id'] at hrun

theorem exists_nodes_of_intersectAll {sets : List (List Node)} (hne : sets ≠ [])
    (h : ∀ set ∈ sets, (set.map Key.encodeNode).Pairwise fun a b => compare a b = .lt) :
    ∃ root : List Node, intersectAll (sets.map (List.map Key.encodeNode)) =
      root.map Key.encodeNode ∧
      (root.map Key.encodeNode).Pairwise (fun a b => compare a b = .lt) ∧ ∀ x, x ∈ root ↔
        ∀ set ∈ sets, x ∈ set := by
  have hinj : Function.Injective Key.encodeNode := fun _ _ => Key.encodeNode_injective
  have hsets : sets.map (List.map Key.encodeNode) ≠ [] := by simpa using hne
  obtain ⟨hsorted, hmem⟩ := intersectAll_spec hsets (by simpa using h)
  simp only [List.forall_mem_map] at hmem
  obtain ⟨set, hset⟩ := List.exists_mem_of_ne_nil _ hne
  obtain ⟨root, hroot⟩ : intersectAll (sets.map (List.map Key.encodeNode)) ∈ Set.range
      (List.map Key.encodeNode) := by
    rw [Set.range_list_map]
    intro v hv
    obtain ⟨x, -, hx⟩ := List.mem_map.1 ((hmem v).1 hv set hset)
    exact ⟨x, hx⟩
  refine ⟨root, hroot.symm, hroot ▸ hsorted, fun x => ?_⟩
  rw [← List.mem_map_of_injective hinj, hroot, hmem]
  simp only [List.mem_map_of_injective hinj]

section

variable {docs : List Document} {es : List (String × Nat × Statement)} {codexes : List Codex}
    {c : Codex}
  {refs : List Reference}

theorem candidatesOf_eq (h : WordSized docs) (hrefs : Cores (es.flatMap filings) refs) {rid : RefId}
    {f : Filing} (hf : (es.flatMap filings)[rid]? = some f) (hs : f.shape = .single) :
    ∃ xs : List Node, candidatesOf (Store.ofDocuments docs) refs rid =
      .ok (some (xs.map Key.encodeNode)) ∧
      (xs.map Key.encodeNode).Pairwise (fun a b => compare a b = .lt) ∧
      ∀ e, Files e f → ∀ x, x ∈ xs ↔ Indexed docs (Statement.under (fun _ => x) e.2.2) := by
  obtain ⟨r, hr, hcore⟩ := hrefs.get hf
  obtain ⟨e, -, hfe⟩ := exists_statement hf
  obtain ⟨xs, hrun, hsorted, hmem⟩ := candidateValues_filing h (files_of_mem hfe) hs
  have hread : r.candidateValues (Store.ofDocuments docs) = .ok (some (xs.map Key.encodeNode)) := by
    rw [← hrun, ← hcore]
    rfl
  refine ⟨xs, ?_, hsorted, fun e' he' => ?_⟩
  · rw [candidatesOf, hr]
    dsimp only
    rw [hread]
    rfl
  · rwa [he'.inj (files_of_mem hfe)]

theorem exists_candidates (h : WordSized docs) (hcover : Covers (es.flatMap filings) codexes)
    (hc : c ∈ codexes) (hrefs : Cores (es.flatMap filings) refs) {rid : RefId}
    (hrid : rid ∈ c.single) :
    ∃ xs : List Node, candidatesOf (Store.ofDocuments docs) refs rid =
      .ok (some (xs.map Key.encodeNode)) ∧
      (xs.map Key.encodeNode).Pairwise (fun a b => compare a b = .lt) ∧
      ∀ f, (es.flatMap filings)[rid]? = some f → ∀ e, Files e f →
        ∀ x, x ∈ xs ↔ Indexed docs (Statement.under (fun _ => x) e.2.2) := by
  obtain ⟨f, hf, -, hs⟩ := (hcover.mem_group hc .single).1 hrid
  obtain ⟨xs, hrun, hsorted, hx⟩ := candidatesOf_eq h hrefs hf hs
  refine ⟨xs, hrun, hsorted, fun f' hf' => ?_⟩
  rw [hf] at hf'
  cases hf'
  exact hx

theorem admits_iff (hcover : Covers (es.flatMap filings) codexes) (hc : c ∈ codexes)
    {xs : RefId → List Node} (hxs : ∀ rid ∈ c.single, ∀ f, (es.flatMap filings)[rid]? = some f →
      ∀ e, Files e f → ∀ x, x ∈ xs rid ↔ Indexed docs (Statement.under (fun _ => x) e.2.2))
    (x : Node) : (∀ rid ∈ c.single, x ∈ xs rid) ↔ Admits docs es c.id x := by
  have hmem : ∀ rid, rid ∈ c.single ↔
      ∃ f, (es.flatMap filings)[rid]? = some f ∧ f.owner = c.id ∧ f.shape = .single :=
    fun rid => hcover.mem_group hc .single
  constructor
  · intro hall e he hu
    obtain ⟨f, hf, howner, hs⟩ := exists_single_iff.2 hu
    obtain ⟨rid, hrid⟩ := exists_place he hf
    have hin := (hmem rid).2 ⟨f, hrid, howner, hs⟩
    exact (hxs rid hin f hrid e (files_of_mem hf) x).1 (hall rid hin)
  · intro hadm rid hrid
    obtain ⟨f, hf, howner, hs⟩ := (hmem rid).1 hrid
    obtain ⟨e, he, hfe⟩ := exists_statement hf
    have hstored := hadm e he (exists_single_iff.1 ⟨f, hfe, howner, hs⟩)
    exact (hxs rid hrid f hf e (files_of_mem hfe) x).2 hstored

theorem valueRootOf_of_sets {s : Store} {requireRoot : Bool} (hne : c.single ≠ [])
    {sets : List (Option (List Bytes))} (hsets : c.single.mapM (candidatesOf s refs) = .ok sets)
    {root : List Node}
    (hroot : intersectAll (sets.filterMap fun x => x) = root.map Key.encodeNode) :
    valueRootOf requireRoot s refs c =
      if root = [] then .error (.emptyValueRoot c.id) else .ok (some root) := by
  have hempty : root.map Key.encodeNode = [] ↔ root = [] := List.map_eq_nil_iff
  simp only [valueRootOf, List.isEmpty_iff, hne, if_false, hsets]
  change (if intersectAll (sets.filterMap fun x => x) = [] then _ else _ :
    Except PlanError (Option (List Node))) = _
  simp only [hroot, hempty, mapM_decodeRoot]
  rfl

theorem exists_root (h : WordSized docs) (hcover : Covers (es.flatMap filings) codexes)
    (hc : c ∈ codexes) (hrefs : Cores (es.flatMap filings) refs) (requireRoot : Bool)
    (hne : c.single ≠ []) :
    ∃ root : List Node, (root.map Key.encodeNode).Pairwise (fun a b => compare a b = .lt) ∧
      (∀ x, x ∈ root ↔ Admits docs es c.id x) ∧
      valueRootOf requireRoot (Store.ofDocuments docs) refs c =
        if root = [] then .error (.emptyValueRoot c.id) else .ok (some root) := by
  have hcandidates := fun rid (hrid : rid ∈ c.single) =>
    exists_candidates h hcover hc hrefs hrid
  choose! xs hrun hsorted hxs using hcandidates
  obtain ⟨root, hroot, hrootsorted, hmem⟩ := exists_nodes_of_intersectAll
    (mt List.map_eq_nil_iff.1 hne) (List.forall_mem_map.2 hsorted)
  refine ⟨root, hrootsorted, fun x => ?_, valueRootOf_of_sets hne (mapM_ok hrun) ?_⟩
  · rw [hmem, List.forall_mem_map]
    exact admits_iff hcover hc hxs x
  · rw [← hroot, List.map_map, List.filterMap_map]
    simp [Function.comp_def]

/-- A variable gets its root, or is refused because it cannot have one. -/
theorem valueRootOf_eq (h : WordSized docs) (hcover : Covers (es.flatMap filings) codexes)
    (hc : c ∈ codexes) (hrefs : Cores (es.flatMap filings) refs) (requireRoot : Bool) :
    (Rootless docs es requireRoot c.id ∧
      valueRootOf requireRoot (Store.ofDocuments docs) refs c = .error (.emptyValueRoot c.id)) ∨
    (¬ Rootless docs es requireRoot c.id ∧ ∃ root, IsRoot docs es c.id root ∧
      valueRootOf requireRoot (Store.ofDocuments docs) refs c = .ok root) := by
  have honly := hasOnly_iff hcover hc
  by_cases hnil : c.single = []
  · have hnone : ¬ HasOnly es c.id := fun hyes => honly.1 hyes hnil
    cases requireRoot with
    | true => exact .inl ⟨.inr ⟨rfl, hnone⟩, by simp only [valueRootOf, hnil]; rfl⟩
    | false =>
      refine .inr ⟨by simp [Rootless, hnone], none, ⟨by simp [hnone], nofun, nofun⟩, ?_⟩
      simp only [valueRootOf, hnil]
      rfl
  · have hyes : HasOnly es c.id := honly.2 hnil
    obtain ⟨root, hsorted, hmem, hread⟩ := exists_root h hcover hc hrefs requireRoot hnil
    rw [hread]
    by_cases hempty : root = []
    · refine .inl ⟨.inl ⟨hyes, fun x hx => ?_⟩, if_pos hempty⟩
      have := (hmem x).2 hx
      simp [hempty] at this
    · obtain ⟨x, hx⟩ := List.exists_mem_of_ne_nil _ hempty
      have hroot : IsRoot docs es c.id (some root) := by
        refine ⟨by simp [hyes], fun l hl => ?_, fun l hl => ?_⟩
        · cases hl
          exact hsorted
        · cases hl
          exact hmem
      refine .inr ⟨?_, some root, hroot, if_neg hempty⟩
      intro hless
      obtain ⟨-, hno⟩ | ⟨-, hno⟩ := hless
      · exact hno x ((hmem x).1 hx)
      · exact hno hyes

end

end TriplePlan
