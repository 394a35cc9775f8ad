import TriplePlan.Proofs.Except
import TriplePlan.Proofs.Plan.Classify

/-! The two references of a statement with two variables are linked to each other, and stand at the
same place in the group of each variable for the other one. -/
namespace TriplePlan

open Classified

theorem mem_varPositions {s : Statement} {p : Position} {v : Var} :
    (p, v) ∈ varPositions s ↔ s.get p = .var v := by
  simp only [varPositions, List.mem_filterMap, Option.map_eq_some_iff, Prod.mk.injEq]
  constructor
  · rintro ⟨q, -, w, hw, rfl, rfl⟩
    cases hq : s.get q with
    | node n => rw [hq] at hw; cases hw
    | var u => rw [hq] at hw; cases hw; rfl
  · intro h
    exact ⟨p, p.mem_all, v, by rw [h]; rfl, rfl, rfl⟩

theorem filings_cases (e : String × Nat × Statement) :
    (∀ f ∈ filings e, ∀ w, f.shape ≠ .double w) ∨
      ∃ p q a b, a ≠ b ∧ varPositions e.2.2 = [(p, a), (q, b)] ∧
        filings e = [⟨a, .double b, rotated e.1 e.2.1 e.2.2 p⟩,
          ⟨b, .double a, rotated e.1 e.2.1 e.2.2 q⟩] := by
  match hp : varPositions e.2.2 with
  | [] => exact .inl (by simp [filings, hp])
  | [(u, v)] => exact .inl (by simp [filings, hp])
  | [(p, a), (q, b)] =>
    by_cases hab : a = b
    · refine .inl ?_
      subst hab
      cases hbetween : Permutation.between p q <;> simp [filings, hp, hbetween]
    · exact .inr ⟨p, q, a, b, hab, rfl, by simp [filings, hp, hab]⟩
  | x :: y :: z :: r => exact .inl (by simp [filings, hp])

/-- A statement that is not open, with two variables, has one reference for each and no other. -/
theorem mem_filings_iff {e : String × Nat × Statement} (h : ¬ e.2.2.IsOpen) {p q : Position}
    {x y : Var} (hxy : x ≠ y) (hp : e.2.2.get p = .var x) (hq : e.2.2.get q = .var y)
    {f : Filing} : f ∈ filings e ↔ f = ⟨x, .double y, rotated e.1 e.2.1 e.2.2 p⟩ ∨
      f = ⟨y, .double x, rotated e.1 e.2.1 e.2.2 q⟩ := by
  have hfirst := mem_varPositions.2 hp
  have hsecond := mem_varPositions.2 hq
  rw [isOpen_iff] at h
  match hv : varPositions e.2.2 with
  | [] =>
    rw [hv] at hfirst
    cases hfirst
  | [u] =>
    rw [hv, List.mem_singleton] at hfirst hsecond
    exact absurd (congrArg (·.2) (hfirst.trans hsecond.symm)) hxy
  | [(i, a), (j, b)] =>
    rw [hv] at hfirst hsecond
    simp only [List.mem_cons, Prod.mk.injEq, List.not_mem_nil, or_false] at hfirst hsecond
    -- The two variables stand in this order or in the other one.
    obtain ⟨rfl, rfl⟩ | ⟨rfl, rfl⟩ := hfirst
    · obtain ⟨rfl, rfl⟩ | ⟨rfl, rfl⟩ := hsecond
      · exact absurd rfl hxy
      · simp [filings, hv, hxy]
    · obtain ⟨rfl, rfl⟩ | ⟨rfl, rfl⟩ := hsecond
      · simp [filings, hv, Ne.symm hxy, or_comm]
      · exact absurd rfl hxy
  | u :: v :: w :: rest =>
    rw [hv] at h
    exact absurd (by simp) h

theorem nodup_filings (e : String × Nat × Statement) : (filings e).Nodup := by
  rw [filings]
  split
  · exact List.nodup_singleton _
  · split
    · split
      · exact List.nodup_nil
      · exact List.nodup_singleton _
    · rename_i hab
      simp [hab]
  · exact List.nodup_nil

theorem nodup_flatMap_filings {es : List (String × Nat × Statement)} (h : es.Nodup) :
    (es.flatMap filings).Nodup := by
  refine List.nodup_flatMap.2 ⟨fun e _ => nodup_filings e, h.imp ?_⟩
  intro e e' hne f hf hf'
  exact hne ((files_of_mem hf).inj (files_of_mem hf'))

/-- The references of a statement from this place on; two of them are linked to each other. -/
def linked (start : RefId) (e : String × Nat × Statement) : List Reference :=
  match filings e with
  | [f, g] =>
    [{ f.reference with dual := some (start + 1) }, { g.reference with dual := some start }]
  | fs => fs.map (·.reference)

theorem references_addStatement {c c' : Classified} {e : String × Nat × Statement}
    (h : addStatement c e = .ok c') : c'.codexMap.references =
      c.codexMap.references ++ linked c.codexMap.references.length e := by
  obtain ⟨g, i, s⟩ := e
  match hp : varPositions s with
  | [] =>
    simp only [addStatement, hp] at h
    cases h
    simp [linked, filings, hp]
  | [(u, v)] =>
    simp only [addStatement, hp] at h
    cases h
    simp [linked, filings, hp, CodexMap.pushReference]
  | [(p, a), (q, b)] =>
    simp only [addStatement, hp] at h
    by_cases hab : a = b
    · subst hab
      cases hbetween : Permutation.between p q with
      | none =>
        simp only [if_true, hbetween] at h
        cases h
        simp [linked, filings, hp, hbetween]
      | some perm =>
        simp only [if_true, hbetween] at h
        cases h
        simp [linked, filings, hp, hbetween, CodexMap.pushReference]
    · rw [if_neg hab] at h
      cases h
      simp [linked, filings, hp, hab, CodexMap.insertPair, CodexMap.insertDouble]
  | x :: y :: z :: r =>
    simp only [addStatement, hp] at h
    cases h

theorem length_linked (start : RefId) (e : String × Nat × Statement) :
    (linked start e).length = (filings e).length := by
  unfold linked
  split
  · rename_i hf
    rw [hf]
    rfl
  · exact List.length_map _

theorem places_append_of_ne {filed more : List Filing} {v : Var} {shape : Shape}
    (h : ∀ f ∈ more, f.shape ≠ shape) : places (filed ++ more) v shape = places filed v shape := by
  simp only [places, List.zipIdx_append, List.filter_append, List.map_append]
  have hnil : ((more.zipIdx (0 + filed.length)).filter fun x => x.1.owner = v ∧ x.1.shape = shape) =
      [] := by
    rw [List.filter_eq_nil_iff]
    rintro ⟨f, rid⟩ hmem hf
    simp only [decide_eq_true_eq] at hf
    exact h f (List.fst_mem_of_mem_zipIdx hmem) hf.2
  rw [hnil, List.map_nil, List.append_nil]

def Halves (es : List (String × Nat × Statement)) (refs : List Reference) (a b : RefId) : Prop :=
  ∃ e ∈ es, ∃ f ∈ filings e, ∃ g ∈ filings e, (es.flatMap filings)[a]? = some f ∧
    (es.flatMap filings)[b]? = some g ∧ refs[a]?.bind (·.dual) = some b ∧
      refs[b]?.bind (·.dual) = some a

theorem Halves.symm {es : List (String × Nat × Statement)} {refs : List Reference} {a b : RefId}
    (h : Halves es refs a b) : Halves es refs b a := by
  obtain ⟨e, he, f, hf, g, hg, ha, hb, hab, hba⟩ := h
  exact ⟨e, he, g, hg, f, hf, hb, ha, hba, hab⟩

theorem getElem?_append_of_some {α : Type} {l : List α} {i : Nat} {a : α} (h : l[i]? = some a)
    (l' : List α) : (l ++ l')[i]? = some a := by
  rw [List.getElem?_append_left (List.getElem?_eq_some_iff.1 h).1, h]

theorem Halves.append {es : List (String × Nat × Statement)} {refs : List Reference} {a b : RefId}
    (h : Halves es refs a b) (es' : List (String × Nat × Statement)) (refs' : List Reference) :
    Halves (es ++ es') (refs ++ refs') a b := by
  obtain ⟨e, he, f, hf, g, hg, ha, hb, hab, hba⟩ := h
  obtain ⟨r, hr, hrb⟩ := Option.bind_eq_some_iff.1 hab
  obtain ⟨r', hr', hra⟩ := Option.bind_eq_some_iff.1 hba
  refine ⟨e, List.mem_append_left _ he, f, hf, g, hg, ?_, ?_, ?_, ?_⟩
  · rw [List.flatMap_append]
    exact getElem?_append_of_some ha _
  · rw [List.flatMap_append]
    exact getElem?_append_of_some hb _
  · rw [getElem?_append_of_some hr]
    exact hrb
  · rw [getElem?_append_of_some hr']
    exact hra

/-- Place by place, what one variable has with another is linked to what the other has with it. -/
def Aligned (es : List (String × Nat × Statement)) (refs : List Reference) : Prop :=
  ∀ x y, x ≠ y → List.Forall₂ (Halves es refs) (places (es.flatMap filings) x (.double y))
    (places (es.flatMap filings) y (.double x))

theorem Aligned.get {es : List (String × Nat × Statement)} {refs : List Reference}
    (h : Aligned es refs) {x y : Var} (hxy : x ≠ y) {offset : Nat} {a : RefId}
    (ha : (places (es.flatMap filings) x (.double y))[offset]? = some a) :
    ∃ b, (places (es.flatMap filings) y (.double x))[offset]? = some b ∧ Halves es refs a b := by
  obtain ⟨hlt, rfl⟩ := List.getElem?_eq_some_iff.1 ha
  have hlt' : offset < (places (es.flatMap filings) y (.double x)).length := by
    rw [← (h x y hxy).length_eq]
    exact hlt
  exact ⟨_, List.getElem?_eq_getElem hlt', (h x y hxy).get hlt hlt'⟩

theorem Aligned.snoc {es : List (String × Nat × Statement)} {refs : List Reference}
    (h : Aligned es refs) (hlength : refs.length = (es.flatMap filings).length)
    (e : String × Nat × Statement) : Aligned (es ++ [e]) (refs ++ linked refs.length e) := by
  intro x y hxy
  have hkeep := (h x y hxy).imp fun _ _ hab => hab.append [e] (linked refs.length e)
  rw [List.flatMap_append, List.flatMap_singleton]
  obtain hnone | ⟨p, q, a, b, hab, -, hpair⟩ := filings_cases e
  · rw [places_append_of_ne fun f hf => hnone f hf y, places_append_of_ne fun f hf => hnone f hf x]
    exact hkeep
  · have hnew :
        Halves (es ++ [e]) (refs ++ linked refs.length e) refs.length (refs.length + 1) := by
      refine ⟨e, by simp, _, hpair ▸ List.mem_cons_self, _,
        hpair ▸ List.mem_cons_of_mem _ List.mem_cons_self, ?_, ?_, ?_, ?_⟩
      · simp [hpair, hlength]
      · simp [hpair, hlength]
      · simp [linked, hpair]
      · simp [linked, hpair]
    have hsplit : es.flatMap filings ++ filings e =
        es.flatMap filings ++ [⟨a, .double b, rotated e.1 e.2.1 e.2.2 p⟩] ++
          [⟨b, .double a, rotated e.1 e.2.1 e.2.2 q⟩] := by
      rw [hpair, List.append_assoc]
      rfl
    rw [hsplit]
    simp only [places_append, List.length_append, List.length_singleton, ← hlength]
    by_cases hax : a = x ∧ b = y
    · obtain ⟨rfl, rfl⟩ := hax
      simp only [and_self, if_true, hab, Ne.symm hab, if_false, List.append_nil, false_and]
      exact List.rel_append hkeep (.cons hnew .nil)
    · by_cases hbx : b = x ∧ a = y
      · obtain ⟨rfl, rfl⟩ := hbx
        simp only [and_self, if_true, hab, Ne.symm hab, if_false, List.append_nil, false_and]
        exact List.rel_append hkeep (.cons hnew.symm .nil)
      · have hay : ¬ (a = y ∧ b = x) := fun h => hbx h.symm
        have hby : ¬ (b = y ∧ a = x) := fun h => hax h.symm
        simp only [Shape.double.injEq, hax, hbx, hay, hby, if_false, List.append_nil]
        exact hkeep

theorem foldlM_addStatement_aligned {done es : List (String × Nat × Statement)} {c c' : Classified}
    (h : Aligned done c.codexMap.references)
    (hlength : c.codexMap.references.length = (done.flatMap filings).length)
    (hrun : es.foldlM addStatement c = .ok c') :
    Aligned (done ++ es) c'.codexMap.references := by
  induction es generalizing done c with
  | nil =>
    cases hrun
    rwa [List.append_nil]
  | cons e es ih =>
    rw [List.foldlM_cons] at hrun
    obtain ⟨c₁, hstep, hrest⟩ := bind_eq_ok_iff.1 hrun
    have hrefs := references_addStatement hstep
    rw [List.append_cons]
    apply ih
    · rw [hrefs]
      exact h.snoc hlength e
    · simp [hrefs, hlength, length_linked]
    · exact hrest

/-- A pattern that is classified has no open statement, and its references are linked and filed. -/
theorem classify_ok {pattern : Dataset} {c : Classified} (h : classify pattern = .ok c) :
    (∀ e ∈ pattern.toList, ¬ e.2.2.IsOpen) ∧ Describes pattern.toList c ∧
      Aligned pattern.toList c.codexMap.references := by
  obtain ⟨c', hc', hclosed, hd⟩ | ⟨_, e, _, -, -, -, herr⟩ := classify_eq pattern
  · rw [h] at hc'
    cases hc'
    have hstart : Aligned [] Classified.empty.codexMap.references := fun _ _ _ => .nil
    exact ⟨hclosed, hd, foldlM_addStatement_aligned hstart rfl h⟩
  · rw [h] at herr
    cases herr

end TriplePlan
