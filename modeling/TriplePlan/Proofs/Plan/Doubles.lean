import TriplePlan.Proofs.Plan.Partition

/-! Two variables that share statements have a group for each other, of the same length. What
stands at one place of the two groups are the two references of one statement, which name each
other, and count the same triples: those with the constant of the statement in its position. -/
namespace TriplePlan

open Classified

/-- The references of `a` that stand beside `b`. -/
def CodexMap.doubles (m : CodexMap) (a b : Var) : Option (List RefId) :=
  (m.codex? a).bind (·.double.get? b)

/-- The references of `a` and `b` for one statement with these two variables and a constant. -/
def CodexMap.Faces (m : CodexMap) (pattern : Dataset) (a b : Var) (rid rid' : RefId) : Prop :=
  ∃ r r' s q n, m.references[rid]? = some r ∧ m.references[rid']? = some r' ∧
    r.dual = some rid' ∧ r'.dual = some rid ∧ r.graph = r'.graph ∧ r.index = r'.index ∧
    pattern.statement? r.graph r.index = some s ∧ s.vars.Perm [a, b] ∧ s.get q = .node n ∧
    r.countKey? = some (Key.majorKey q n) ∧ r'.countKey? = some (Key.majorKey q n) ∧
    r.other? = some b ∧ r'.other? = some a

/-- What a variable has for another one mirrors what that has for it. -/
structure CodexMap.Mirrored (pattern : Dataset) (m : CodexMap) : Prop where
  symm : ∀ a b, (m.doubles a b).isSome ↔ (m.doubles b a).isSome
  length : ∀ a b l l', m.doubles a b = some l → m.doubles b a = some l' → l.length = l'.length
  faces : ∀ a b l l', m.doubles a b = some l → m.doubles b a = some l' →
    ∀ (offset : Nat) rid rid', l[offset]? = some rid → l'[offset]? = some rid' →
      m.Faces pattern a b rid rid'
  dual : ∀ (rid : RefId) r, m.references[rid]? = some r →
    (r.dual.isSome ↔ ∃ a b l, m.doubles a b = some l ∧ rid ∈ l)

section

variable {filed : List Filing} {m : CodexMap} {a b : Var} {l : List RefId}

theorem doubles_eq (h : Covers filed m.codexes) (a b : Var) :
    m.doubles a b = if places filed a (.double b) = [] then none
      else some (places filed a (.double b)) := by
  rw [CodexMap.doubles]
  cases hcodex : m.codex? a with
  | none =>
    have ha : a ∉ filed.map (·.owner) := by
      rw [← h.mem_ids, List.mem_map]
      rintro ⟨c, hc, hid⟩
      have hsome := CodexMap.codex?_eq_some_iff.2 ⟨hc, hid⟩
      rw [hcodex] at hsome
      cases hsome
    rw [if_pos (places_eq_nil ha _)]
    rfl
  | some c =>
    obtain ⟨hc, rfl⟩ := CodexMap.codex?_eq_some_iff.1 hcodex
    rw [Option.bind_some, h.get?_double hc]

theorem doubles_eq_some_iff (h : Covers filed m.codexes) :
    m.doubles a b = some l ↔ l ≠ [] ∧ places filed a (.double b) = l := by
  rw [doubles_eq h]
  by_cases hnil : places filed a (.double b) = []
  · rw [if_pos hnil, hnil]
    exact ⟨nofun, fun hl => absurd hl.2.symm hl.1⟩
  · rw [if_neg hnil, Option.some.injEq]
    exact ⟨fun hl => ⟨hl ▸ hnil, hl⟩, fun hl => hl.2⟩

theorem isSome_doubles (h : Covers filed m.codexes) :
    (m.doubles a b).isSome ↔ places filed a (.double b) ≠ [] := by
  rw [doubles_eq h]
  by_cases hnil : places filed a (.double b) = [] <;> simp [hnil]

end

section

variable {es : List (String × Nat × Statement)} {refs : List Reference} {a b : Var}

theorem places_self (es : List (String × Nat × Statement)) (a : Var) :
    places (es.flatMap filings) a (.double a) = [] := by
  rw [List.eq_nil_iff_forall_not_mem]
  intro rid hrid
  obtain ⟨f, hf, howner, hshape⟩ := mem_places.1 hrid
  obtain ⟨e, -, hfe⟩ := exists_statement hf
  exact (files_of_mem hfe).ne_of_double hshape howner

theorem Aligned.forall₂ (h : Aligned es refs) (a b : Var) :
    List.Forall₂ (Halves es refs) (places (es.flatMap filings) a (.double b))
      (places (es.flatMap filings) b (.double a)) := by
  by_cases hab : a = b
  · subst hab
    rw [places_self]
    exact .nil
  · exact h a b hab

end

/-- A half of a statement names the other variable, and its counter that of the constant. -/
theorem Files.half {e : String × Nat × Statement} {f : Filing} (h : Files e f) {w : Var}
    (hs : f.shape = .double w) : f.reference.other? = some w ∧
      ∃ q n, e.2.2.get q = .node n ∧ (∀ p, p ≠ q → (e.2.2.get p).isVar = true) ∧
        f.reference.countKey? = some (Key.majorKey q n) := by
  cases h with
  | single => cases hs
  | constraint => cases hs
  | next g i u c hne =>
    cases hs
    refine ⟨rfl, u.rotate 2, c, Triple.get_ofRotation_last _ _ _ _, fun p hp => ?_, rfl⟩
    obtain rfl | rfl | rfl := Position.rotate_cases u p
    · simp [Term.isVar]
    · simp [Term.isVar]
    · exact absurd rfl hp
  | last g i u c hne =>
    cases hs
    refine ⟨rfl, u.rotate 1, c, Triple.get_ofRotation_next _ _ _ _, fun p hp => ?_, rfl⟩
    obtain rfl | rfl | rfl := Position.rotate_cases u p
    · simp [Term.isVar]
    · exact absurd rfl hp
    · simp [Term.isVar]

theorem constant_unique {s : Statement} {q q' : Position} {n n' : Node} (hq : s.get q = .node n)
    (hq' : s.get q' = .node n') (hvar : ∀ p, p ≠ q → (s.get p).isVar = true) :
    q' = q ∧ n' = n := by
  by_cases h : q' = q
  · subst h
    rw [hq] at hq'
    cases hq'
    exact ⟨rfl, rfl⟩
  · have hvar' := hvar q' h
    rw [hq'] at hvar'
    cases hvar'

section

variable {pattern : Dataset} {m : CodexMap} {a b : Var} {rid rid' : RefId}

theorem Halves.faces (h : Halves pattern.toList m.references rid rid')
    (hcores : Cores (pattern.toList.flatMap filings) m.references)
    (hrid : rid ∈ places (pattern.toList.flatMap filings) a (.double b))
    (hrid' : rid' ∈ places (pattern.toList.flatMap filings) b (.double a)) :
    m.Faces pattern a b rid rid' := by
  obtain ⟨e, he, f, hf, g, hg, hfget, hgget, hdual, hdual'⟩ := h
  obtain ⟨f', hf', rfl, hfs⟩ := mem_places.1 hrid
  obtain ⟨g', hg', rfl, hgs⟩ := mem_places.1 hrid'
  rw [hfget] at hf'
  rw [hgget] at hg'
  cases hf'
  cases hg'
  obtain ⟨r, hr, hdual⟩ := Option.bind_eq_some_iff.1 hdual
  obtain ⟨r', hr', hdual'⟩ := Option.bind_eq_some_iff.1 hdual'
  have hcore := hcores.core_eq hfget hr
  have hcore' := hcores.core_eq hgget hr'
  have hfiles := files_of_mem hf
  obtain ⟨hgraph, hindex, -⟩ := statement?_of_core hcore hfiles
  obtain ⟨hgraph', hindex', -⟩ := statement?_of_core hcore' (files_of_mem hg)
  obtain ⟨hother, q, n, hq, hvar, hkey⟩ := hfiles.half hfs
  obtain ⟨hother', q', n', hq', -, hkey'⟩ := (files_of_mem hg).half hgs
  obtain ⟨rfl, rfl⟩ := constant_unique hq hq' hvar
  have hvars := hfiles.vars_perm
  rw [hfs] at hvars
  rw [← hcore] at hother hkey
  rw [← hcore'] at hother' hkey'
  refine ⟨r, r', e.2.2, q', n', hr, hr', hdual, hdual', hgraph.trans hgraph'.symm,
    hindex.trans hindex'.symm, ?_, hvars, hq, hkey, hkey', hother, hother'⟩
  rw [hgraph, hindex]
  exact Dataset.mem_toList.1 he

end

def Shape.isDouble : Shape → Bool
  | .double _ => true
  | _ => false

theorem Shape.isDouble_iff {shape : Shape} : shape.isDouble = true ↔ ∃ w, shape = .double w := by
  cases shape <;> simp [isDouble]

theorem map_dual_linked (start : RefId) (e : String × Nat × Statement) :
    (linked start e).map (·.dual.isSome) = (filings e).map (·.shape.isDouble) := by
  match hp : varPositions e.2.2 with
  | [] => simp [linked, filings, hp]
  | [(u, v)] => simp [linked, filings, hp, rotated, Reference.plain, Shape.isDouble]
  | [(i, a), (j, b)] =>
    by_cases hab : a = b
    · cases hbetween : Permutation.between i j with
      | none => simp [linked, filings, hp, hab, hbetween]
      | some p => simp [linked, filings, hp, hab, hbetween, Reference.plain, Shape.isDouble]
    · simp [linked, filings, hp, hab, Shape.isDouble]
  | x :: y :: z :: r => simp [linked, filings, hp]

theorem foldlM_addStatement_dual {es : List (String × Nat × Statement)} {c c' : Classified}
    (h : es.foldlM addStatement c = .ok c') :
    c'.codexMap.references.map (·.dual.isSome) =
      c.codexMap.references.map (·.dual.isSome) ++ (es.flatMap filings).map (·.shape.isDouble) := by
  induction es generalizing c with
  | nil =>
    cases h
    exact (List.append_nil _).symm
  | cons e es ih =>
    rw [List.foldlM_cons] at h
    obtain ⟨c₁, hstep, hrest⟩ := bind_eq_ok_iff.1 h
    rw [ih hrest, references_addStatement hstep, List.map_append, map_dual_linked,
      List.flatMap_cons, List.map_append, List.append_assoc]

theorem isSome_dual_iff {pattern : Dataset} {c : Classified} (hc : classify pattern = .ok c)
    {rid : RefId} {r : Reference} (hr : c.codexMap.references[rid]? = some r) :
    r.dual.isSome ↔ ∃ f, (pattern.toList.flatMap filings)[rid]? = some f ∧
      ∃ w, f.shape = .double w := by
  have hdual := congrArg (·[rid]?) (foldlM_addStatement_dual hc)
  simp only [Classified.empty, CodexMap.empty, List.map_nil, List.nil_append, List.getElem?_map,
    hr, Option.map_some] at hdual
  obtain ⟨f, hf, hshape⟩ := Option.map_eq_some_iff.1 hdual.symm
  rw [← hshape, Shape.isDouble_iff, hf]
  simp

theorem doubles_mirrored (pattern : Dataset) (c : Classified) (hc : classify pattern = .ok c) :
    c.codexMap.Mirrored pattern := by
  obtain ⟨-, hd, haligned⟩ := classify_ok hc
  have hcover := hd.filed.codexes.covers
  refine ⟨fun a b => ?_, fun a b l l' hl hl' => ?_,
    fun a b l l' hl hl' offset rid rid' hrid hrid' => ?_, fun rid r hr => ?_⟩
  · have hlength := (haligned.forall₂ a b).length_eq
    rw [isSome_doubles hcover, isSome_doubles hcover, ← List.length_pos_iff,
      ← List.length_pos_iff, hlength]
  · obtain ⟨-, rfl⟩ := (doubles_eq_some_iff hcover).1 hl
    obtain ⟨-, rfl⟩ := (doubles_eq_some_iff hcover).1 hl'
    exact (haligned.forall₂ a b).length_eq
  · obtain ⟨-, rfl⟩ := (doubles_eq_some_iff hcover).1 hl
    obtain ⟨-, rfl⟩ := (doubles_eq_some_iff hcover).1 hl'
    obtain ⟨hlt, hget⟩ := List.getElem?_eq_some_iff.1 hrid
    obtain ⟨hlt', hget'⟩ := List.getElem?_eq_some_iff.1 hrid'
    have hhalves := (haligned.forall₂ a b).get hlt hlt'
    rw [List.get_eq_getElem, List.get_eq_getElem, hget, hget'] at hhalves
    exact hhalves.faces hd.filed.references (List.mem_of_getElem? hrid)
      (List.mem_of_getElem? hrid')
  · rw [isSome_dual_iff hc hr]
    constructor
    · rintro ⟨f, hf, w, hw⟩
      have hmem : rid ∈ places (pattern.toList.flatMap filings) f.owner (.double w) :=
        mem_places.2 ⟨f, hf, rfl, hw⟩
      exact ⟨f.owner, w, _, (doubles_eq_some_iff hcover).2 ⟨List.ne_nil_of_mem hmem, rfl⟩, hmem⟩
    · rintro ⟨a, b, l, hl, hrid⟩
      obtain ⟨-, rfl⟩ := (doubles_eq_some_iff hcover).1 hl
      obtain ⟨f, hf, -, hshape⟩ := mem_places.1 hrid
      exact ⟨f, hf, b, hshape⟩

theorem doubles_mirrored_parallel : ∃ c, classify parallelPattern = .ok c ∧
    c.codexMap.doubles ⟨"x"⟩ ⟨"y"⟩ = some [0, 3, 4] ∧
    c.codexMap.doubles ⟨"y"⟩ ⟨"x"⟩ = some [1, 2, 5] ∧ c.codexMap.Mirrored parallelPattern := by
  have hgroups : (classify parallelPattern).map (fun c =>
      (c.codexMap.doubles ⟨"x"⟩ ⟨"y"⟩, c.codexMap.doubles ⟨"y"⟩ ⟨"x"⟩)) =
        .ok (some [0, 3, 4], some [1, 2, 5]) := by
    decide +kernel
  obtain ⟨c, hc, hdoubles⟩ := map_eq_ok_iff.1 hgroups
  obtain ⟨hx, hy⟩ := Prod.mk.inj hdoubles
  exact ⟨c, hc, hx, hy, doubles_mirrored parallelPattern c hc⟩

end TriplePlan
