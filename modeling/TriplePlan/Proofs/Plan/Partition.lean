import TriplePlan.Proofs.Plan.Calls

/-! Classification loses nothing. Every statement comes back from each of its references and the
variable that has it, and the references are those of all statements, one for each variable. -/
namespace TriplePlan

open Classified CodexMap

namespace Reference

/-- What stands at a position of the statement, if the reference belongs to `owner`: one of the two
terms at the key positions, the second one beside a repeated variable, and otherwise the owner. -/
def term? (r : Reference) (owner : Var) (p : Position) : Option Term :=
  if r.permutation.keyPositions.map (·.1) = some p then r.knownA
  else if r.permutation.keyPositions.map (·.2) = some p ∨ r.permutation.constantPosition = some p
  then r.knownB
  else some (.var owner)

def statement? (r : Reference) (owner : Var) : Option Statement := do
  return ⟨← r.term? owner .subject, ← r.term? owner .predicate, ← r.term? owner .object⟩

end Reference

def Filing.recovered (f : Filing) : Option (Var × String × Nat × Statement) :=
  (f.reference.statement? f.owner).map fun s => (f.owner, f.reference.graph, f.reference.index, s)

def Shape.vars (v : Var) : Shape → List Var
  | .constraint => [v, v]
  | .single => [v]
  | .double w => [v, w]

section

variable {e : String × Nat × Statement} {f : Filing}

theorem Files.statement?_eq (h : Files e f) : f.reference.statement? f.owner = some e.2.2 := by
  cases h with
  | single g i u m n v => cases u <;> rfl
  | constraint g i q v c => cases q <;> rfl
  | next g i u c hne => cases u <;> rfl
  | last g i u c hne => cases u <;> rfl

theorem Files.recovered_eq (h : Files e f) : f.recovered = some (f.owner, e) := by
  obtain ⟨hgraph, hindex⟩ := h.origin
  rw [Filing.recovered, h.statement?_eq, hgraph, hindex, Option.map_some]

theorem vars_ofRotation (u : Position) (a b c : Term) :
    (Statement.vars (.ofRotation u a b c)).Perm ([c, a, b].filterMap Term.var?) := by
  refine List.Perm.filterMap _ ?_
  cases u with
  | subject => exact .refl _
  | predicate => exact (List.Perm.swap ..).trans (.cons _ (.swap ..))
  | object => exact (List.Perm.cons _ (.swap ..)).trans (.swap ..)

theorem Files.vars_perm (h : Files e f) : e.2.2.vars.Perm (f.shape.vars f.owner) := by
  cases h <;> exact vars_ofRotation _ _ _ _

theorem between_ne_none {p q : Position} {a : Var} (hp : varPositions e.2.2 = [(p, a), (q, a)]) :
    Permutation.between p q ≠ none := by
  intro hnone
  have hfilings : filings e = [] := by simp [filings, hp, hnone]
  obtain ⟨t, ht⟩ | hopen := ground_or_open_of_filings hfilings
  · rw [ht, varPositions_ground] at hp
    cases hp
  · rw [isOpen_iff, hp] at hopen
    exact absurd hopen (by simp)

theorem owners_filings (h : ¬ e.2.2.IsOpen) :
    (filings e).map (·.owner) = e.2.2.vars.eraseDups := by
  rw [isOpen_iff] at h
  rw [← vars_eq]
  match hp : varPositions e.2.2 with
  | [] => simp [filings, hp]
  | [(u, v)] => simp [filings, hp, List.eraseDups_cons]
  | [(i, a), (j, b)] =>
    by_cases hab : a = b
    · subst hab
      obtain ⟨p, hbetween⟩ := Option.ne_none_iff_exists'.1 (between_ne_none hp)
      simp [filings, hp, hbetween, List.eraseDups_cons]
    · simp [filings, hp, hab, Ne.symm hab, List.eraseDups_cons]
  | x :: y :: z :: r =>
    rw [hp] at h
    exact absurd (by simp) h

end

theorem eraseDups_owners {es : List (String × Nat × Statement)} (h : ∀ e ∈ es, ¬ e.2.2.IsOpen) :
    ((es.flatMap filings).map (·.owner)).eraseDups = (es.flatMap (·.2.2.vars)).eraseDups := by
  have howners : es.flatMap (fun e => (filings e).map (·.owner)) =
      es.flatMap fun e => e.2.2.vars.eraseDups :=
    List.flatMap_congr fun e he => owners_filings (h e he)
  rw [List.map_flatMap, howners, eraseDups_flatMap]

def CodexMap.owner? (m : CodexMap) (rid : RefId) : Option Var :=
  (m.codexes.find? fun c => rid ∈ c.refs).map (·.id)

def CodexMap.recovered (m : CodexMap) : List (Option (Var × String × Nat × Statement)) :=
  m.references.zipIdx.map fun x => do
    let v ← m.owner? x.2
    let s ← x.1.statement? v
    return (v, x.1.graph, x.1.index, s)

/-- The open statement that comes first by graph name and then index. -/
structure Dataset.IsFirstOpen (d : Dataset) (e : String × Nat × Statement) : Prop where
  mem : e ∈ d.toList
  isOpen : e.2.2.IsOpen
  first : ∀ x ∈ d.toList, Dataset.Before x e → ¬ x.2.2.IsOpen

/-- The classified pattern has every statement once: as a constant if it is ground, and otherwise
under each of its variables, in the group that its variables call for. -/
structure Classified.Partitions (pattern : Dataset) (c : Classified) : Prop where
  constants : c.constants = (pattern.toList.filter (·.2.2.isGround)).map fun e =>
    .plain e.1 e.2.1 .ground none none
  ids : c.codexMap.ids = (pattern.toList.flatMap (·.2.2.vars)).eraseDups
  codex : ∀ v, (c.codexMap.codex? v).isSome ↔ v ∈ c.codexMap.ids
  refs : (c.codexMap.codexes.flatMap Codex.refs).Perm (List.range c.codexMap.references.length)
  recovered : c.codexMap.recovered =
    (pattern.toList.flatMap fun e => e.2.2.vars.eraseDups.map fun v => some (v, e))
  group : ∀ x ∈ c.codexMap.codexes, ∀ shape, ∀ rid ∈ x.group shape,
    ∃ r, c.codexMap.references[rid]? = some r ∧ ∃ e ∈ pattern.toList, r.graph = e.1 ∧
      r.index = e.2.1 ∧ r.statement? x.id = some e.2.2 ∧ e.2.2.vars.Perm (shape.vars x.id)
  dual : ∀ x ∈ c.codexMap.codexes, ∀ w, ∀ rid ∈ x.group (.double w),
    ∃ y ∈ c.codexMap.codexes, y.id = w ∧ w ≠ x.id ∧ ∃ rid' ∈ y.group (.double x.id),
      ∃ r r', c.codexMap.references[rid]? = some r ∧ c.codexMap.references[rid']? = some r' ∧
        r.dual = some rid' ∧ r'.dual = some rid ∧ r.graph = r'.graph ∧ r.index = r'.index

section

variable {es : List (String × Nat × Statement)} {c : Classified}

theorem owner?_eq (h : Describes es c) {rid : RefId} {f : Filing}
    (hf : (es.flatMap filings)[rid]? = some f) : c.codexMap.owner? rid = some f.owner := by
  have hcover := h.filed.codexes.covers
  have hunique : ∀ x ∈ c.codexMap.codexes, rid ∈ x.refs → x.id = f.owner := by
    intro x hx hrid
    obtain ⟨f', hf', hid⟩ := (hcover.mem_refs hx).1 hrid
    rw [hf] at hf'
    cases hf'
    exact hid.symm
  have hid : f.owner ∈ c.codexMap.codexes.map (·.id) :=
    (hcover.mem_ids _).2 (List.mem_map_of_mem (List.mem_of_getElem? hf))
  obtain ⟨x, hx, hxf⟩ := List.mem_map.1 hid
  have hrid : rid ∈ x.refs := (hcover.mem_refs hx).2 ⟨f, hf, hxf.symm⟩
  have hsome : (c.codexMap.codexes.find? fun c => rid ∈ c.refs).isSome :=
    List.find?_isSome.2 ⟨x, hx, by simpa using hrid⟩
  obtain ⟨y, hy⟩ := Option.isSome_iff_exists.1 hsome
  have hyrid : rid ∈ y.refs := by simpa using List.find?_some hy
  rw [owner?, hy, Option.map_some, hunique y (List.mem_of_find?_eq_some hy) hyrid]

theorem statement?_of_core {r : Reference} {e : String × Nat × Statement} {f : Filing}
    (hcore : r.core = f.reference) (hf : Files e f) :
    r.graph = e.1 ∧ r.index = e.2.1 ∧ r.statement? f.owner = some e.2.2 := by
  have hsame : r.statement? f.owner = r.core.statement? f.owner := rfl
  obtain ⟨hgraph, hindex⟩ := hf.origin
  rw [← hcore] at hgraph hindex
  rw [hsame, hcore, hf.statement?_eq]
  exact ⟨hgraph, hindex, rfl⟩

theorem recovered_eq (h : Describes es c) (hclosed : ∀ e ∈ es, ¬ e.2.2.IsOpen) :
    c.codexMap.recovered = es.flatMap fun e => e.2.2.vars.eraseDups.map fun v => some (v, e) := by
  have hfilings : es.flatMap (fun e => e.2.2.vars.eraseDups.map fun v => some (v, e)) =
      (es.flatMap filings).map Filing.recovered := by
    rw [List.map_flatMap]
    refine List.flatMap_congr fun e he => ?_
    rw [← owners_filings (hclosed e he), List.map_map]
    exact List.map_congr_left fun f hf => (files_of_mem hf).recovered_eq.symm
  have hrefs := h.filed.references
  rw [hfilings, recovered]
  refine List.ext_getElem (by simp [hrefs.length_eq]) fun rid hlt hlt' => ?_
  rw [List.length_map] at hlt'
  have hf := List.getElem?_eq_getElem hlt'
  obtain ⟨e, -, hfe⟩ := List.mem_flatMap.1 (List.mem_of_getElem? hf)
  obtain ⟨r, hr, hcore⟩ := hrefs.get hf
  obtain ⟨hgraph, hindex, hstatement⟩ := statement?_of_core hcore (files_of_mem hfe)
  obtain ⟨_, hget⟩ := List.getElem?_eq_some_iff.1 hr
  simp only [List.getElem_map, List.getElem_zipIdx, Nat.zero_add, hget,
    (files_of_mem hfe).recovered_eq, owner?_eq h hf, Option.bind_eq_bind, Option.bind_some,
    hstatement, hgraph, hindex]
  rfl

/-- Every reference in a group is filed there for a statement with the variables of the group. -/
theorem group_recovers (h : Describes es c) {x : Codex} (hx : x ∈ c.codexMap.codexes)
    {shape : Shape} {rid : RefId} (hrid : rid ∈ x.group shape) :
    ∃ r, c.codexMap.references[rid]? = some r ∧ ∃ e ∈ es, r.graph = e.1 ∧ r.index = e.2.1 ∧
      r.statement? x.id = some e.2.2 ∧ e.2.2.vars.Perm (shape.vars x.id) := by
  obtain ⟨f, hf, howner, hshape⟩ := (h.filed.codexes.covers.mem_group hx shape).1 hrid
  obtain ⟨e, he, hfe⟩ := exists_statement hf
  obtain ⟨r, hr, hcore⟩ := h.filed.references.get hf
  have hfiles := files_of_mem hfe
  obtain ⟨hgraph, hindex, hstatement⟩ := statement?_of_core hcore hfiles
  rw [← howner, ← hshape]
  exact ⟨r, hr, e, he, hgraph, hindex, hstatement, hfiles.vars_perm⟩

/-- The other reference of the statement is filed under the other variable. -/
theorem double_linked (h : Describes es c) (ha : Aligned es c.codexMap.references) {x : Codex}
    (hx : x ∈ c.codexMap.codexes) {w : Var} {rid : RefId} (hrid : rid ∈ x.group (.double w)) :
    ∃ y ∈ c.codexMap.codexes, y.id = w ∧ w ≠ x.id ∧ ∃ rid' ∈ y.group (.double x.id),
      ∃ r r', c.codexMap.references[rid]? = some r ∧ c.codexMap.references[rid']? = some r' ∧
        r.dual = some rid' ∧ r'.dual = some rid ∧ r.graph = r'.graph ∧ r.index = r'.index := by
  have hcover := h.filed.codexes.covers
  obtain ⟨f, hf, howner, hshape⟩ := (hcover.mem_group hx _).1 hrid
  obtain ⟨e, -, hfe⟩ := exists_statement hf
  have hne : x.id ≠ w := by
    rw [← howner]
    exact (files_of_mem hfe).ne_of_double hshape
  rw [hcover.group x hx] at hrid
  obtain ⟨offset, hoffset⟩ := List.mem_iff_getElem?.1 hrid
  obtain ⟨rid', hrid', e', -, g, hg, g', hg', hplace, hplace', hlink, hlink'⟩ :=
    ha.get hne hoffset
  have hmem := List.mem_of_getElem? hrid'
  obtain ⟨k, hk, hkowner, -⟩ := mem_places.1 hmem
  have hid : w ∈ c.codexMap.codexes.map (·.id) := by
    rw [hcover.mem_ids, ← hkowner]
    exact List.mem_map_of_mem (List.mem_of_getElem? hk)
  obtain ⟨y, hy, rfl⟩ := List.mem_map.1 hid
  obtain ⟨r, hr, hdual⟩ := Option.bind_eq_some_iff.1 hlink
  obtain ⟨r', hr', hdual'⟩ := Option.bind_eq_some_iff.1 hlink'
  have hcores := h.filed.references
  obtain ⟨hgraph, hindex, -⟩ := statement?_of_core (hcores.core_eq hplace hr) (files_of_mem hg)
  obtain ⟨hgraph', hindex', -⟩ := statement?_of_core (hcores.core_eq hplace' hr') (files_of_mem hg')
  refine ⟨y, hy, rfl, hne.symm, rid', ?_, r, r', hr, hr', hdual, hdual', ?_, ?_⟩
  · rw [hcover.group y hy]
    exact hmem
  · rw [hgraph, hgraph']
  · rw [hindex, hindex']

theorem partitions_of_classify {pattern : Dataset} (h : classify pattern = .ok c) :
    Partitions pattern c := by
  obtain ⟨hclosed, hd, ha⟩ := classify_ok h
  have hids : c.codexMap.ids = (pattern.toList.flatMap (·.2.2.vars)).eraseDups :=
    (map_id_codexes _).symm.trans (hd.filed.codexes.ids.trans (eraseDups_owners hclosed))
  have hperm := hd.filed.codexes.covers.all_refs_perm
  rw [← hd.filed.length_references] at hperm
  refine ⟨hd.constants, hids, fun v => ?_, hperm, recovered_eq hd hclosed,
    fun x hx shape rid hrid => group_recovers hd hx hrid,
    fun x hx w rid hrid => double_linked hd ha hx hrid⟩
  rw [codex?, Option.isSome_map]
  exact (c.codexMap.mem_slice v).symm

end

theorem isFirstOpen_of_split {pattern : Dataset} {before after : List (String × Nat × Statement)}
    {e : String × Nat × Statement} (hsplit : pattern.toList = before ++ e :: after)
    (hbefore : ∀ x ∈ before, ¬ x.2.2.IsOpen) (hopen : e.2.2.IsOpen) : pattern.IsFirstOpen e := by
  have hsorted := pattern.pairwise_toList
  refine ⟨by simp [hsplit], hopen, fun x hx hlt => ?_⟩
  rw [hsplit] at hx hsorted
  obtain ⟨-, htail, -⟩ := List.pairwise_append.1 hsorted
  have hlater := (List.pairwise_cons.1 htail).1
  cases List.mem_append.1 hx with
  | inl hx => exact hbefore x hx
  | inr hx => cases hx with
    | head => exact absurd hlt hlt.asymm
    | tail _ hx => exact absurd hlt (hlater x hx).asymm

/-- A pattern with an open statement is refused, and the first one named. Any other pattern is
classified, and what results has all of it. -/
theorem classify_partition (pattern : Dataset) :
    pattern.toList.Pairwise Dataset.Before ∧
      ((∃ e, pattern.IsFirstOpen e ∧ classify pattern = .error (.unrepresentable e.1 e.2.1)) ∨
        ((∀ e ∈ pattern.toList, ¬ e.2.2.IsOpen) ∧
          ∃ c, classify pattern = .ok c ∧ Partitions pattern c)) := by
  refine ⟨pattern.pairwise_toList, ?_⟩
  obtain ⟨c, hc, hclosed, -⟩ | ⟨before, e, after, hsplit, hbefore, hopen, herr⟩ :=
    classify_eq pattern
  · exact .inr ⟨hclosed, c, hc, partitions_of_classify hc⟩
  · exact .inl ⟨e, isFirstOpen_of_split hsplit hbefore hopen, herr⟩

end TriplePlan
