import TriplePlan.Proofs.Plan.Arrangement
import TriplePlan.Proofs.Plan.Partition
import Mathlib.Logic.Relation

/-! The dependencies of a variable are the earlier positions that it reaches by way of statements,
each step from a position to an earlier one of the same statement. The past has the first steps. -/
namespace TriplePlan

open Assignment

/-- Some statement has the variables of both positions, the second of them the earlier one. -/
def Plan.Needs (plan : Plan) (es : List (String × Nat × Statement)) (k l : Nat) : Prop :=
  l < k ∧ ∃ e ∈ es, ∃ x ∈ e.2.2.vars, ∃ y ∈ e.2.2.vars,
    plan.order[k]? = some x ∧ plan.order[l]? = some y

theorem Statement.mem_vars {s : Statement} {v : Var} : v ∈ s.vars ↔ ∃ p, s.get p = .var v := by
  rw [← vars_eq, List.mem_map]
  constructor
  · intro h
    obtain ⟨⟨p, w⟩, hp, rfl⟩ := h
    exact ⟨p, mem_varPositions.1 hp⟩
  · intro h
    obtain ⟨p, hp⟩ := h
    exact ⟨(p, v), mem_varPositions.2 hp, rfl⟩

section

variable {es : List (String × Nat × Statement)} {codexes : List Codex} {c : Codex} {x y : Var}

theorem places_double_ne_nil_iff (hclosed : ∀ e ∈ es, ¬ e.2.2.IsOpen) (hxy : x ≠ y) :
    places (es.flatMap filings) x (.double y) ≠ [] ↔
      ∃ e ∈ es, x ∈ e.2.2.vars ∧ y ∈ e.2.2.vars := by
  constructor
  · intro hne
    obtain ⟨rid, hrid⟩ := List.exists_mem_of_ne_nil _ hne
    obtain ⟨f, hf, rfl, hshape⟩ := mem_places.1 hrid
    obtain ⟨e, he, hfe⟩ := exists_statement hf
    have hvars := (files_of_mem hfe).vars_perm
    rw [hshape] at hvars
    exact ⟨e, he, hvars.mem_iff.2 List.mem_cons_self,
      hvars.mem_iff.2 (List.mem_cons_of_mem _ List.mem_cons_self)⟩
  · intro h
    obtain ⟨e, he, hx, hy⟩ := h
    obtain ⟨p, hp⟩ := Statement.mem_vars.1 hx
    obtain ⟨q, hq⟩ := Statement.mem_vars.1 hy
    obtain ⟨rid, hrid⟩ :=
      exists_place he ((mem_filings_iff (hclosed e he) hxy hp hq).2 (.inl rfl))
    exact List.ne_nil_of_mem (mem_places.2 ⟨_, hrid, rfl, rfl⟩)

theorem isSome_double_iff (hclosed : ∀ e ∈ es, ¬ e.2.2.IsOpen)
    (h : Covers (es.flatMap filings) codexes) (hc : c ∈ codexes) (hne : c.id ≠ y) :
    (c.double.get? y).isSome ↔ ∃ e ∈ es, c.id ∈ e.2.2.vars ∧ y ∈ e.2.2.vars := by
  rw [← places_double_ne_nil_iff hclosed hne, h.get?_double hc]
  by_cases hnil : places (es.flatMap filings) c.id (.double y) = [] <;> simp [hnil]

end

namespace Assignment

variable {before : List Assignment} {c : Codex} {a : Assignment} {j : Nat}

theorem Placed.mem_groups (h : Placed before c a) {y : Var} {l : Nat} :
    (y, l) ∈ a.past.groups ↔ positionOf before y = some l ∧ (c.double.get? y).isSome := by
  simp only [h.groups, List.mem_map, Prod.mk.injEq]
  constructor
  · intro hgroup
    obtain ⟨g, hg, rfl, rfl⟩ := hgroup
    obtain ⟨hposition, hrefs⟩ := mem_pastGroups_iff.1 hg
    exact ⟨hposition, Option.isSome_of_eq_some hrefs⟩
  · intro hgroup
    obtain ⟨refs, hrefs⟩ := Option.isSome_iff_exists.1 hgroup.2
    exact ⟨(y, l, refs), mem_pastGroups_iff.2 ⟨hgroup.1, hrefs⟩, rfl, rfl⟩

theorem Placed.pairwise_dependencies (h : Placed before c a) :
    a.dependencies.Pairwise (· < ·) := by
  rw [h.dependencies]
  exact List.pairwise_lt_range.filter _

theorem Placed.mem_dependencies (h : Placed before c a) : j ∈ a.dependencies ↔
    j < before.length ∧ ∃ g ∈ a.past.groups,
      j = g.2 ∨ ∃ b, before[g.2]? = some b ∧ j ∈ b.dependencies := by
  have hinner : ∀ l : Nat, j ∈ (before[l]?.map (·.dependencies)).getD [] ↔
      ∃ b, before[l]? = some b ∧ j ∈ b.dependencies := by
    intro l
    cases before[l]? <;> simp
  simp only [h.dependencies, h.groups, dependenciesOf, List.mem_filter, List.mem_range,
    List.contains_iff_mem, List.mem_flatMap, List.mem_cons, List.mem_map, hinner,
    exists_exists_and_eq_and]

end Assignment

section

variable {σ : Type} [Readable σ] {s : σ}

namespace Compiled

variable {es : List (String × Nat × Statement)} {codexes : List Codex} {refs : List Reference}
  {count : RefId → Nat} {plan : Plan} {a : Assignment} {i j : Nat}

theorem exists_group_iff (h : Compiled s es codexes refs count plan)
    (ha : plan.assignments[i]? = some a) :
    (∃ y, (y, j) ∈ a.past.groups) ↔ plan.Needs es i j := by
  obtain ⟨c, hc, hplaced⟩ := h.placement.get ha
  rw [List.nil_append] at hplaced
  have hid : plan.order[i]? = some c.id := by
    rw [Plan.order, List.getElem?_map, ha, Option.map_some, hplaced.id]
  have hdouble : ∀ y, j < i → plan.order[j]? = some y →
      ((c.double.get? y).isSome ↔ ∃ e ∈ es, c.id ∈ e.2.2.vars ∧ y ∈ e.2.2.vars) := by
    intro y hj hy
    refine isSome_double_iff h.closed h.covers (List.mem_of_getElem? hc) fun heq => ?_
    have hlt := (List.getElem?_eq_some_iff.1 hid).1
    exact hj.ne' ((List.getElem?_inj hlt h.order_nodup).1 (hid.trans (heq ▸ hy.symm)))
  constructor
  · intro hgroup
    obtain ⟨y, hgroup⟩ := hgroup
    obtain ⟨hposition, hsome⟩ := hplaced.mem_groups.1 hgroup
    obtain ⟨hj, hy⟩ := h.positionOf_take_iff.1 hposition
    obtain ⟨e, he, hx, hye⟩ := (hdouble y hj hy).1 hsome
    exact ⟨hj, e, he, c.id, hx, y, hye, hid, hy⟩
  · intro hneeds
    obtain ⟨hj, e, he, x, hx, y, hye, hidx, hy⟩ := hneeds
    rw [hid] at hidx
    cases hidx
    have hsome := (hdouble y hj hy).2 ⟨e, he, hx, hye⟩
    exact ⟨y, hplaced.mem_groups.2 ⟨h.positionOf_take_iff.2 ⟨hj, hy⟩, hsome⟩⟩

theorem lt_of_mem_dependencies (h : Compiled s es codexes refs count plan)
    (ha : plan.assignments[i]? = some a) (hj : j ∈ a.dependencies) : j < i := by
  obtain ⟨c, -, hplaced⟩ := h.placement.get ha
  have hlt := (hplaced.mem_dependencies.1 hj).1
  rw [List.nil_append, List.length_take] at hlt
  omega

/-- A variable depends on where its steps lead, and on what the variables there depend on. -/
theorem mem_dependencies_iff (h : Compiled s es codexes refs count plan)
    (ha : plan.assignments[i]? = some a) : j ∈ a.dependencies ↔
      ∃ l, plan.Needs es i l ∧
        (j = l ∨ ∃ b, plan.assignments[l]? = some b ∧ j ∈ b.dependencies) := by
  obtain ⟨c, -, hplaced⟩ := h.placement.get ha
  have hi : i < plan.assignments.length := (List.getElem?_eq_some_iff.1 ha).1
  have hearlier : ∀ l, l < i → (plan.assignments.take i)[l]? = plan.assignments[l]? :=
    fun l hl => by rw [List.getElem?_take, if_pos hl]
  rw [List.nil_append] at hplaced
  rw [hplaced.mem_dependencies, List.length_take_of_le hi.le]
  constructor
  · intro hdep
    obtain ⟨-, ⟨y, l⟩, hgroup, hj⟩ := hdep
    have hneeds := (h.exists_group_iff ha).1 ⟨y, hgroup⟩
    rw [hearlier l hneeds.1] at hj
    exact ⟨l, hneeds, hj⟩
  · intro hdep
    obtain ⟨l, hneeds, hj⟩ := hdep
    obtain ⟨y, hgroup⟩ := (h.exists_group_iff ha).2 hneeds
    refine ⟨?_, (y, l), hgroup, ?_⟩
    · obtain rfl | ⟨b, hb, hj⟩ := hj
      · exact hneeds.1
      · exact (h.lt_of_mem_dependencies hb hj).trans hneeds.1
    · rwa [hearlier l hneeds.1]

theorem mem_dependencies_iff_transGen (h : Compiled s es codexes refs count plan)
    (ha : plan.assignments[i]? = some a) :
    j ∈ a.dependencies ↔ Relation.TransGen (plan.Needs es) i j := by
  induction i using Nat.strong_induction_on generalizing a with
  | _ i ih =>
    rw [h.mem_dependencies_iff ha, Relation.TransGen.head'_iff]
    refine exists_congr fun l => and_congr_right fun hneeds => ?_
    have hlt : l < plan.assignments.length := by
      have hi := (List.getElem?_eq_some_iff.1 ha).1
      exact hneeds.1.trans hi
    have hb := List.getElem?_eq_getElem hlt
    rw [Relation.reflTransGen_iff_eq_or_transGen, ← ih l hneeds.1 hb, hb]
    simp

end Compiled

/-- On every store, the dependencies of a variable are the positions that its steps reach: all of
them earlier, those in its past among them, and with each its own. -/
theorem dependencies_exact (config : CompileConfig) (pattern : Dataset) (s : σ) (plan : Plan)
    (hplan : compile config pattern s = .ok plan) (i : Nat) (a : Assignment)
    (ha : plan.assignments[i]? = some a) :
    a.dependencies.Pairwise (· < ·) ∧
      (∀ j, j ∈ a.dependencies ↔ Relation.TransGen (plan.Needs pattern.toList) i j) ∧
      (∀ j ∈ a.dependencies, j < i) ∧ (∀ g ∈ a.past.groups, g.2 ∈ a.dependencies) ∧
      ∀ j ∈ a.dependencies, ∃ b, plan.assignments[j]? = some b ∧
        b.dependencies ⊆ a.dependencies := by
  obtain ⟨codexes, refs, count, h⟩ := exists_compiled hplan
  obtain ⟨c, -, hplaced⟩ := h.placement.get ha
  have hi : i < plan.assignments.length := (List.getElem?_eq_some_iff.1 ha).1
  have hreach : ∀ {k b}, plan.assignments[k]? = some b → ∀ j,
      j ∈ b.dependencies ↔ Relation.TransGen (plan.Needs pattern.toList) k j :=
    fun hb j => h.mem_dependencies_iff_transGen hb
  refine ⟨hplaced.pairwise_dependencies, hreach ha, fun j hj => h.lt_of_mem_dependencies ha hj,
    fun g hg => ?_, fun j hj => ?_⟩
  · exact (hreach ha _).2 (.single ((h.exists_group_iff ha).1 ⟨g.1, hg⟩))
  · have hb := List.getElem?_eq_getElem ((h.lt_of_mem_dependencies ha hj).trans hi)
    refine ⟨_, hb, fun k hk => ?_⟩
    exact (hreach ha k).2 (((hreach ha j).1 hj).trans ((hreach hb k).1 hk))

end

def diamondPattern : Dataset := .ofStatements
  [⟨.var ⟨"x"⟩, .node (.iri "p"), .var ⟨"y"⟩⟩, ⟨.var ⟨"x"⟩, .node (.iri "p"), .var ⟨"z"⟩⟩,
    ⟨.var ⟨"y"⟩, .node (.iri "p"), .var ⟨"w"⟩⟩, ⟨.var ⟨"z"⟩, .node (.iri "p"), .var ⟨"w"⟩⟩,
    ⟨.var ⟨"v"⟩, .node (.iri "p"), .node (.iri "a")⟩]

def loopDocument : Document := ⟨"d", .ofStatements
  [⟨.node (.iri "a"), .node (.iri "p"), .node (.iri "a")⟩]⟩

theorem dependencies_exact_diamond : ∃ plan a,
    compile {} diamondPattern (Store.ofDocuments [loopDocument]) = .ok plan ∧
      plan.order = [⟨"x"⟩, ⟨"y"⟩, ⟨"z"⟩, ⟨"w"⟩, ⟨"v"⟩] ∧ plan.assignments[3]? = some a ∧
      a.past.groups = [(⟨"y"⟩, 1), (⟨"z"⟩, 2)] ∧ a.dependencies = [0, 1, 2] ∧
      ∀ j, j ∈ [0, 1, 2] ↔ Relation.TransGen (plan.Needs diamondPattern.toList) 3 j := by
  have hrun : (compile {} diamondPattern (Store.ofDocuments [loopDocument])).map (fun plan =>
      (plan.order, plan.assignments[3]?.map fun a => (a.past.groups, a.dependencies))) =
        .ok ([⟨"x"⟩, ⟨"y"⟩, ⟨"z"⟩, ⟨"w"⟩, ⟨"v"⟩],
          some ([(⟨"y"⟩, 1), (⟨"z"⟩, 2)], [0, 1, 2])) := by
    decide +kernel
  obtain ⟨plan, hplan, hpair⟩ := map_eq_ok_iff.1 hrun
  obtain ⟨horder, hlast⟩ := Prod.mk.inj hpair
  obtain ⟨a, ha, hfields⟩ := Option.map_eq_some_iff.1 hlast
  obtain ⟨hgroups, hdeps⟩ := Prod.mk.inj hfields
  obtain ⟨-, hexact, -⟩ := dependencies_exact {} diamondPattern _ plan hplan 3 a ha
  rw [hdeps] at hexact
  exact ⟨plan, a, hplan, horder, ha, hgroups, hdeps, hexact⟩

end TriplePlan
