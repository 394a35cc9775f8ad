import TriplePlan.Proofs.Ascending
import TriplePlan.Proofs.Plan.Arrangement

/-! The value root of a variable in a plan: absent where the variable stands alone in no statement,
and otherwise exactly the nodes that turn all these statements into stored triples, in the order of
their encodings. -/
namespace TriplePlan

open Index

theorem Plan.assignment?_eq_some_iff {plan : Plan} (hn : plan.order.Nodup) {v : Var}
    {a : Assignment} : plan.assignment? v = some a ↔ a ∈ plan.assignments ∧ a.id = v := by
  have hposition : ∀ i, plan.position? v = some i ↔ plan.order[i]? = some v :=
    fun i => Assignment.positionOf_eq_some_iff hn
  rw [Plan.assignment?, Option.bind_eq_some_iff]
  constructor
  · intro h
    obtain ⟨i, hi, ha⟩ := h
    rw [hposition, Plan.order, List.getElem?_map, ha] at hi
    exact ⟨List.mem_of_getElem? ha, Option.some.inj hi⟩
  · intro h
    obtain ⟨i, hi⟩ := List.mem_iff_getElem?.1 h.1
    refine ⟨i, ?_, hi⟩
    rw [hposition, Plan.order, List.getElem?_map, hi, ← h.2]
    rfl

section

variable {docs docs' : List Document} {es : List (String × Nat × Statement)} {v : Var}
  {root root' : Option (List Node)} {l : List Node}

namespace IsRoot

theorem eq_none_iff (h : IsRoot docs es v root) : root = none ↔ ¬ HasOnly es v := by
  rw [← h.isSome, Option.not_isSome_iff_eq_none]

theorem nodup (h : IsRoot docs es v (some l)) : l.Nodup :=
  (nodup_of_ascending (h.ascending l rfl)).of_map

theorem ne_nil (h : IsRoot docs es v (some l)) {requireRoot : Bool}
    (hroot : ¬ Rootless docs es requireRoot v) : l ≠ [] := by
  rintro rfl
  refine hroot (.inl ⟨h.isSome.1 rfl, fun x hx => ?_⟩)
  exact List.not_mem_nil ((h.mem [] rfl x).2 hx)

/-- The stored triples determine the root, whatever they were stored for. -/
theorem unique (hsame : ∀ t, Indexed docs t ↔ Indexed docs' t) (h : IsRoot docs es v root)
    (h' : IsRoot docs' es v root') : root = root' := by
  have hsome : root.isSome ↔ root'.isSome := h.isSome.trans h'.isSome.symm
  cases root with
  | none => exact (Option.not_isSome_iff_eq_none.1 (mt hsome.2 nofun)).symm
  | some l =>
    obtain ⟨l', rfl⟩ := Option.isSome_iff_exists.1 (hsome.1 rfl)
    have hinj : Function.Injective Key.encodeNode := fun _ _ => Key.encodeNode_injective
    refine congrArg some (hinj.list_map ?_)
    refine eq_of_ascending (h.ascending l rfl) (h'.ascending l' rfl) fun bytes => ?_
    have hmem : ∀ x, x ∈ l ↔ x ∈ l' := by
      intro x
      simp only [h.mem l rfl, h'.mem l' rfl, Admits, hsame]
    simp only [List.mem_map, hmem]

end IsRoot

end

/-- Each variable of a plan has its root, and one that is not empty. -/
theorem roots_of_compile {docs : List Document} {config : CompileConfig} {pattern : Dataset}
    {plan : Plan} (h : WordSized docs)
    (hplan : compile config pattern (Store.ofDocuments docs) = .ok plan) :
    (∀ a ∈ plan.assignments, IsRoot docs pattern.toList a.id a.valueRoot) ∧
      ∀ v ∈ pattern.toList.flatMap (·.2.2.vars),
        ¬ Rootless docs pattern.toList config.requireValueRoot v := by
  have hcases := compile_cases h config pattern
  rw [hplan] at hcases
  cases hcases with
  | planned hclosed hwithin hsupport hroots hplanned =>
    refine ⟨fun a ha => ?_, hroots⟩
    obtain ⟨i, hi⟩ := List.mem_iff_getElem?.1 ha
    obtain ⟨c, -, hresolves⟩ := hplanned.built.exists_codex hi
    rw [hresolves.id]
    exact hresolves.root

/-- Every variable of the pattern has an assignment, whose root is exact. -/
theorem valueRoot_exact (docs : List Document) (h : WordSized docs) (config : CompileConfig)
    (pattern : Dataset) (plan : Plan)
    (hplan : compile config pattern (Store.ofDocuments docs) = .ok plan) (v : Var)
    (hv : v ∈ pattern.toList.flatMap (·.2.2.vars)) :
    ∃ a, plan.assignment? v = some a ∧ (a.valueRoot = none ↔ ¬ HasOnly pattern.toList v) ∧
      ∀ root, a.valueRoot = some root → root ≠ [] ∧ root.Nodup ∧
        (root.map Key.encodeNode).Pairwise (fun a b => compare a b = .lt) ∧
        ∀ x, x ∈ root ↔ Admits docs pattern.toList v x := by
  obtain ⟨codexes, refs, count, hcompiled⟩ := exists_compiled hplan
  obtain ⟨hroots, hless⟩ := roots_of_compile h hplan
  obtain ⟨a, ha, rfl⟩ := List.mem_map.1 (hcompiled.mem_order.2 hv)
  have hroot := hroots a ha
  refine ⟨a, (Plan.assignment?_eq_some_iff hcompiled.order_nodup).2 ⟨ha, rfl⟩,
    hroot.eq_none_iff, fun root hsome => ?_⟩
  rw [hsome] at hroot
  exact ⟨hroot.ne_nil (hless _ hv), hroot.nodup, hroot.ascending root rfl, hroot.mem root rfl⟩

def sharedPattern : Dataset := .ofStatements
  [⟨.var ⟨"x"⟩, .node (.iri "p"), .node (.iri "o")⟩,
    ⟨.var ⟨"x"⟩, .node (.iri "q"), .node (.iri "o")⟩,
    ⟨.var ⟨"x"⟩, .node (.iri "p"), .var ⟨"y"⟩⟩]

def overlapDocument : Document := ⟨"d", .ofStatements
  [⟨.node (.iri "d"), .node (.iri "p"), .node (.iri "o")⟩,
    ⟨.node (.iri "a"), .node (.iri "p"), .node (.iri "o")⟩,
    ⟨.node (.iri "b"), .node (.iri "p"), .node (.iri "o")⟩,
    ⟨.node (.iri "b"), .node (.iri "q"), .node (.iri "o")⟩,
    ⟨.node (.iri "d"), .node (.iri "q"), .node (.iri "o")⟩,
    ⟨.node (.iri "c"), .node (.iri "q"), .node (.iri "o")⟩]⟩

theorem valueRoot_exact_overlap : WordSized [overlapDocument] ∧
    ∃ plan a b, compile {} sharedPattern (Store.ofDocuments [overlapDocument]) = .ok plan ∧
      plan.assignment? ⟨"x"⟩ = some a ∧ a.valueRoot = some [.iri "b", .iri "d"] ∧
      (∀ x, x ∈ [.iri "b", .iri "d"] ↔ Admits [overlapDocument] sharedPattern.toList ⟨"x"⟩ x) ∧
      plan.assignment? ⟨"y"⟩ = some b ∧ b.valueRoot = none ∧
      ¬ HasOnly sharedPattern.toList ⟨"y"⟩ := by
  have hwords : WordSized [overlapDocument] :=
    wordSized_of_size (by decide) (by decide) (by decide)
  have hroots : (compile {} sharedPattern (Store.ofDocuments [overlapDocument])).map (fun plan =>
      ((plan.assignment? ⟨"x"⟩).map (·.valueRoot), (plan.assignment? ⟨"y"⟩).map (·.valueRoot))) =
        .ok (some (some [.iri "b", .iri "d"]), some none) := by
    decide +kernel
  have hvars : (⟨"x"⟩ : Var) ∈ sharedPattern.toList.flatMap (·.2.2.vars) ∧
      (⟨"y"⟩ : Var) ∈ sharedPattern.toList.flatMap (·.2.2.vars) := by
    decide
  obtain ⟨plan, hplan, hpair⟩ := map_eq_ok_iff.1 hroots
  obtain ⟨hx, hy⟩ := Prod.mk.inj hpair
  obtain ⟨a, ha, -, hexact⟩ := valueRoot_exact _ hwords {} _ plan hplan ⟨"x"⟩ hvars.1
  obtain ⟨b, hb, hnone, -⟩ := valueRoot_exact _ hwords {} _ plan hplan ⟨"y"⟩ hvars.2
  rw [ha] at hx
  rw [hb] at hy
  have hxroot := Option.some.inj hx
  have hyroot := Option.some.inj hy
  exact ⟨hwords, plan, a, b, hplan, ha, hxroot, (hexact _ hxroot).2.2.2, hb, hyroot,
    hnone.1 hyroot⟩

end TriplePlan
