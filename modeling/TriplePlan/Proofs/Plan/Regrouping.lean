import Mathlib.Data.Set.Card
import TriplePlan.Proofs.Plan.Decision
import TriplePlan.Proofs.Plan.Growth
import TriplePlan.Proofs.Plan.Order
import TriplePlan.Proofs.Plan.Sums

/-! Patterns with the same statements, in whatever graphs and order. They are refused for reasons of
the same kind or have plans with the same figures for every variable, and only variables with equal
counts may stand in another order. -/
namespace TriplePlan

open Index

namespace Dataset

theorem exists_mem_toList_iff {d : Dataset} {name : String} {s : Statement} :
    (∃ i, (name, i, s) ∈ d.toList) ↔ s ∈ d.statements name := by
  simp only [mem_toList]
  exact List.mem_iff_getElem?.symm

theorem count_toList (d : Dataset) (s : Statement) :
    (d.toList.map (·.2.2)).count s = {name | s ∈ d.statements name}.ncard := by
  have hmem : ∀ e ∈ d.toList.filter (·.2.2 = s), (e.1, e.2.1, s) ∈ d.toList ∧ e.2.2 = s := by
    intro e he
    obtain ⟨hin, hs⟩ := List.mem_filter.1 he
    obtain rfl := of_decide_eq_true hs
    exact ⟨hin, rfl⟩
  have hnames : ((d.toList.filter (·.2.2 = s)).map (·.1)).Nodup := by
    refine List.Nodup.map_on ?_ (d.nodup_toList.filter _)
    intro e he e' he' hname
    obtain ⟨hin, hs⟩ := hmem e he
    obtain ⟨hin', hs'⟩ := hmem e' he'
    rw [hname, mem_toList] at hin
    rw [mem_toList] at hin'
    have hlt := (List.getElem?_eq_some_iff.1 hin).1
    have hindex := (List.getElem?_inj hlt (d.nodup_statements e'.1)).1 (hin.trans hin'.symm)
    exact Prod.ext hname (Prod.ext hindex (hs.trans hs'.symm))
  have hset : {name | s ∈ d.statements name} =
      ↑((d.toList.filter (·.2.2 = s)).map (·.1)).toFinset := by
    ext name
    simp [← exists_mem_toList_iff]
  rw [hset, Set.ncard_coe_finset, List.toFinset_card_of_nodup hnames, List.length_map, List.count,
    List.countP_map, List.countP_eq_length_filter]
  rfl

/-- Patterns whose statements are in as many graphs have the same list of them, up to its order. -/
theorem statements_perm {d d' : Dataset} (h : ∀ s,
    {name | s ∈ d.statements name}.ncard = {name | s ∈ d'.statements name}.ncard) :
    (d.toList.map (·.2.2)).Perm (d'.toList.map (·.2.2)) := by
  rw [List.perm_iff_count]
  intro s
  rw [count_toList, count_toList, h]

end Dataset

section

variable {docs : List Document} {es es' : List (String × Nat × Statement)} {v : Var}
  (h : (es.map (·.2.2)).Perm (es'.map (·.2.2)))

include h

theorem forall_statement_congr {P : Statement → Prop} :
    (∀ e ∈ es, P e.2.2) ↔ ∀ e ∈ es', P e.2.2 := by
  rw [← List.forall_mem_map (f := fun e : String × Nat × Statement => e.2.2),
    ← List.forall_mem_map (f := fun e : String × Nat × Statement => e.2.2)]
  simp only [h.mem_iff]

theorem exists_statement_congr {P : Statement → Prop} :
    (∃ e ∈ es, P e.2.2) ↔ ∃ e ∈ es', P e.2.2 := by
  have hnone := forall_statement_congr h (P := fun s => ¬ P s)
  simpa using not_congr hnone

theorem hasOnly_congr : HasOnly es v ↔ HasOnly es' v :=
  exists_statement_congr h (P := fun s => ∃ u, s.IsOnly u v)

theorem admits_congr {x : Node} : Admits docs es v x ↔ Admits docs es' v x :=
  forall_statement_congr h
    (P := fun s => (∃ u, s.IsOnly u v) → Indexed docs (s.under fun _ => x))

theorem rootless_congr {requireRoot : Bool} :
    Rootless docs es requireRoot v ↔ Rootless docs es' requireRoot v := by
  simp only [Rootless, hasOnly_congr h, admits_congr h]

theorem supported_congr : Supported docs es ↔ Supported docs es' := by
  rw [supported_iff, supported_iff]
  exact forall_statement_congr h (P := fun s => ¬ Unmatched docs s)

theorem mem_vars_congr : v ∈ es.flatMap (·.2.2.vars) ↔ v ∈ es'.flatMap (·.2.2.vars) := by
  rw [List.mem_flatMap, List.mem_flatMap]
  exact exists_statement_congr h (P := fun s => v ∈ s.vars)

theorem variableCount_congr : variableCount es = variableCount es' := by
  rw [variableCount, variableCount]
  congr 1
  ext v
  rw [List.mem_toFinset, List.mem_toFinset, mem_vars_congr h]

end

/-- The variants of errors, without what an error names. -/
inductive PlanError.Variant where
  | unrepresentable | zeroCandidates | emptyValueRoot | tooManyVariables | unprobed | alreadyProbed
  | store
deriving DecidableEq

def PlanError.variant : PlanError → Variant
  | .unrepresentable .. => .unrepresentable
  | .zeroCandidates .. => .zeroCandidates
  | .emptyValueRoot .. => .emptyValueRoot
  | .tooManyVariables .. => .tooManyVariables
  | .unprobed => .unprobed
  | .alreadyProbed => .alreadyProbed
  | .store .. => .store

section

variable {docs : List Document} {config : CompileConfig} {es es' : List (String × Nat × Statement)}

open Classical in
noncomputable def firstReason (unrepresentable tooMany unsupported rootless : Prop) :
    Option PlanError.Variant :=
  if unrepresentable then some .unrepresentable
  else if tooMany then some .tooManyVariables
  else if unsupported then some .zeroCandidates
  else if rootless then some .emptyValueRoot
  else none

/-- Why a pattern with these statements is refused, if it is. -/
noncomputable def refusal (docs : List Document) (config : CompileConfig)
    (es : List (String × Nat × Statement)) : Option PlanError.Variant :=
  firstReason (∃ e ∈ es, e.2.2.IsOpen)
    (∃ max, config.maxVariables = some max ∧ max < variableCount es) (¬ Supported docs es)
    (∃ v ∈ es.flatMap (·.2.2.vars), Rootless docs es config.requireValueRoot v)

theorem refusal_congr (h : (es.map (·.2.2)).Perm (es'.map (·.2.2))) :
    refusal docs config es = refusal docs config es' := by
  have hopen := exists_statement_congr h (P := Statement.IsOpen)
  have hless : (∃ v ∈ es.flatMap (·.2.2.vars), Rootless docs es config.requireValueRoot v) ↔
      ∃ v ∈ es'.flatMap (·.2.2.vars), Rootless docs es' config.requireValueRoot v := by
    simp only [mem_vars_congr h, rootless_congr h]
  rw [refusal, refusal, propext hopen, variableCount_congr h, propext (supported_congr h),
    propext hless]

theorem refusal_of_closed (hclosed : ∀ e ∈ es, ¬ e.2.2.IsOpen)
    (hwithin : ∀ max, config.maxVariables = some max → variableCount es ≤ max) :
    refusal docs config es = firstReason False False (¬ Supported docs es)
      (∃ v ∈ es.flatMap (·.2.2.vars), Rootless docs es config.requireValueRoot v) := by
  have hopen : ¬ ∃ e ∈ es, e.2.2.IsOpen := by simpa using hclosed
  have hmax : ¬ ∃ max, config.maxVariables = some max ∧ max < variableCount es := by
    simpa using hwithin
  rw [refusal, eq_false hopen, eq_false hmax]

theorem Outcome.refusal_error {e : PlanError} (h : Outcome docs config es (.error e)) :
    refusal docs config es = some e.variant := by
  cases h with
  | unrepresentable he hopen => exact if_pos ⟨_, he, hopen⟩
  | tooManyVariables hclosed hmax hlt =>
    have hopen : ¬ ∃ e ∈ es, e.2.2.IsOpen := by simpa using hclosed
    have hover : ∃ max, config.maxVariables = some max ∧ max < variableCount es := ⟨_, hmax, hlt⟩
    rw [refusal, eq_false hopen, eq_true hover]
    simp [firstReason, PlanError.variant]
  | zeroCandidates hclosed hwithin he hf hs hnone =>
    have hunsupported : ¬ Supported docs es := fun hall => hnone (hall _ he _ hf hs)
    rw [refusal_of_closed hclosed hwithin, eq_true hunsupported]
    simp [firstReason, PlanError.variant]
  | emptyValueRoot hclosed hwithin hsupport hv hless =>
    have hsome : ∃ v ∈ es.flatMap (·.2.2.vars), Rootless docs es config.requireValueRoot v :=
      ⟨_, hv, hless⟩
    rw [refusal_of_closed hclosed hwithin, eq_true hsupport, eq_true hsome]
    simp [firstReason, PlanError.variant]

theorem Outcome.refusal_ok {plan : Plan} (h : Outcome docs config es (.ok plan)) :
    refusal docs config es = none := by
  cases h with
  | planned hclosed hwithin hsupport hroots =>
    have hless : ¬ ∃ v ∈ es.flatMap (·.2.2.vars), Rootless docs es config.requireValueRoot v := by
      simpa using hroots
    rw [refusal_of_closed hclosed hwithin, eq_true hsupport, eq_false hless]
    simp [firstReason]

end

def Filing.unplaced (f : Filing) : Filing :=
  { f with reference := { f.reference with graph := "", index := 0 } }

/-- What a statement is filed as depends on its place only where the place is named. -/
theorem filings_unplaced (e : String × Nat × Statement) :
    (filings e).map Filing.unplaced = filings ("", 0, e.2.2) := by
  obtain ⟨g, i, s⟩ := e
  rw [filings, filings]
  dsimp only
  -- The same branch is taken on both sides, since only the statement decides.
  split
  · rfl
  · split
    · split <;> rfl
    · rfl
  · rfl

theorem filed_perm {es es' : List (String × Nat × Statement)}
    (h : (es.map (·.2.2)).Perm (es'.map (·.2.2))) :
    ((es.flatMap filings).map Filing.unplaced).Perm
      ((es'.flatMap filings).map Filing.unplaced) := by
  have hstatements : ∀ es : List (String × Nat × Statement),
      (es.flatMap filings).map Filing.unplaced =
        (es.map (·.2.2)).flatMap fun s => filings ("", 0, s) := by
    intro es
    simp only [List.map_flatMap, List.flatMap_map, filings_unplaced]
  rw [hstatements, hstatements]
  exact h.flatMap_right _

def standing (filed : List Filing) (p : Filing → Bool) : List RefId :=
  (filed.zipIdx.filter fun y => p y.1).map (·.2)

section

variable {filed : List Filing} {p : Filing → Bool}

theorem mem_standing {rid : RefId} :
    rid ∈ standing filed p ↔ ∃ f, filed[rid]? = some f ∧ p f := by
  simp [standing, List.mem_zipIdx_iff_getElem?]

theorem nodup_standing : (standing filed p).Nodup := by
  have hsub : (standing filed p).Sublist (filed.zipIdx.map (·.2)) := List.filter_sublist.map _
  rw [List.zipIdx_map_snd] at hsub
  exact hsub.nodup List.nodup_range'

theorem map_standing {α : Type} {read : RefId → α} {g : Filing → α}
    (h : ∀ rid f, filed[rid]? = some f → p f → read rid = g f) :
    (standing filed p).map read = (filed.filter p).map g := by
  have hfilter : filed.filter p = (filed.zipIdx.filter fun y => p y.1).map (·.1) := by
    conv_lhs => rw [← List.zipIdx_map_fst 0 filed, List.filter_map]
    rfl
  rw [hfilter, standing, List.map_map, List.map_map]
  refine List.map_congr_left fun y hy => ?_
  obtain ⟨hin, hfits⟩ := List.mem_filter.1 hy
  exact h y.2 y.1 (List.mem_zipIdx_iff_getElem?.1 hin) hfits

theorem length_standing : (standing filed p).length = filed.countP p := by
  have hmap : (standing filed p).map (fun _ => ()) = (filed.filter p).map fun _ => () :=
    map_standing fun _ _ _ _ => rfl
  have hlength := congrArg List.length hmap
  rwa [List.length_map, List.length_map, ← List.countP_eq_length_filter] at hlength

theorem length_places (filed : List Filing) (v : Var) (shape : Shape) :
    (places filed v shape).length = filed.countP fun f => f.owner = v ∧ f.shape = shape :=
  length_standing (p := fun f => f.owner = v ∧ f.shape = shape)

end

/-- The sizes of the groups of a variable in a plan, and the sums of the numbers behind its
counters, are those of its filings. -/
structure Assignment.Figures {σ : Type} [Readable σ] (s : σ) (filed : List Filing)
    (a : Assignment) : Prop where
  constraint : a.constraint.length =
    filed.countP fun f => f.owner = a.id ∧ f.shape = .constraint
  present : a.present.length = filed.countP fun f => f.owner = a.id ∧ f.shape = .single
  stats : a.stats = ((filed.filter fun f => f.owner = a.id ∧ f.shape ≠ .constraint).map
    (·.reference.number s)).foldl Stats.add .zero

section

variable {σ : Type} [Readable σ] {s : σ} {filed : List Filing} {codexes : List Codex}
  {x : Codex} {a : Assignment}

theorem counts_perm (hcover : Covers filed codexes) (hx : x ∈ codexes) {count : RefId → Nat}
    (hcounts : ∀ rid f, filed[rid]? = some f → f.shape ≠ .constraint →
      ∃ key, f.reference.countKey? = some key ∧ readCount s key = .ok (count rid)) :
    (x.probedRefs.map count).Perm
      ((filed.filter fun f => f.owner = x.id ∧ f.shape ≠ .constraint).map
        (·.reference.number s)) := by
  have hplaces : x.probedRefs.Perm
      (standing filed fun f => f.owner = x.id ∧ f.shape ≠ .constraint) := by
    rw [List.perm_ext_iff_of_nodup (hcover.probedRefs_nodup hx) nodup_standing]
    intro rid
    simp only [hcover.mem_probedRefs hx, mem_standing, decide_eq_true_eq]
  have hnumbers : (standing filed fun f => f.owner = x.id ∧ f.shape ≠ .constraint).map count =
      (filed.filter fun f => f.owner = x.id ∧ f.shape ≠ .constraint).map
        (·.reference.number s) := by
    refine map_standing fun rid f hf hfits => ?_
    obtain ⟨key, hkey, hread⟩ := hcounts rid f hf (of_decide_eq_true hfits).2
    exact (Reference.number_eq hkey hread).symm
  rw [← hnumbers]
  exact hplaces.map count

theorem figures_of_compile {config : CompileConfig} {pattern : Dataset} {plan : Plan}
    (hplan : compile config pattern s = .ok plan) (ha : a ∈ plan.assignments) :
    a.Figures s (pattern.toList.flatMap filings) := by
  obtain ⟨codexes, refs, count, hcompiled⟩ := exists_compiled hplan
  obtain ⟨y, hy, before, hplaced⟩ := hcompiled.placement.exists_placed ha
  obtain ⟨c, numbers, hc, hcounts, hstats⟩ := stats_of_compile hplan
  obtain ⟨x, hx, hid, hsum⟩ := hstats a ha
  obtain ⟨-, hd, -⟩ := classify_ok hc
  have hgroup := hcompiled.covers.group y hy
  refine ⟨?_, ?_, ?_⟩
  · rw [hplaced.constraint, hplaced.id, ← length_places, ← hgroup]
    rfl
  · rw [hplaced.present, hplaced.id, ← length_places, ← hgroup]
    rfl
  · rw [hsum, ← hid, ← Stats.foldl_add_perm (counts_perm hd.filed.codexes.covers hx hcounts),
      List.foldl_map]
    rfl

theorem Assignment.Figures.unplaced (h : a.Figures s filed) :
    a.Figures s (filed.map Filing.unplaced) := by
  refine ⟨?_, ?_, ?_⟩
  · rw [h.constraint, List.countP_map]
    rfl
  · rw [h.present, List.countP_map]
    rfl
  · rw [h.stats, List.filter_map, List.map_map]
    rfl

end

section

variable {σ : Type} [Readable σ] {s : σ} {config : CompileConfig} {pattern : Dataset} {plan : Plan}

theorem map_count_eq (hplan : compile config pattern s = .ok plan) :
    plan.assignments.map (·.stats.count) = plan.order.map plan.total := by
  obtain ⟨codexes, refs, count, hcompiled⟩ := exists_compiled hplan
  rw [Plan.order, List.map_map]
  refine List.map_congr_left fun a ha => ?_
  rw [Function.comp_apply, Plan.total,
    (Plan.assignment?_eq_some_iff hcompiled.order_nodup).2 ⟨ha, rfl⟩]
  rfl

theorem counts_sorted (hplan : compile config pattern s = .ok plan) :
    (plan.assignments.map (·.stats.count)).Pairwise fun m n => config.order.le m n := by
  rw [map_count_eq hplan]
  exact List.pairwise_map.2 (ranked_of_compile hplan).sorted

end

/-- Assignments with the same figures, whatever their references are. -/
structure Assignment.Alike (a a' : Assignment) : Prop where
  stats : a.stats = a'.stats
  valueRoot : a.valueRoot = a'.valueRoot
  constraint : a.constraint.length = a'.constraint.length
  present : a.present.length = a'.present.length

/-- Refusals with errors of the same variant, or plans with the same variables and the same figures
for each. The counts are the same from first to last, so only ties may be turned. -/
inductive SameResult : Except PlanError Plan → Except PlanError Plan → Prop
  | refused {e e' : PlanError} (h : e.variant = e'.variant) : SameResult (.error e) (.error e')
  | planned {plan plan' : Plan} (order : plan.order.Perm plan'.order)
    (counts : plan.assignments.map (·.stats.count) = plan'.assignments.map (·.stats.count))
    (alike : ∀ v a, plan.assignment? v = some a →
      ∃ a', plan'.assignment? v = some a' ∧ a.Alike a') :
    SameResult (.ok plan) (.ok plan')

section

variable {docs : List Document} {config : CompileConfig} {pattern pattern' : Dataset}
  {plan plan' : Plan}

theorem alike_of_perm (h : WordSized docs)
    (hperm : (pattern.toList.map (·.2.2)).Perm (pattern'.toList.map (·.2.2)))
    (hplan : compile config pattern (Store.ofDocuments docs) = .ok plan)
    (hplan' : compile config pattern' (Store.ofDocuments docs) = .ok plan') {a a' : Assignment}
    (ha : a ∈ plan.assignments) (ha' : a' ∈ plan'.assignments) (hid : a.id = a'.id) :
    a.Alike a' := by
  have hfiled := filed_perm hperm
  have hfigures := (figures_of_compile hplan ha).unplaced
  have hfigures' := (figures_of_compile hplan' ha').unplaced
  have hroot := (roots_of_compile h hplan).1 a ha
  have hroot' := (roots_of_compile h hplan').1 a' ha'
  refine ⟨?_, ?_, ?_, ?_⟩
  · rw [hfigures.stats, hfigures'.stats, hid]
    exact Stats.foldl_add_perm ((hfiled.filter _).map _)
  · rw [hid] at hroot
    have hsame : IsRoot docs pattern'.toList a'.id a.valueRoot :=
      ⟨hroot.isSome.trans (hasOnly_congr hperm), hroot.ascending, fun l hl x =>
        (hroot.mem l hl x).trans (admits_congr hperm)⟩
    exact hsame.unique (fun _ => .rfl) hroot'
  · rw [hfigures.constraint, hfigures'.constraint, hid]
    exact hfiled.countP_eq _
  · rw [hfigures.present, hfigures'.present, hid]
    exact hfiled.countP_eq _

theorem sameResult_of_plans (h : WordSized docs)
    (hperm : (pattern.toList.map (·.2.2)).Perm (pattern'.toList.map (·.2.2)))
    (hplan : compile config pattern (Store.ofDocuments docs) = .ok plan)
    (hplan' : compile config pattern' (Store.ofDocuments docs) = .ok plan') :
    SameResult (.ok plan) (.ok plan') := by
  obtain ⟨codexes, refs, count, hcompiled⟩ := exists_compiled hplan
  obtain ⟨codexes', refs', count', hcompiled'⟩ := exists_compiled hplan'
  have horder : plan.order.Perm plan'.order := by
    rw [List.perm_ext_iff_of_nodup hcompiled.order_nodup hcompiled'.order_nodup]
    intro v
    rw [hcompiled.mem_order, hcompiled'.mem_order, mem_vars_congr hperm]
  have halike : ∀ v a, plan.assignment? v = some a →
      ∃ a', plan'.assignment? v = some a' ∧ a.Alike a' := by
    intro v a ha
    obtain ⟨hin, rfl⟩ := (Plan.assignment?_eq_some_iff hcompiled.order_nodup).1 ha
    have hmem : a.id ∈ plan'.order := horder.mem_iff.1 (List.mem_map_of_mem hin)
    obtain ⟨a', ha', hid⟩ := List.mem_map.1 hmem
    exact ⟨a', (Plan.assignment?_eq_some_iff hcompiled'.order_nodup).2 ⟨ha', hid⟩,
      alike_of_perm h hperm hplan hplan' hin ha' hid.symm⟩
  have htotal : ∀ v ∈ plan.order, plan.total v = plan'.total v := by
    intro v hv
    obtain ⟨a, ha, rfl⟩ := List.mem_map.1 hv
    have hget := (Plan.assignment?_eq_some_iff hcompiled.order_nodup).2 ⟨ha, rfl⟩
    obtain ⟨a', hget', hsame⟩ := halike _ _ hget
    rw [Plan.total, Plan.total, hget, hget']
    exact congrArg Stats.count hsame.stats
  refine .planned horder ?_ halike
  -- Both lists of counts are sorted in the same direction.
  have hcounts : (plan.assignments.map (·.stats.count)).Perm
      (plan'.assignments.map (·.stats.count)) := by
    rw [map_count_eq hplan, map_count_eq hplan', List.map_congr_left htotal]
    exact horder.map _
  exact hcounts.eq_of_pairwise (fun _ _ _ _ => VariableOrder.le_antisymm) (counts_sorted hplan)
    (counts_sorted hplan')

end

/-- Patterns that have every statement in as many graphs have the same result, however the
statements are spread over graphs and in whatever order they were inserted. -/
theorem compile_regrouped (docs : List Document) (h : WordSized docs) (config : CompileConfig)
    (pattern pattern' : Dataset) (hsame : ∀ s,
      {name | s ∈ pattern.statements name}.ncard = {name | s ∈ pattern'.statements name}.ncard) :
    SameResult (compile config pattern (Store.ofDocuments docs))
      (compile config pattern' (Store.ofDocuments docs)) := by
  have hperm := Dataset.statements_perm hsame
  have hcases := compile_cases h config pattern
  have hcases' := compile_cases h config pattern'
  have hrefusal : refusal docs config pattern.toList = refusal docs config pattern'.toList :=
    refusal_congr hperm
  cases hresult : compile config pattern (Store.ofDocuments docs) with
  | error e =>
    rw [hresult] at hcases
    cases hresult' : compile config pattern' (Store.ofDocuments docs) with
    | error e' =>
      rw [hresult'] at hcases'
      rw [hcases.refusal_error, hcases'.refusal_error] at hrefusal
      exact .refused (Option.some.inj hrefusal)
    | ok plan' =>
      rw [hresult'] at hcases'
      rw [hcases.refusal_error, hcases'.refusal_ok] at hrefusal
      cases hrefusal
  | ok plan =>
    rw [hresult] at hcases
    cases hresult' : compile config pattern' (Store.ofDocuments docs) with
    | error e' =>
      rw [hresult'] at hcases'
      rw [hcases.refusal_ok, hcases'.refusal_error] at hrefusal
      cases hrefusal
    | ok plan' => exact sameResult_of_plans h hperm hresult hresult'

def spreadPattern : Dataset :=
  (Dataset.empty.insertAll "g" [⟨.var ⟨"x"⟩, .node (.iri "p"), .node (.iri "o")⟩,
    ⟨.var ⟨"y"⟩, .node (.iri "q"), .node (.iri "o")⟩]).insertAll "h"
    [⟨.var ⟨"x"⟩, .node (.iri "p"), .node (.iri "o")⟩]

def turnedPattern : Dataset :=
  (Dataset.empty.insertAll "a" [⟨.var ⟨"y"⟩, .node (.iri "q"), .node (.iri "o")⟩,
    ⟨.var ⟨"x"⟩, .node (.iri "p"), .node (.iri "o")⟩]).insertAll "b"
    [⟨.var ⟨"x"⟩, .node (.iri "p"), .node (.iri "o")⟩]

def unevenDocument : Document := ⟨"d", .ofStatements
  [⟨.node (.iri "a"), .node (.iri "p"), .node (.iri "o")⟩,
    ⟨.node (.iri "a"), .node (.iri "q"), .node (.iri "o")⟩,
    ⟨.node (.iri "b"), .node (.iri "q"), .node (.iri "o")⟩]⟩

theorem compile_regrouped_turned : WordSized [unevenDocument] ∧
    (∀ s, {name | s ∈ spreadPattern.statements name}.ncard =
      {name | s ∈ turnedPattern.statements name}.ncard) ∧
    ∃ plan plan', compile {} spreadPattern (Store.ofDocuments [unevenDocument]) = .ok plan ∧
      compile {} turnedPattern (Store.ofDocuments [unevenDocument]) = .ok plan' ∧
      plan.order = [⟨"x"⟩, ⟨"y"⟩] ∧ plan'.order = [⟨"y"⟩, ⟨"x"⟩] ∧
      SameResult (.ok plan) (.ok plan') := by
  have hwords : WordSized [unevenDocument] :=
    wordSized_of_size (by decide) (by decide) (by decide)
  have hperm : (spreadPattern.toList.map (·.2.2)).Perm (turnedPattern.toList.map (·.2.2)) := by
    decide +kernel
  have hsame : ∀ s, {name | s ∈ spreadPattern.statements name}.ncard =
      {name | s ∈ turnedPattern.statements name}.ncard := by
    intro s
    rw [← Dataset.count_toList, ← Dataset.count_toList, hperm.count_eq]
  have horder : (compile {} spreadPattern (Store.ofDocuments [unevenDocument])).map Plan.order =
      .ok [⟨"x"⟩, ⟨"y"⟩] := by
    decide +kernel
  have horder' : (compile {} turnedPattern (Store.ofDocuments [unevenDocument])).map Plan.order =
      .ok [⟨"y"⟩, ⟨"x"⟩] := by
    decide +kernel
  obtain ⟨plan, hplan, hx⟩ := map_eq_ok_iff.1 horder
  obtain ⟨plan', hplan', hy⟩ := map_eq_ok_iff.1 horder'
  have hresult := compile_regrouped [unevenDocument] hwords {} _ _ hsame
  rw [hplan, hplan'] at hresult
  exact ⟨hwords, hsame, plan, plan', hplan, hplan', hx, hy, hresult⟩

end TriplePlan
