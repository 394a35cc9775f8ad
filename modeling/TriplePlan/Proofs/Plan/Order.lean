import TriplePlan.Proofs.Plan.Partition
import TriplePlan.Proofs.Plan.ValueRoot

/-! The order of the variables. Each sort keeps variables with equal counts in the order in which
they were first seen, so of any number of sorts only the last one decides, and ties are never
turned. -/
namespace TriplePlan

open Assignment CodexMap

namespace VariableOrder

variable {order : VariableOrder} {a b c : Nat}

theorem le_trans (hab : order.le a b) (hbc : order.le b c) : order.le a c := by
  cases order <;> simp only [le, decide_eq_true_eq] at hab hbc ⊢ <;> omega

theorem le_total (order : VariableOrder) (a b : Nat) : order.le a b ∨ order.le b a := by
  cases order <;> simp only [le, decide_eq_true_eq] <;> omega

theorem le_antisymm (hab : order.le a b) (hba : order.le b a) : a = b := by
  cases order <;> simp only [le, decide_eq_true_eq] at hab hba <;> omega

theorem le_of_eq (order : VariableOrder) (h : a = b) : order.le a b :=
  h ▸ (le_total order a a).elim id id

end VariableOrder

/-- Variables sorted by count, and those with equal counts as they were first seen. -/
structure Ranked (order : VariableOrder) (count : Var → Nat) (seen ids : List Var) : Prop where
  perm : ids.Perm seen
  sorted : ids.Pairwise fun v w => order.le (count v) (count w)
  stable : ids.Pairwise fun v w => count v = count w → seen.idxOf v < seen.idxOf w

/-- The variables of a pattern as they are first seen, by graph name, index and position. -/
def Dataset.firstSeen (pattern : Dataset) : List Var :=
  (pattern.toList.flatMap (·.2.2.vars)).eraseDups

def CodexMap.total (m : CodexMap) (v : Var) : Nat := (m.codex? v).elim 0 (·.stats.count)

def Plan.total (plan : Plan) (v : Var) : Nat := (plan.assignment? v).elim 0 (·.stats.count)

theorem Ranked.congr {order : VariableOrder} {count count' : Var → Nat} {seen ids : List Var}
    (h : Ranked order count seen ids) (heq : ∀ v ∈ ids, count' v = count v) :
    Ranked order count' seen ids := by
  refine ⟨h.perm, h.sorted.imp_of_mem fun hv hw hle => ?_, h.stable.imp_of_mem fun hv hw hlt => ?_⟩
  · rwa [heq _ hv, heq _ hw]
  · rwa [heq _ hv, heq _ hw]

def Ties (count : Var → Nat) (seen ids : List Var) : Prop :=
  ids.Pairwise fun v w => count v = count w → seen.idxOf v < seen.idxOf w

def Stands (count : Var → Nat) (seen : List Var) (order : VariableOrder) (v w : Var) : Prop :=
  order.le (count v) (count w) ∧ (count v = count w → seen.idxOf v < seen.idxOf w)

section

variable {seen ids ids' : List Var} {m : CodexMap} {order : VariableOrder} {count : Var → Nat}

theorem total_eq (m : CodexMap) (v : Var) : m.total v = (m.codex v).stats.count := by
  rw [CodexMap.total, codex?, codex]
  cases m.index.get? v <;> rfl

theorem ids_sort (m : CodexMap) (order : VariableOrder) : (m.sort order).ids =
    stableSort (fun v w => order.le (m.total v) (m.total w)) m.ids := by
  simp only [total_eq]
  rfl

theorem sort_stands (h : Ties m.total seen m.ids) (order : VariableOrder) :
    (m.sort order).ids.Pairwise (Stands m.total seen order) := by
  have hsorted : (m.sort order).ids.Pairwise fun v w =>
      order.le (m.total v) (m.total w) ∧ (order.le (m.total w) (m.total v) →
        m.total v = m.total w → seen.idxOf v < seen.idxOf w) := by
    rw [ids_sort]
    refine stableSort_pairwise ?_ ?_ h
    · exact fun _ _ _ => VariableOrder.le_trans
    · exact fun _ _ => order.le_total _ _
  refine hsorted.imp fun hvw => ⟨hvw.1, fun heq => ?_⟩
  exact hvw.2 (order.le_of_eq heq.symm) heq

theorem Ties.sort (h : Ties m.total seen m.ids) (order : VariableOrder) :
    Ties (m.sort order).total seen (m.sort order).ids :=
  (sort_stands h order).imp fun hvw => hvw.2

theorem eq_of_stands (hp : ids.Perm ids') (h : ids.Pairwise (Stands count seen order))
    (h' : ids'.Pairwise (Stands count seen order)) : ids = ids' := by
  refine hp.eq_of_pairwise (fun v w _ _ hvw hwv => ?_) h h'
  have heq := VariableOrder.le_antisymm hvw.1 hwv.1
  exact absurd (hwv.2 heq.symm) (Nat.lt_asymm (hvw.2 heq))

theorem ids_sort_perm (m : CodexMap) (order : VariableOrder) : (m.sort order).ids.Perm m.ids :=
  stableSort_perm _ _

theorem sort_sort (h : Ties m.total seen m.ids) (order last : VariableOrder) :
    (m.sort order).sort last = m.sort last := by
  have hperm : ((m.sort order).sort last).ids.Perm (m.sort last).ids :=
    ((ids_sort_perm _ last).trans (ids_sort_perm m order)).trans (ids_sort_perm m last).symm
  have hids := eq_of_stands hperm (sort_stands (h.sort order) last) (sort_stands h last)
  exact CodexMap.ext rfl rfl hids rfl

/-- Of any number of sorts the last one decides. -/
theorem foldl_sort (h : Ties m.total seen m.ids) (orders : List VariableOrder)
    (last : VariableOrder) : (orders ++ [last]).foldl CodexMap.sort m = m.sort last := by
  -- The ties are the invariant: a sort that turned one would be seen by the next.
  induction orders generalizing m with
  | nil => rfl
  | cons order orders ih =>
    rw [List.cons_append, List.foldl_cons, ih (h.sort order), sort_sort h]

theorem pairwise_idxOf {ids : List Var} (hn : ids.Nodup) :
    ids.Pairwise fun v w => ids.idxOf v < ids.idxOf w := by
  rw [List.pairwise_iff_getElem]
  intro i j hi hj hij
  rwa [hn.idxOf_getElem, hn.idxOf_getElem]

theorem ties_ids (m : CodexMap) : Ties m.total m.ids m.ids := by
  have hlt : m.ids.Pairwise fun v w => m.ids.idxOf v < m.ids.idxOf w := pairwise_idxOf m.slice_nodup
  refine List.Pairwise.imp ?_ hlt
  exact fun hvw _ => hvw

theorem ranked_sort (m : CodexMap) (order : VariableOrder) :
    Ranked order m.total m.ids (m.sort order).ids :=
  have hstands := sort_stands (ties_ids m) order
  ⟨ids_sort_perm m order, hstands.imp fun hvw => hvw.1, hstands.imp fun hvw => hvw.2⟩

end

section

variable {σ : Type} [Readable σ] {s : σ} {pattern : Dataset} {c : Classified}

theorem ids_of_probe (hc : classify pattern = .ok c) {p : CodexMap}
    (hprobe : c.codexMap.probe s = (.ok (), p)) : p.ids = pattern.firstSeen := by
  obtain ⟨-, hd, -⟩ := classify_ok hc
  obtain ⟨count, -, hcodexes, -⟩ := hd.waiting.probe_ok hprobe
  have hids : p.ids = c.codexMap.ids := by
    rw [← map_id_codexes, ← map_id_codexes, hcodexes, List.map_map]
    rfl
  exact hids.trans (partitions_of_classify hc).ids

theorem total_of_placement (plan : Plan) {m : CodexMap}
    (hplace : Placement [] m.codexes plan.assignments) :
    plan.order = m.ids ∧ ∀ v ∈ m.ids, plan.total v = m.total v := by
  have horder : plan.order = m.ids := hplace.map_id.trans m.map_id_codexes
  refine ⟨horder, fun v hv => ?_⟩
  have hn : plan.order.Nodup := horder ▸ m.slice_nodup
  rw [← horder] at hv
  obtain ⟨a, ha, rfl⟩ := List.mem_map.1 hv
  obtain ⟨x, hx, before, hplaced⟩ := hplace.exists_placed ha
  rw [Plan.total, (Plan.assignment?_eq_some_iff hn).2 ⟨ha, rfl⟩, CodexMap.total,
    codex?_eq_some_iff.2 ⟨hx, hplaced.id.symm⟩]
  exact congrArg Stats.count hplaced.stats

theorem ranked_of_compile {config : CompileConfig} {plan : Plan}
    (hplan : compile config pattern s = .ok plan) :
    Ranked config.order plan.total pattern.firstSeen plan.order := by
  obtain ⟨c, m, assigned, m', hc, hprobe, hbuild, rfl⟩ := compile_ok hplan
  obtain ⟨-, hplace, -⟩ := build_ok hbuild
  obtain ⟨horder, htotal⟩ := total_of_placement ⟨assigned, m'.references, c.constants⟩ hplace
  rw [horder, ← ids_of_probe hc hprobe]
  exact (ranked_sort m config.order).congr htotal

end

/-- After any sorts of a probed map, in any directions, its variables are ranked by their counts in
the direction of the last one, with equal counts as they were first seen; the map is the one that
this sort alone would make. So are the variables of every plan, in the direction of its
configuration. -/
theorem order_ranked (pattern : Dataset) (c : Classified) (hc : classify pattern = .ok c)
    {σ : Type} [Readable σ] (s : σ) :
    (∀ p, c.codexMap.probe s = (.ok (), p) → ∀ orders last,
      (orders ++ [last]).foldl CodexMap.sort p = p.sort last ∧
        Ranked last p.total pattern.firstSeen ((orders ++ [last]).foldl CodexMap.sort p).ids) ∧
    ∀ config plan, compile config pattern s = .ok plan →
      Ranked config.order plan.total pattern.firstSeen plan.order := by
  refine ⟨fun p hprobe orders last => ?_, fun config plan hplan => ranked_of_compile hplan⟩
  have hlast := foldl_sort (ties_ids p) orders last
  rw [hlast, ← ids_of_probe hc hprobe]
  exact ⟨rfl, ranked_sort p last⟩

def tiePattern : Dataset := .ofStatements
  [⟨.var ⟨"v"⟩, .node (.iri "p"), .node (.iri "o")⟩,
    ⟨.var ⟨"w"⟩, .node (.iri "q"), .node (.iri "o")⟩,
    ⟨.var ⟨"x"⟩, .node (.iri "p"), .node (.iri "o")⟩,
    ⟨.var ⟨"y"⟩, .node (.iri "q"), .node (.iri "o")⟩]

def tieStore : Store := Store.ofDocuments [⟨"d", .ofStatements
  [⟨.node (.iri "a"), .node (.iri "p"), .node (.iri "o")⟩,
    ⟨.node (.iri "a"), .node (.iri "q"), .node (.iri "o")⟩,
    ⟨.node (.iri "b"), .node (.iri "q"), .node (.iri "o")⟩]⟩]

theorem order_ranked_tie : ∃ c p plan, classify tiePattern = .ok c ∧
    c.codexMap.probe tieStore = (.ok (), p) ∧ compile {} tiePattern tieStore = .ok plan ∧
    ([.ascendingCount, .descendingCount, .ascendingCount].foldl CodexMap.sort p).ids =
      [⟨"v"⟩, ⟨"x"⟩, ⟨"w"⟩, ⟨"y"⟩] ∧
    Ranked .ascendingCount p.total tiePattern.firstSeen
      ([.ascendingCount, .descendingCount, .ascendingCount].foldl CodexMap.sort p).ids ∧
    plan.order = [⟨"w"⟩, ⟨"y"⟩, ⟨"v"⟩, ⟨"x"⟩] ∧
    Ranked .descendingCount plan.total tiePattern.firstSeen plan.order := by
  have hprobe : ((classify tiePattern).map fun c =>
      ((c.codexMap.probe tieStore).1, ([.ascendingCount, .descendingCount, .ascendingCount].foldl
        CodexMap.sort (c.codexMap.probe tieStore).2).ids)) =
      .ok (.ok (), [⟨"v"⟩, ⟨"x"⟩, ⟨"w"⟩, ⟨"y"⟩]) := by
    decide +kernel
  have horder : (compile {} tiePattern tieStore).map Plan.order =
      .ok [⟨"w"⟩, ⟨"y"⟩, ⟨"v"⟩, ⟨"x"⟩] := by
    decide +kernel
  obtain ⟨c, hc, hprobe⟩ := map_eq_ok_iff.1 hprobe
  obtain ⟨hok, hids⟩ := Prod.mk.inj hprobe
  obtain ⟨plan, hplan, horder⟩ := map_eq_ok_iff.1 horder
  obtain ⟨hsorts, hplans⟩ := order_ranked tiePattern c hc tieStore
  have hsorts := hsorts _ (Prod.ext hok rfl) [.ascendingCount, .descendingCount] .ascendingCount
  exact ⟨c, _, plan, hc, Prod.ext hok rfl, hplan, hids, hsorts.2, horder, hplans {} plan hplan⟩

end TriplePlan
