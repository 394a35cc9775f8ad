import TriplePlan.Proofs.Index.Effect
import TriplePlan.Proofs.Plan.Candidates
import TriplePlan.Proofs.Plan.Partition

/-! A reference reads the keys that storing its statement writes. Once the variables have values the
prefix and the value of its own variable make the value key of the triple in the rotation of the
reference, and its counter is one of those that the triple is counted at. -/
namespace TriplePlan

open CodexMap Index

/-- The keys that a reference of `v` reads under an assignment, against the triple that its
statement becomes: `start` is the prefix of its candidates and `key` its counter. -/
structure Reference.Meets (s : Statement) (σ : Var → Node) (v : Var) (u : Position)
    (start key : Bytes) (r : Reference) : Prop where
  permutation : r.permutation = .single u
  unknown : s.get u = .var v
  countKey : r.countKey? = some key
  value : start ++ Key.encodeNode (σ v) = Key.tripleKey (s.under σ) u
  counter : key ∈ counterKeys (s.under σ)

section

variable {e : String × Nat × Statement} {f : Filing}

theorem Files.meets_single (h : Files e f) (hs : f.shape = .single) (σ : Var → Node) :
    ∃ u start, f.reference.valuePrefix? = some start ∧
      f.reference.Meets e.2.2 σ f.owner u start (minorKeyOf (e.2.2.under σ) u) := by
  cases h with
  | single g i u m n v =>
    refine ⟨u, Key.valuePrefix u m n, rfl, rfl, Triple.get_ofRotation .., ?_, ?_,
      mem_counterKeys.2 (.inl ⟨u, rfl⟩)⟩
    · rw [Statement.under_ofRotation, minorKeyOf, Triple.rotate_ofRotation]
      rfl
    · rw [Statement.under_ofRotation, tripleKey_ofRotation]
      rfl
  | constraint => cases hs
  | next => cases hs
  | last => cases hs

theorem Files.meets_double (h : Files e f) {w : Var} (hs : f.shape = .double w) (σ : Var → Node) :
    f.reference.other? = some w ∧ ∃ u q n start, e.2.2.get q = .node n ∧
      f.reference.seekPrefix? (σ w) = some start ∧
      f.reference.Meets e.2.2 σ f.owner u start (majorKeyOf (e.2.2.under σ) q) := by
  cases h with
  | single => cases hs
  | constraint => cases hs
  | next g i u c hne =>
    cases hs
    refine ⟨rfl, u, u.rotate 2, c, Key.valuePrefix u (σ w) c, Triple.get_ofRotation_last ..,
      rfl, rfl, Triple.get_ofRotation .., ?_, ?_, mem_counterKeys.2 (.inr ⟨_, rfl⟩)⟩
    · rw [Statement.under_ofRotation, majorKeyOf, Triple.get_ofRotation_last]
      rfl
    · rw [Statement.under_ofRotation, tripleKey_ofRotation]
      rfl
  | last g i u c hne =>
    cases hs
    refine ⟨rfl, u, u.rotate 1, c, Key.valuePrefix u c (σ w), Triple.get_ofRotation_next ..,
      rfl, rfl, Triple.get_ofRotation .., ?_, ?_, mem_counterKeys.2 (.inr ⟨_, rfl⟩)⟩
    · rw [Statement.under_ofRotation, majorKeyOf, Triple.get_ofRotation_next]
      rfl
    · rw [Statement.under_ofRotation, tripleKey_ofRotation]
      rfl

theorem Reference.Meets.of_core {s : Statement} {σ : Var → Node} {v : Var} {u : Position}
    {start key : Bytes} {r : Reference} (h : r.core.Meets s σ v u start key) :
    r.Meets s σ v u start key :=
  ⟨h.permutation, h.unknown, h.countKey, h.value, h.counter⟩

theorem Reference.Meets.written {s : Statement} {σ : Var → Node} {v : Var} {u : Position}
    {start key : Bytes} {r : Reference} (h : r.Meets s σ v u start key) {t t' : Transaction}
    {source : Source} (hrun : insert (s.under σ) source t = (.ok true, t')) :
    (t'.get? (start ++ Key.encodeNode (σ v))).isSome ∧
      ∃ n, readCount t key = .ok n ∧ t'.get? key = some (Key.encodeCount (n + 1)) := by
  obtain ⟨hpresent, hcounted, -⟩ := insert_ok hrun
  refine ⟨hpresent _ ?_, by simpa using hcounted key h.counter⟩
  rw [h.value]
  exact tripleKey_mem_valueKeys.2 rfl

end

/-- A statement without a repeated variable, any reference that classification made for it and any
values for the variables: a single reference reads the value key of the triple and the minor counter
of its rotation, a double one the value key and the major counter of the constant. Where the triple
is stored as a new one, the value key gets an entry and the counter one more. -/
theorem keys_written (pattern : Dataset) (c : Classified) (hc : classify pattern = .ok c)
    (e : String × Nat × Statement) (he : e ∈ pattern.toList) (hvars : e.2.2.vars.Nodup) (x : Codex)
    (hx : x ∈ c.codexMap.codexes) (rid : RefId) (hrid : rid ∈ x.refs) (r : Reference)
    (hr : c.codexMap.references[rid]? = some r) (hgraph : r.graph = e.1) (hindex : r.index = e.2.1)
    (σ : Var → Node) :
    ∃ u start key, r.Meets e.2.2 σ x.id u start key ∧
      ((rid ∈ x.single ∧ r.valuePrefix? = some start ∧ key = minorKeyOf (e.2.2.under σ) u) ∨
        ∃ w q n, rid ∈ x.group (.double w) ∧ r.other? = some w ∧ r.seekPrefix? (σ w) = some start ∧
          e.2.2.get q = .node n ∧ key = majorKeyOf (e.2.2.under σ) q) ∧
      ∀ t t' source, insert (e.2.2.under σ) source t = (.ok true, t') →
        (t'.get? (start ++ Key.encodeNode (σ x.id))).isSome ∧
          ∃ n, readCount t key = .ok n ∧ t'.get? key = some (Key.encodeCount (n + 1)) := by
  obtain ⟨-, hd, -⟩ := classify_ok hc
  have hcover := hd.filed.codexes.covers
  obtain ⟨f, hf, howner⟩ := (hcover.mem_refs hx).1 hrid
  obtain ⟨e', he', hfe⟩ := exists_statement hf
  have hfiles := files_of_mem hfe
  have hcore := hd.filed.references.core_eq hf hr
  obtain ⟨hgraph', hindex', -⟩ := statement?_of_core hcore hfiles
  obtain rfl : e = e' := by
    obtain ⟨g, i, s⟩ := e
    obtain ⟨g', i', s'⟩ := e'
    obtain rfl : g = g' := hgraph.symm.trans hgraph'
    obtain rfl : i = i' := hindex.symm.trans hindex'
    rw [Dataset.mem_toList] at he he'
    rw [he] at he'
    cases he'
    rfl
  have hgroup : rid ∈ x.group f.shape := (hcover.mem_group hx _).2 ⟨f, hf, howner, rfl⟩
  cases hs : f.shape with
  | constraint =>
    have hperm := hfiles.vars_perm
    rw [hs] at hperm
    exact absurd (hperm.nodup_iff.1 hvars) (by simp [Shape.vars])
  | single =>
    obtain ⟨u, start, hprefix, hmeets⟩ := hfiles.meets_single hs σ
    rw [← hcore, howner] at hmeets
    rw [← hcore] at hprefix
    rw [hs] at hgroup
    exact ⟨u, start, _, hmeets.of_core, .inl ⟨hgroup, hprefix, rfl⟩,
      fun t t' source hrun => hmeets.written hrun⟩
  | double w =>
    obtain ⟨hother, u, q, n, start, hconstant, hseek, hmeets⟩ := hfiles.meets_double hs σ
    rw [← hcore, howner] at hmeets
    rw [← hcore] at hother hseek
    rw [hs] at hgroup
    exact ⟨u, start, _, hmeets.of_core, .inr ⟨w, q, n, hgroup, hother, hseek, hconstant, rfl⟩,
      fun t t' source hrun => hmeets.written hrun⟩

theorem keys_written_parallel :
    let s : Statement := ⟨.var ⟨"x"⟩, .node (.iri "p"), .var ⟨"y"⟩⟩
    let σ : Var → Node := fun v => .iri v.label
    ∃ c r t' u start key, classify parallelPattern = .ok c ∧ c.codexMap.references[0]? = some r ∧
      insert (s.under σ) ⟨"d", "g", 0⟩ (.start .empty) = (.ok true, t') ∧
      r.Meets s σ ⟨"x"⟩ u start key ∧ (t'.get? (start ++ Key.encodeNode (.iri "x"))).isSome := by
  intro s σ
  have hend : ((classify parallelPattern).map fun c =>
      (c.codexMap.codexes.head?.map fun x => (x.id, x.refs),
        c.codexMap.references[0]?.map fun r => (r.graph, r.index))) =
      .ok (some (⟨"x"⟩, [0, 3, 4]), some ("@default", 0)) := by
    decide +kernel
  have hnew : (insert (s.under σ) ⟨"d", "g", 0⟩ (.start .empty)).1 = .ok true := by
    decide +kernel
  generalize hrun : insert (s.under σ) ⟨"d", "g", 0⟩ (.start .empty) = out at hnew ⊢
  obtain ⟨result, t'⟩ := out
  obtain rfl : result = .ok true := hnew
  obtain ⟨c, hc, hfacts⟩ := map_eq_ok_iff.1 hend
  obtain ⟨hcodex, hreference⟩ := Prod.mk.inj hfacts
  obtain ⟨x, hx, hid⟩ := Option.map_eq_some_iff.1 hcodex
  obtain ⟨hid, hrefs⟩ := Prod.mk.inj hid
  obtain ⟨r, hr, horigin⟩ := Option.map_eq_some_iff.1 hreference
  obtain ⟨hgraph, hindex⟩ := Prod.mk.inj horigin
  obtain ⟨u, start, key, hmeets, -, hwritten⟩ := keys_written parallelPattern c hc
    ("@default", 0, s) (by decide +kernel) (by decide) x (List.mem_of_head? hx) 0 (by simp [hrefs])
    r hr hgraph hindex σ
  rw [hid] at hmeets hwritten
  exact ⟨c, r, t', u, start, key, hc, hr, rfl, hmeets, (hwritten _ t' _ hrun).1⟩

end TriplePlan
