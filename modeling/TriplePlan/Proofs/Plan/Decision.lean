import TriplePlan.Proofs.Plan.Outcome

/-! Compiling decides: which of the five results there is depends on the statements of the pattern
and on the stored triples alone, and a pattern with a solution is never refused for what is
stored. -/
namespace TriplePlan

open Index

/-- Alone with its constants the statement matches no stored triple, or one of its two variables
stands beside a constant that no stored triple has in that position. -/
def Unmatched (docs : List Document) (s : Statement) : Prop :=
  (∃ u v, s.IsOnly u v ∧ ∀ σ, ¬ Indexed docs (s.under σ)) ∨
    ∃ p q r a b c, a ≠ b ∧ s.get p = .var a ∧ s.get q = .var b ∧ s.get r = .node c ∧
      ∀ t, Indexed docs t → t.get r ≠ c

theorem Statement.agrees_under (s : Statement) (σ : Var → Node) : s.Agrees (s.under σ) := by
  intro p c hp
  rw [under, Triple.get_map, hp, Term.under]

theorem exists_pair_form {s : Statement} {p q r : Position} {a b : Var} {c : Node} (hab : a ≠ b)
    (hp : s.get p = .var a) (hq : s.get q = .var b) (hr : s.get r = .node c) :
    ∃ x y, x ≠ y ∧ s = .ofRotation r (.var x) (.var y) (.node c) := by
  have hpr : p ≠ r := fun h => by rw [h, hr] at hp; cases hp
  have hqr : q ≠ r := fun h => by rw [h, hr] at hq; cases hq
  have hpq : p ≠ q := fun h => by rw [h, hq] at hp; cases hp; exact hab rfl
  rcases Position.rotate_cases r p with rfl | rfl | rfl
  · exact absurd rfl hpr
  · rcases Position.rotate_cases r q with rfl | rfl | rfl
    · exact absurd rfl hqr
    · exact absurd rfl hpq
    · exact ⟨a, b, hab, Triple.eq_ofRotation_iff.2 ⟨hp, hq, hr⟩⟩
  · rcases Position.rotate_cases r q with rfl | rfl | rfl
    · exact absurd rfl hqr
    · exact ⟨b, a, Ne.symm hab, Triple.eq_ofRotation_iff.2 ⟨hq, hp, hr⟩⟩
    · exact absurd rfl hpq

section

variable {docs : List Document} {es : List (String × Nat × Statement)}

/-- A statement is unmatched exactly if a reference of it has no support. -/
theorem unmatched_iff {e : String × Nat × Statement} : Unmatched docs e.2.2 ↔
    ∃ f ∈ filings e, f.shape ≠ .constraint ∧ ¬ ∃ t, Indexed docs t ∧ Statement.Agrees e.2.2 t := by
  constructor
  · intro h
    obtain ⟨g, i, s⟩ := e
    obtain ⟨u, v, honly, hnone⟩ | ⟨p, q, r, a, b, c, hab, hp, hq, hr, hnone⟩ := h
    · obtain ⟨m, n, rfl⟩ := Statement.isOnly_iff.1 honly
      refine ⟨_, by rw [filings_one]; exact List.mem_singleton_self _, by simp, fun ht => ?_⟩
      obtain ⟨t, ht, hagree⟩ := ht
      obtain ⟨hm, hn, -⟩ := Statement.agrees_ofRotation.1 hagree
      have hform : t = .ofRotation u m n (t.get u) :=
        Triple.eq_ofRotation_iff.2 ⟨hm m rfl, hn n rfl, rfl⟩
      refine hnone (fun _ => t.get u) ?_
      rw [Statement.under_ofRotation]
      rwa [hform] at ht
    · obtain ⟨x, y, hxy, hs⟩ := exists_pair_form hab hp hq hr
      dsimp only at hs
      subst hs
      refine ⟨_, (mem_filings_pair hxy).2 (.inl rfl), by simp, fun ht => ?_⟩
      obtain ⟨t, ht, hagree⟩ := ht
      exact hnone t ht (hagree r c hr)
  · intro h
    obtain ⟨f, hf, hs, hnone⟩ := h
    have hσ : ∀ σ, ¬ Indexed docs (Statement.under σ e.2.2) :=
      fun σ hσ => hnone ⟨_, hσ, Statement.agrees_under _ σ⟩
    cases files_of_mem hf with
    | single g i u m n v => exact .inl ⟨u, v, Statement.isOnly_iff.2 ⟨m, n, rfl⟩, hσ⟩
    | constraint => exact absurd rfl hs
    | next g i u c hvw =>
      refine .inr ⟨u, u.rotate 1, u.rotate 2, _, _, c,
        hvw, by simp, by simp, by simp, fun t ht htc => hnone ⟨t, ht, ?_⟩⟩
      simpa [Statement.agrees_ofRotation] using htc
    | last g i u c hvw =>
      refine .inr ⟨u, u.rotate 2, u.rotate 1, _, _, c,
        hvw, by simp, by simp, by simp, fun t ht htc => hnone ⟨t, ht, ?_⟩⟩
      simpa [Statement.agrees_ofRotation] using htc

theorem supported_iff : Supported docs es ↔ ∀ e ∈ es, ¬ Unmatched docs e.2.2 := by
  simp only [Supported, unmatched_iff]
  constructor
  · intro h e he hno
    obtain ⟨f, hf, hs, hnone⟩ := hno
    exact hnone (h e he f hf hs)
  · intro h e he f hf hs
    by_contra hnone
    exact h e he ⟨f, hf, hs, hnone⟩

theorem Solves.matched {σ : Var → Node} (h : Solves docs es σ) :
    ∀ e ∈ es, ¬ Unmatched docs e.2.2 := by
  intro e he hno
  obtain ⟨u, v, -, hnone⟩ | ⟨p, q, r, a, b, c, -, -, -, hr, hnone⟩ := hno
  · exact hnone σ (h e he)
  · exact hnone _ (h e he) (Statement.agrees_under _ σ r c hr)

end

open Classical in
/-- Which result compiling has, for every pattern and every store that is made from documents. -/
theorem compile_decides (docs : List Document) (h : WordSized docs) (config : CompileConfig)
    (pattern : Dataset) :
    let es := pattern.toList
    let result := compile config pattern (Store.ofDocuments docs)
    (if ∃ e ∈ es, e.2.2.IsOpen then
      ∃ e ∈ es, e.2.2.IsOpen ∧ result = .error (.unrepresentable e.1 e.2.1)
    else if ∃ max, config.maxVariables = some max ∧ max < variableCount es then
      ∃ max, config.maxVariables = some max ∧
        result = .error (.tooManyVariables (variableCount es) max)
    else if ∃ e ∈ es, Unmatched docs e.2.2 then
      ∃ e ∈ es, Unmatched docs e.2.2 ∧ ∃ v p, result = .error (.zeroCandidates v e.1 e.2.1 p)
    else if ∃ v ∈ es.flatMap (·.2.2.vars), Rootless docs es config.requireValueRoot v then
      ∃ v, Rootless docs es config.requireValueRoot v ∧ result = .error (.emptyValueRoot v)
    else ∃ plan, result = .ok plan) ∧
    (∀ cause, result ≠ .error (.store cause)) ∧ result ≠ .error .unprobed ∧
      result ≠ .error .alreadyProbed ∧
    ((∀ e ∈ es, ¬ e.2.2.IsOpen) → (∀ max, config.maxVariables = some max → variableCount es ≤ max) →
      config.requireValueRoot = false → (∃ σ, Solves docs es σ) → ∃ plan, result = .ok plan) := by
  have hcases := compile_cases h config pattern
  dsimp only
  generalize compile config pattern (Store.ofDocuments docs) = result at hcases
  cases hcases with
  | unrepresentable he hopen =>
    refine ⟨?_, nofun, nofun, nofun, fun hclosed => absurd hopen (hclosed _ he)⟩
    rw [if_pos ⟨_, he, hopen⟩]
    exact ⟨_, he, hopen, rfl⟩
  | tooManyVariables hclosed hmax hlt =>
    refine ⟨?_, nofun, nofun, nofun, fun _ hwithin => absurd hlt (Nat.not_lt.2 (hwithin _ hmax))⟩
    rw [if_neg (by simpa using hclosed), if_pos ⟨_, hmax, hlt⟩]
    exact ⟨_, hmax, rfl⟩
  | zeroCandidates hclosed hwithin he hf hs hnone =>
    have hno := unmatched_iff.2 ⟨_, hf, hs, hnone⟩
    refine ⟨?_, nofun, nofun, nofun, fun _ _ _ hsol => ?_⟩
    · rw [if_neg (by simpa using hclosed), if_neg (by simpa using hwithin), if_pos ⟨_, he, hno⟩]
      exact ⟨_, he, hno, _, _, rfl⟩
    · obtain ⟨σ, hσ⟩ := hsol
      exact absurd hno (hσ.matched _ he)
  | emptyValueRoot hclosed hwithin hsupport hv hless =>
    refine ⟨?_, nofun, nofun, nofun, fun _ _ hroot hsol => ?_⟩
    · rw [if_neg (by simpa using hclosed), if_neg (by simpa using hwithin),
        if_neg (by simpa using supported_iff.1 hsupport), if_pos ⟨_, hv, hless⟩]
      exact ⟨_, hless, rfl⟩
    · obtain ⟨σ, hσ⟩ := hsol
      obtain ⟨-, hno⟩ | ⟨hreq, -⟩ := hless
      · exact absurd (hσ.admits _) (hno _)
      · rw [hroot] at hreq
        cases hreq
  | planned hclosed hwithin hsupport hroots hplan =>
    refine ⟨?_, nofun, nofun, nofun, fun _ _ _ _ => ⟨_, rfl⟩⟩
    rw [if_neg (by simpa using hclosed), if_neg (by simpa using hwithin),
      if_neg (by simpa using supported_iff.1 hsupport), if_neg (by simpa using hroots)]
    exact ⟨_, rfl⟩

theorem compile_decides_twins : WordSized [blankTwin, namedTwin] ∧
    ∃ plan, compile {} twinPattern (Store.ofDocuments [blankTwin, namedTwin]) = .ok plan := by
  refine ⟨wordSized_twins, ?_⟩
  have hclosed : ∀ e ∈ twinPattern.toList, (e.2.2.get .predicate).isVar = false := by decide
  have hindexed : Indexed [blankTwin, namedTwin] ⟨.iri "a#_:x", .iri "p", .iri "o"⟩ := by
    let s : Statement := ⟨.var ⟨"x"⟩, .node (.iri "p"), .node (.iri "o")⟩
    exact ⟨blankTwin,
      List.mem_cons_self, by decide, (Dataset.defaultGraph, 0, s), by decide, by decide⟩
  let σ : Var → Node := fun v => if v = ⟨"x"⟩ then .iri "a#_:x" else .iri "o"
  have hsolution :
      ∀ e ∈ twinPattern.toList, e.2.2.under σ = ⟨.iri "a#_:x", .iri "p", .iri "o"⟩ := by decide
  refine (compile_decides [blankTwin, namedTwin] wordSized_twins {} twinPattern).2.2.2.2 ?_
    (by simp) rfl ⟨σ, ?_⟩
  · intro e he hopen
    have := hopen .predicate
    rw [hclosed e he] at this
    cases this
  · intro e he
    rw [hsolution e he]
    exact hindexed

end TriplePlan
