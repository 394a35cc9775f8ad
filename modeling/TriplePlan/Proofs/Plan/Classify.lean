import TriplePlan.Proofs.Distinct
import TriplePlan.Proofs.OrderedMap
import TriplePlan.Proofs.Plan.Codexes
import TriplePlan.Proofs.Plan.Filing

/-! A classified pattern holds the filings of its statements, in order, and no others: the
references are those of the filings, and a group of a variable has the places of its filings of
that shape. -/
namespace TriplePlan

def Codex.Content.push (shape : Shape) (rid : RefId) : Codex.Content → Codex.Content :=
  match shape with
  | .constraint => pushConstraint rid
  | .single => pushSingle rid
  | .double other => pushDouble other rid

namespace Codex

/-- The references of a variable of one shape. -/
def group (c : Codex) : Shape → List RefId
  | .constraint => c.constraint
  | .single => c.single
  | .double other => (c.double.get? other).getD []

theorem group_empty (v : Var) (shape : Shape) : group ⟨.empty, v⟩ shape = [] := by
  cases shape <;> rfl

theorem group_push (c : Codex) (shape shape' : Shape) (rid : RefId) :
    group ⟨c.toContent.push shape rid, c.id⟩ shape' =
      if shape = shape' then c.group shape' ++ [rid] else c.group shape' := by
  cases shape with
  | constraint => cases shape' <;> rfl
  | single => cases shape' <;> rfl
  | double other => cases shape' with
    | constraint => rfl
    | single => rfl
    | double other' =>
      simp only [group, Content.push, Content.pushDouble, OrderedMap.get?_insert,
        Shape.double.injEq]
      by_cases h : other = other'
      · subst h
        simp
      · simp [h, Ne.symm h]

def Filled (c : Codex) : Prop := ∀ w, c.double.get? w ≠ some []

theorem filled_empty (v : Var) : Filled ⟨.empty, v⟩ := by
  intro w h
  cases h

theorem Filled.push {c : Codex} (h : c.Filled) (shape : Shape) (rid : RefId) :
    Filled ⟨c.toContent.push shape rid, c.id⟩ := by
  cases shape with
  | constraint => exact h
  | single => exact h
  | double other =>
    intro w
    simp only [Content.push, Content.pushDouble, OrderedMap.get?_insert]
    split
    · simp
    · exact h w

end Codex

/-- Where the filings of a variable of one shape stand. -/
def places (filed : List Filing) (v : Var) (shape : Shape) : List RefId :=
  (filed.zipIdx.filter fun x => x.1.owner = v ∧ x.1.shape = shape).map (·.2)

theorem mem_places {filed : List Filing} {v : Var} {shape : Shape} {rid : RefId} :
    rid ∈ places filed v shape ↔ ∃ f, filed[rid]? = some f ∧ f.owner = v ∧ f.shape = shape := by
  simp only [places, List.mem_map, List.mem_filter, List.mem_zipIdx_iff_getElem?, Prod.exists,
    decide_eq_true_eq]
  constructor
  · intro h
    obtain ⟨f, i, ⟨hget, hf⟩, rfl⟩ := h
    exact ⟨f, hget, hf⟩
  · intro h
    obtain ⟨f, hget, hf⟩ := h
    exact ⟨f, rid, ⟨hget, hf⟩, rfl⟩

theorem places_inj {filed : List Filing} {v v' : Var} {shape shape' : Shape} {rid : RefId}
    (h : rid ∈ places filed v shape) (h' : rid ∈ places filed v' shape') :
    v = v' ∧ shape = shape' := by
  obtain ⟨f, hf, rfl, rfl⟩ := mem_places.1 h
  obtain ⟨f', hf', rfl, rfl⟩ := mem_places.1 h'
  rw [hf] at hf'
  cases hf'
  exact ⟨rfl, rfl⟩

theorem places_append (filed : List Filing) (f : Filing) (v : Var) (shape : Shape) :
    places (filed ++ [f]) v shape =
      places filed v shape ++ if f.owner = v ∧ f.shape = shape then [filed.length] else [] := by
  simp only [places, List.zipIdx_append, List.filter_append, List.map_append, List.zipIdx_singleton]
  by_cases h : f.owner = v ∧ f.shape = shape <;> simp [h]

theorem places_nodup (filed : List Filing) (v : Var) (shape : Shape) :
    (places filed v shape).Nodup := by
  have hsub : (places filed v shape).Sublist (filed.zipIdx.map (·.2)) := List.filter_sublist.map _
  rw [List.zipIdx_map_snd] at hsub
  exact hsub.nodup List.nodup_range'

theorem places_eq_nil {filed : List Filing} {v : Var} (h : v ∉ filed.map (·.owner))
    (shape : Shape) :
    places filed v shape = [] := by
  rw [List.eq_nil_iff_forall_not_mem]
  intro rid hrid
  obtain ⟨f, hf, rfl, -⟩ := mem_places.1 hrid
  exact h (List.mem_map_of_mem (List.mem_of_getElem? hf))

theorem places_unique {filed : List Filing} {v v' : Var} {shape shape' : Shape} {i j : Nat}
    {rid : RefId} (h : (places filed v shape)[i]? = some rid)
    (h' : (places filed v' shape')[j]? = some rid) : v = v' ∧ shape = shape' ∧ i = j := by
  obtain ⟨rfl, rfl⟩ := places_inj (List.mem_of_getElem? h) (List.mem_of_getElem? h')
  have hlt := (List.getElem?_eq_some_iff.1 h).1
  exact ⟨rfl, rfl, (List.getElem?_inj hlt (places_nodup _ _ _)).1 (h.trans h'.symm)⟩

/-- One codex for each owner, in first-seen order, with the places of its filings in every group. -/
structure Holds (filed : List Filing) (codexes : List Codex) : Prop where
  ids : codexes.map (·.id) = (filed.map (·.owner)).eraseDups
  group : ∀ c ∈ codexes, ∀ shape, c.group shape = places filed c.id shape
  filled : ∀ c ∈ codexes, c.Filled

/-- One codex for each owner, in some order. -/
structure Covers (filed : List Filing) (codexes : List Codex) : Prop where
  nodup : (codexes.map (·.id)).Nodup
  mem_ids : ∀ v, v ∈ codexes.map (·.id) ↔ v ∈ filed.map (·.owner)
  group : ∀ c ∈ codexes, ∀ shape, c.group shape = places filed c.id shape
  filled : ∀ c ∈ codexes, c.Filled

theorem Holds.covers {filed : List Filing} {codexes : List Codex} (h : Holds filed codexes) :
    Covers filed codexes := by
  refine ⟨?_, fun v => ?_, h.group, h.filled⟩
  · rw [h.ids]
    exact nodup_eraseDups _
  · rw [h.ids, List.mem_eraseDups]

theorem Covers.get?_double {filed : List Filing} {codexes : List Codex} (h : Covers filed codexes)
    {c : Codex} (hc : c ∈ codexes) (w : Var) : c.double.get? w =
      if places filed c.id (.double w) = [] then none
        else some (places filed c.id (.double w)) := by
  have hfilled := h.filled c hc w
  rw [← h.group c hc, Codex.group]
  cases hget : c.double.get? w with
  | none => rfl
  | some l =>
    rw [hget] at hfilled
    have hne : l ≠ [] := fun hnil => hfilled (by rw [hnil])
    rw [Option.getD_some, if_neg hne]

theorem Covers.perm {filed : List Filing} {codexes codexes' : List Codex} (h : Covers filed codexes)
    (hp : codexes'.Perm codexes) : Covers filed codexes' := by
  have hids := hp.map (·.id)
  exact ⟨hids.nodup_iff.2 h.nodup, fun v => hids.mem_iff.trans (h.mem_ids v),
    fun c hc => h.group c (hp.mem_iff.1 hc), fun c hc => h.filled c (hp.mem_iff.1 hc)⟩

theorem Holds.group_codex {filed : List Filing} {m : CodexMap} (h : Holds filed m.codexes) (v : Var)
    (shape : Shape) : (m.codex v).group shape = places filed v shape := by
  by_cases hv : v ∈ m.ids
  · exact h.group _ (CodexMap.codex_mem_codexes hv) shape
  · rw [CodexMap.codex_of_not_mem hv, Codex.group_empty, places_eq_nil]
    rwa [← h.covers.mem_ids, CodexMap.map_id_codexes]

theorem Holds.filled_codex {filed : List Filing} {m : CodexMap} (h : Holds filed m.codexes)
    (v : Var) : (m.codex v).Filled := by
  by_cases hv : v ∈ m.ids
  · exact h.filled _ (CodexMap.codex_mem_codexes hv)
  · rw [CodexMap.codex_of_not_mem hv]
    exact Codex.filled_empty v

/-- The next reference joins the group that its filing names. -/
theorem Holds.push {filed : List Filing} {m : CodexMap} (h : Holds filed m.codexes) (f : Filing) :
    Holds (filed ++ [f]) (m.modify f.owner (·.push f.shape filed.length)).codexes := by
  refine ⟨?_, ?_, ?_⟩
  · have hids := h.ids
    rw [CodexMap.map_id_codexes] at hids
    rw [CodexMap.map_id_codexes, CodexMap.ids_modify, List.map_append, List.map_singleton,
      eraseDups_snoc, hids]
    simp only [List.mem_eraseDups]
  · intro c hc shape
    rw [places_append]
    obtain ⟨hm, hne⟩ | rfl := CodexMap.mem_codexes_modify.1 hc
    · rw [h.group c hm, if_neg fun hf => hne hf.1.symm, List.append_nil]
    · change Codex.group ⟨(m.codex f.owner).toContent.push _ _, (m.codex f.owner).id⟩ shape = _
      rw [Codex.group_push, h.group_codex]
      by_cases hs : f.shape = shape <;> simp [hs]
  · intro c hc
    obtain ⟨hm, -⟩ | rfl := CodexMap.mem_codexes_modify.1 hc
    · exact h.filled c hm
    · exact (h.filled_codex f.owner).push _ _

/-- A reference as it was filed. -/
def Reference.core (r : Reference) : Reference := { r with dual := none, cursor := none }

def Cores (filed : List Filing) (refs : List Reference) : Prop :=
  refs.map Reference.core = filed.map (·.reference)

theorem Cores.get {filed : List Filing} {refs : List Reference} (h : Cores filed refs) {rid : RefId}
    {f : Filing}
    (hf : filed[rid]? = some f) : ∃ r, refs[rid]? = some r ∧ r.core = f.reference := by
  have hmap := congrArg (·[rid]?) h
  simp only [List.getElem?_map, hf, Option.map_some] at hmap
  exact Option.map_eq_some_iff.1 hmap

theorem Cores.core_eq {filed : List Filing} {refs : List Reference} (h : Cores filed refs)
    {rid : RefId} {f : Filing} (hf : filed[rid]? = some f) {r : Reference}
    (hr : refs[rid]? = some r) :
    r.core = f.reference := by
  obtain ⟨r', hr', hcore⟩ := h.get hf
  rw [hr] at hr'
  cases hr'
  exact hcore

theorem Cores.length_eq {filed : List Filing} {refs : List Reference} (h : Cores filed refs) :
    refs.length = filed.length := by
  simpa using congrArg List.length h

theorem Cores.exists_filing {filed : List Filing} {refs : List Reference} (h : Cores filed refs)
    {rid : RefId} {r : Reference} (hr : refs[rid]? = some r) :
    ∃ f, filed[rid]? = some f ∧ r.core = f.reference := by
  have hlt : rid < filed.length := by
    rw [← h.length_eq]
    exact (List.getElem?_eq_some_iff.1 hr).1
  have hf := List.getElem?_eq_getElem hlt
  exact ⟨_, hf, h.core_eq hf hr⟩

/-- The references of a map are those of the filings, not yet probed, and its codexes hold them. -/
structure Filed (filed : List Filing) (m : CodexMap) : Prop where
  references : Cores filed m.references
  idle : ∀ r ∈ m.references, r.cursor = none
  codexes : Holds filed m.codexes
  probed : m.probed = false

namespace Filed

variable {filed : List Filing} {m : CodexMap}

theorem empty : Filed [] .empty := ⟨rfl, by simp [CodexMap.empty], ⟨rfl, nofun, nofun⟩, rfl⟩

theorem length_references (h : Filed filed m) : m.references.length = filed.length :=
  h.references.length_eq

theorem push (h : Filed filed m) (f : Filing) {r : Reference} (hcore : r.core = f.reference)
    (hidle : r.cursor = none) :
    Filed (filed ++ [f]) ({ m with references := m.references ++ [r] }.modify f.owner
      (·.push f.shape m.references.length)) := by
  refine ⟨?_, ?_, ?_, (CodexMap.probed_modify ..).trans h.probed⟩
  · have := h.references
    rw [Cores] at this ⊢
    simp [this, hcore]
  · intro x hx
    rw [CodexMap.references_modify] at hx
    cases List.mem_append.1 hx with
    | inl hx => exact h.idle x hx
    | inr hx => rw [List.mem_singleton.1 hx, hidle]
  · rw [h.length_references]
    have hcodexes : Holds filed { m with references := m.references ++ [r] }.codexes := h.codexes
    exact hcodexes.push f

end Filed

open Classified

theorem vars_eq (s : Statement) : (varPositions s).map (·.2) = s.vars := by
  obtain ⟨x, y, z⟩ := s
  cases x <;> cases y <;> cases z <;> rfl

theorem isGround_eq (s : Statement) : s.isGround = (varPositions s).isEmpty := by
  rw [Statement.isGround, ← vars_eq, List.isEmpty_map]

theorem isGround_iff {s : Statement} : s.isGround = true ↔ ∃ t : Triple Node, s = t.map .node := by
  rw [isGround_eq, List.isEmpty_iff]
  constructor
  · intro h
    cases form s with
    | ground t => exact ⟨t, rfl⟩
    | one u m n v => simp [varPositions_one] at h
    | repeated q a c =>
      have hlength := (varPositions_two q a a c).length_eq
      rw [h] at hlength
      cases hlength
    | pair q a b hab c =>
      have hlength := (varPositions_two q a b c).length_eq
      rw [h] at hlength
      cases hlength
    | allVars a b c => cases h
  · intro h
    obtain ⟨t, rfl⟩ := h
    rfl

theorem isOpen_iff (s : Statement) : s.IsOpen ↔ 2 < (varPositions s).length := by
  cases form s with
  | ground t =>
    refine iff_of_false (fun h => ?_) (by simp [varPositions_ground])
    cases h .subject
  | one u m n v =>
    refine iff_of_false (fun h => ?_) (by simp [varPositions_one])
    simpa [Term.isVar] using h (u.rotate 1)
  | repeated q a c =>
    refine iff_of_false (fun h => ?_) (by simp [(varPositions_two q a a c).length_eq])
    simpa [Term.isVar] using h q
  | pair q a b hab c =>
    refine iff_of_false (fun h => ?_) (by simp [(varPositions_two q a b c).length_eq])
    simpa [Term.isVar] using h q
  | allVars a b c =>
    refine iff_of_true (fun p => ?_) (Nat.lt_succ_self 2)
    cases p <;> rfl

/-- What is known of a classified pattern: the filings of its statements, and its ground
statements. -/
structure Describes (es : List (String × Nat × Statement)) (c : Classified) : Prop where
  filed : Filed (es.flatMap filings) c.codexMap
  constants : c.constants = (es.filter (·.2.2.isGround)).map fun e =>
    .plain e.1 e.2.1 .ground none none

theorem Describes.next {es : List (String × Nat × Statement)} {c : Classified}
    {e : String × Nat × Statement} (h : Describes es c) (hg : e.2.2.isGround = false) {m : CodexMap}
    (hm : Filed (es.flatMap filings ++ filings e) m) : Describes (es ++ [e]) ⟨c.constants, m⟩ := by
  refine ⟨?_, ?_⟩
  · rwa [List.flatMap_append, List.flatMap_singleton]
  · simp [h.constants, hg]

section

variable {es : List (String × Nat × Statement)} {c : Classified} {g : String} {i : Nat}
  {s : Statement}

theorem addStatement_ground (h : Describes es c) (hp : varPositions s = []) :
    ∃ c', addStatement c (g, i, s) = .ok c' ∧ Describes (es ++ [(g, i, s)]) c' := by
  have hf : filings (g, i, s) = [] := by simp [filings, hp]
  refine ⟨{ c with constants := c.constants ++ [.plain g i .ground none none] },
    by simp [addStatement, hp], ?_, ?_⟩
  · simpa [hf] using h.filed
  · simp [isGround_eq, hp, h.constants]

theorem addStatement_one (h : Describes es c) {u : Position} {v : Var}
    (hp : varPositions s = [(u, v)]) :
    ∃ c', addStatement c (g, i, s) = .ok c' ∧ Describes (es ++ [(g, i, s)]) c' := by
  let r := rotated g i s u
  have hf : filings (g, i, s) = [⟨v, .single, r⟩] := by simp [filings, hp, r]
  have hadd := h.filed.push (r := r) ⟨v, .single, r⟩ rfl rfl
  rw [← hf] at hadd
  refine ⟨_, ?_, h.next (by simp [isGround_eq, hp]) hadd⟩
  simp only [addStatement, hp]
  rfl

theorem addStatement_repeated (h : Describes es c) {p q : Position} {a : Var}
    (hp : varPositions s = [(p, a), (q, a)]) :
    ∃ c', addStatement c (g, i, s) = .ok c' ∧ Describes (es ++ [(g, i, s)]) c' := by
  have hground : s.isGround = false := by simp [isGround_eq, hp]
  cases hbetween : Permutation.between p q with
  | none =>
    have hf : filings (g, i, s) = [] := by simp [filings, hp, hbetween]
    exact ⟨c, by simp [addStatement, hp, hbetween],
      h.next hground (by simpa [hf] using h.filed)⟩
  | some perm =>
    let r := Reference.plain g i perm none (perm.constantPosition.map s.get)
    have hf : filings (g, i, s) = [⟨a, .constraint, r⟩] := by simp [filings, hp, hbetween, r]
    have hadd := h.filed.push (r := r) ⟨a, .constraint, r⟩ rfl rfl
    rw [← hf] at hadd
    refine ⟨_, ?_, h.next hground hadd⟩
    simp only [addStatement, hp, if_true, hbetween]
    rfl

theorem addStatement_pair (h : Describes es c) {p q : Position} {a b : Var} (hab : a ≠ b)
    (hp : varPositions s = [(p, a), (q, b)]) :
    ∃ c', addStatement c (g, i, s) = .ok c' ∧ Describes (es ++ [(g, i, s)]) c' := by
  have hf : filings (g, i, s) =
      [⟨a, .double b, rotated g i s p⟩, ⟨b, .double a, rotated g i s q⟩] := by
    simp [filings, hp, hab]
  let idA := c.codexMap.references.length
  have hfirst := h.filed.push (r := { rotated g i s p with dual := some (idA + 1) })
    ⟨a, .double b, rotated g i s p⟩ rfl rfl
  have hboth := hfirst.push (r := { rotated g i s q with dual := some idA })
    ⟨b, .double a, rotated g i s q⟩ rfl rfl
  rw [List.append_assoc, List.singleton_append, ← hf] at hboth
  refine ⟨_, ?_, h.next (by simp [isGround_eq, hp]) hboth⟩
  simp only [addStatement, hp, if_neg hab]
  rw [CodexMap.modify_with_references]
  simp [CodexMap.insertPair, CodexMap.insertDouble, Codex.Content.push, idA]

end

theorem addStatement_eq {es : List (String × Nat × Statement)} {c : Classified}
    (h : Describes es c) (e : String × Nat × Statement) :
    (e.2.2.IsOpen → addStatement c e = .error (.unrepresentable e.1 e.2.1)) ∧
      (¬ e.2.2.IsOpen → ∃ c', addStatement c e = .ok c' ∧ Describes (es ++ [e]) c') := by
  obtain ⟨g, i, s⟩ := e
  simp only [isOpen_iff]
  match hp : varPositions s with
  | [] => exact ⟨fun h2 => absurd h2 (by decide), fun _ => addStatement_ground h hp⟩
  | [(u, v)] => exact ⟨fun h2 => absurd h2 (by simp), fun _ => addStatement_one h hp⟩
  | [(p, a), (q, b)] =>
    refine ⟨fun h2 => absurd h2 (by simp), fun _ => ?_⟩
    by_cases hab : a = b
    · subst hab
      exact addStatement_repeated h hp
    · exact addStatement_pair h hab hp
  | x :: y :: z :: r =>
    refine ⟨fun _ => by simp [addStatement, hp], fun h2 => absurd ?_ h2⟩
    simp

/-- A listing is filed up to its first open statement. -/
theorem foldlM_addStatement {done : List (String × Nat × Statement)} {c : Classified}
    (h : Describes done c) (es : List (String × Nat × Statement)) :
    (∃ c', es.foldlM addStatement c = .ok c' ∧ (∀ e ∈ es, ¬ e.2.2.IsOpen) ∧
      Describes (done ++ es) c') ∨
      ∃ before e after, es = before ++ e :: after ∧ (∀ x ∈ before, ¬ x.2.2.IsOpen) ∧ e.2.2.IsOpen ∧
        es.foldlM addStatement c = .error (.unrepresentable e.1 e.2.1) := by
  induction es generalizing done c with
  | nil => exact .inl ⟨c, rfl, by simp, by simpa using h⟩
  | cons e es ih =>
    have hstep := addStatement_eq h e
    by_cases hopen : e.2.2.IsOpen
    · exact .inr ⟨[], e, es, rfl, by simp, hopen, by rw [List.foldlM_cons, hstep.1 hopen]; rfl⟩
    · obtain ⟨c₁, hrun, h₁⟩ := hstep.2 hopen
      have hfold : (e :: es).foldlM addStatement c = es.foldlM addStatement c₁ := by
        rw [List.foldlM_cons, hrun]
        rfl
      rw [hfold]
      obtain ⟨c', hrest, hnone, hd⟩ | ⟨before, x, after, rfl, hbefore, hx, herr⟩ := ih h₁
      · refine .inl ⟨c', hrest, ?_, by simpa using hd⟩
        simpa [hopen] using hnone
      · exact .inr ⟨e :: before, x, after, rfl, by simpa [hopen] using hbefore, hx, herr⟩

/-- A pattern is classified exactly if it has no open statement; otherwise the first one is
named. -/
theorem classify_eq (pattern : Dataset) :
    (∃ c, classify pattern = .ok c ∧ (∀ e ∈ pattern.toList, ¬ e.2.2.IsOpen) ∧
      Describes pattern.toList c) ∨
      ∃ before e after, pattern.toList = before ++ e :: after ∧ (∀ x ∈ before, ¬ x.2.2.IsOpen) ∧
        e.2.2.IsOpen ∧
        classify pattern = .error (.unrepresentable e.1 e.2.1) := by
  have hempty : Describes [] .empty := ⟨Filed.empty, rfl⟩
  exact foldlM_addStatement hempty pattern.toList

end TriplePlan
