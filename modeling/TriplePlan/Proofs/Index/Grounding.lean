import TriplePlan.Proofs.Index.Documents

/-! The identifier that a blank node of a document stands for is the name of the document and the
label of the node with a mark between them. Where the mark occurs once it tells both; where a name
or a label holds it too, two documents may mean the same identifier by different blank nodes. -/
namespace TriplePlan.Index

def mark : List Char := ['#', '_', ':']

theorem mark_append_eq {gap b d : List Char} (h : mark ++ b = gap ++ (mark ++ d)) :
    (gap = [] ∧ b = d) ∨ ∃ x, gap = mark ++ x ∧ b = x ++ (mark ++ d) := by
  match gap with
  | [] => exact .inl ⟨rfl, List.append_cancel_left h⟩
  | [_] => simp [mark] at h
  | [_, _] => simp [mark] at h
  | _ :: _ :: _ :: x =>
    simp only [mark, List.cons_append, List.nil_append, List.cons.injEq] at h
    obtain ⟨rfl, rfl, rfl, rfl⟩ := h
    exact .inr ⟨x, rfl, rfl⟩

theorem append_mark_eq_iff {a b c d : List Char} : a ++ (mark ++ b) = c ++ (mark ++ d) ↔
    (a = c ∧ b = d) ∨ (∃ x, c = a ++ (mark ++ x) ∧ b = x ++ (mark ++ d)) ∨
      ∃ x, a = c ++ (mark ++ x) ∧ d = x ++ (mark ++ b) := by
  constructor
  · intro h
    obtain ⟨gap, rfl, hgap⟩ | ⟨gap, rfl, hgap⟩ := List.append_eq_append_iff.1 h
    · obtain ⟨rfl, rfl⟩ | ⟨x, rfl, rfl⟩ := mark_append_eq hgap
      · exact .inl ⟨(List.append_nil a).symm, rfl⟩
      · exact .inr (.inl ⟨x, rfl, rfl⟩)
    · obtain ⟨rfl, rfl⟩ | ⟨x, rfl, rfl⟩ := mark_append_eq hgap
      · exact .inl ⟨List.append_nil c, rfl⟩
      · exact .inr (.inr ⟨x, rfl, rfl⟩)
  · rintro (⟨rfl, rfl⟩ | ⟨x, rfl, rfl⟩ | ⟨x, rfl, rfl⟩)
    · rfl
    · simp only [List.append_assoc]
    · simp only [List.append_assoc]

def Marked (text : String) : Prop := ∃ x y, text = x ++ "#_:" ++ y

/-- The other name goes on behind the first one with a mark and a text that the first label starts
with, so that a mark of the label falls on the one behind the other name. -/
def Straddles (document label other otherLabel : String) : Prop :=
  ∃ x, other = document ++ "#_:" ++ x ∧ label = x ++ "#_:" ++ otherLabel

theorem Straddles.marked {document label other otherLabel : String}
    (h : Straddles document label other otherLabel) : Marked other ∧ Marked label := by
  obtain ⟨x, hother, hlabel⟩ := h
  exact ⟨⟨document, x, hother⟩, ⟨x, otherLabel, hlabel⟩⟩

theorem toList_marked (x y : String) :
    (x ++ "#_:" ++ y).toList = x.toList ++ (mark ++ y.toList) := by
  rw [String.toList_append, String.toList_append, List.append_assoc]
  rfl

theorem Marked.mem {text : String} (h : Marked text) : '#' ∈ text.toList := by
  obtain ⟨x, y, rfl⟩ := h
  simp

theorem straddles_iff {document label other otherLabel : String} :
    Straddles document label other otherLabel ↔
      ∃ x, other.toList = document.toList ++ (mark ++ x) ∧
        label.toList = x ++ (mark ++ otherLabel.toList) := by
  simp only [Straddles, ← String.toList_inj, toList_marked]
  constructor
  · rintro ⟨x, hother, hlabel⟩
    exact ⟨x.toList, hother, hlabel⟩
  · rintro ⟨x, hother, hlabel⟩
    exact ⟨String.ofList x, by rwa [String.toList_ofList], by rwa [String.toList_ofList]⟩

/-- Two blank nodes are one stored node if they have the document and the label in common, or if one
name and label straddle the other. -/
theorem groundTerm_var_eq_iff {document other : String} {v w : Var} :
    groundTerm document (.var v) = groundTerm other (.var w) ↔
      (document = other ∧ v = w) ∨ Straddles document v.label other w.label ∨
        Straddles other w.label document v.label := by
  have hvar : v = w ↔ v.label = w.label := by
    cases v
    cases w
    exact Var.mk.injEq _ _ ▸ Iff.rfl
  rw [groundTerm, groundTerm, Node.iri.injEq, ← String.toList_inj, toList_marked, toList_marked,
    append_mark_eq_iff, straddles_iff, straddles_iff, String.toList_inj, String.toList_inj, hvar]

/-- A blank node tells its document and its label where no two labels, or no two names, hold the
mark. In general the blank nodes of two documents are the same stored node exactly if they are the
same node of the same document, or one name and label straddle the other. So it is with the triples
of their statements: documents of different names share a blank node only by straddling. -/
theorem blanks_scoped (c d : Document) (v w : Var) :
    (groundTerm c.name (.var v) = groundTerm d.name (.var w) ↔
      (c.name = d.name ∧ v = w) ∨ Straddles c.name v.label d.name w.label ∨
        Straddles d.name w.label c.name v.label) ∧
    ((¬ Marked v.label ∧ ¬ Marked w.label) ∨ (¬ Marked c.name ∧ ¬ Marked d.name) →
      (groundTerm c.name (.var v) = groundTerm d.name (.var w) ↔ c.name = d.name ∧ v = w)) ∧
    (c.name ≠ d.name → ∀ e ∈ c.dataset.toList, ∀ f ∈ d.dataset.toList, ∀ p q,
      e.2.2.get p = .var v → f.2.2.get q = .var w →
      ((ground c.name e.2.2).get p = (ground d.name f.2.2).get q ↔
        Straddles c.name v.label d.name w.label ∨ Straddles d.name w.label c.name v.label)) := by
  refine ⟨groundTerm_var_eq_iff, fun hmarks => ?_, fun hname e _ f _ p q hv hw => ?_⟩
  · have hleft : ¬ Straddles c.name v.label d.name w.label := fun h =>
      hmarks.elim (fun hm => hm.1 h.marked.2) fun hm => hm.2 h.marked.1
    have hright : ¬ Straddles d.name w.label c.name v.label := fun h =>
      hmarks.elim (fun hm => hm.2 h.marked.2) fun hm => hm.1 h.marked.1
    rw [groundTerm_var_eq_iff, or_iff_left (not_or.2 ⟨hleft, hright⟩)]
  · rw [ground, ground, Triple.get_map, Triple.get_map, hv, hw, groundTerm_var_eq_iff,
      or_iff_right fun h => hname h.1]

def longLabel : Document :=
  ⟨"a", .ofStatements [⟨.var ⟨"b#_:c"⟩, .node (.iri "p"), .node (.iri "o")⟩]⟩

def longName : Document :=
  ⟨"a#_:b", .ofStatements [⟨.var ⟨"c"⟩, .node (.iri "p"), .node (.iri "o")⟩]⟩

theorem blanks_scoped_longLabel :
    groundTerm longLabel.name (.var ⟨"c"⟩) ≠ groundTerm longName.name (.var ⟨"c"⟩) ∧
    (ground longLabel.name ⟨.var ⟨"b#_:c"⟩, .node (.iri "p"), .node (.iri "o")⟩).get .subject =
      (ground longName.name ⟨.var ⟨"c"⟩, .node (.iri "p"), .node (.iri "o")⟩).get .subject := by
  have hname : longLabel.name ≠ longName.name := by decide
  have hlabel : ¬ Marked "c" := fun h => absurd h.mem (by decide)
  constructor
  · intro hsame
    have hscoped := (blanks_scoped longLabel longName ⟨"c"⟩ ⟨"c"⟩).2.1 (.inl ⟨hlabel, hlabel⟩)
    exact hname (hscoped.1 hsame).1
  · exact ((blanks_scoped longLabel longName ⟨"b#_:c"⟩ ⟨"c"⟩).2.2 hname
      ("@default", 0, ⟨.var ⟨"b#_:c"⟩, .node (.iri "p"), .node (.iri "o")⟩) (by decide)
      ("@default", 0, ⟨.var ⟨"c"⟩, .node (.iri "p"), .node (.iri "o")⟩) (by decide)
      .subject .subject rfl rfl).2 (.inl ⟨"b", by decide, by decide⟩)

/-- Two documents of different names whose blank nodes, of different labels, are one stored node:
the second document has nothing new. -/
theorem blanks_shared :
    longLabel.name ≠ longName.name ∧
    groundTerm longLabel.name (.var ⟨"b#_:c"⟩) = groundTerm longName.name (.var ⟨"c"⟩) ∧
    ((Store.ofDocuments [longLabel]).index longName.name longName.dataset).1 = .ok ⟨1, 0⟩ := by
  decide +kernel

end TriplePlan.Index
