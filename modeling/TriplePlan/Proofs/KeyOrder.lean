import TriplePlan.Proofs.Key

/-! Byte forms stand in the order of their nodes, whatever follows them: a marked zero byte is above
the end of a text and below every other byte, so that texts are compared before what stands behind
them. Of two literals with the same text the one with fewer annotations comes first. -/
namespace TriplePlan

namespace Node

def annotationKind : Option String → Option String → Nat
  | none, none => 0
  | none, some _ => 1
  | some _, none => 2
  | some _, some _ => 3

/-- IRIs before literals; literals by value, then by the annotations they have, then by language,
then by datatype. -/
def keyCmp : Node → Node → Ordering
  | .iri a, .iri b => Text.cmp a b
  | .iri _, .literal .. => .lt
  | .literal .., .iri _ => .gt
  | .literal v d l, .literal v' d' l' =>
    (Text.cmp v v').then ((compare (annotationKind d l) (annotationKind d' l')).then
      ((cmpOptional l l').then (cmpOptional d d')))

/-- A literal with a datatype and a language. -/
def HasBothAnnotations (x : Node) : Prop :=
  ∃ value datatype language, x = .literal value (some datatype) (some language)

theorem isSome_of_annotationKind {d l d' l' : Option String}
    (h : annotationKind d l = annotationKind d' l') :
    l.isSome = l'.isSome ∧ d.isSome = d'.isSome := by
  revert h
  cases d <;> cases l <;> cases d' <;> cases l' <;> simp [annotationKind]

theorem cmpOptional_eq_iff {a b : Option String} : cmpOptional a b = .eq ↔ a = b := by
  cases a <;> cases b <;> simp [cmpOptional]

theorem keyCmp_eq_iff {a b : Node} : a.keyCmp b = .eq ↔ a = b := by
  cases a with
  | iri a => cases b <;> simp [keyCmp]
  | literal v d l =>
    cases b with
    | iri b => simp [keyCmp]
    | literal v' d' l' =>
      simp only [keyCmp, Ordering.then_eq_eq, cmpOptional_eq_iff, literal.injEq,
        Std.LawfulEqCmp.compare_eq_iff_eq]
      constructor
      · intro h
        exact ⟨h.1, h.2.2.2, h.2.2.1⟩
      · intro h
        obtain ⟨rfl, rfl, rfl⟩ := h
        simp

theorem compare_annotations {d l d' l' : Option String} (h : d = none ∨ l = none)
    (h' : d' = none ∨ l' = none) :
    (compare (annotationKind d l) (annotationKind d' l')).then
        ((cmpOptional l l').then (cmpOptional d d')) =
      (cmpOptional d d').then (cmpOptional l l') := by
  obtain rfl | rfl := h
  · obtain rfl | rfl := h'
    · cases l with
      | none => cases l' <;> rfl
      | some l =>
        cases l' with
        | none => rfl
        | some l' => simp [annotationKind, cmpOptional]
    · cases l <;> cases d' <;> rfl
  · obtain rfl | rfl := h'
    · cases d <;> cases l' <;> rfl
    · cases d with
      | none => cases d' <;> rfl
      | some d =>
        cases d' with
        | none => rfl
        | some d' => simp [annotationKind, cmpOptional]

/-- The two orders part only where a literal has both annotations. -/
theorem keyCmp_eq_cmp {a b : Node} (ha : ¬ a.HasBothAnnotations) (hb : ¬ b.HasBothAnnotations) :
    a.keyCmp b = a.cmp b := by
  have hone : ∀ {v d l}, ¬ (literal v d l).HasBothAnnotations → d = none ∨ l = none := by
    intro v d l h
    cases d with
    | none => exact .inl rfl
    | some d =>
      cases l with
      | none => exact .inr rfl
      | some l => exact absurd ⟨v, d, l, rfl⟩ h
  cases a with
  | iri a => cases b <;> rfl
  | literal v d l =>
    cases b with
    | iri b => rfl
    | literal v' d' l' => rw [keyCmp, cmp, compare_annotations (hone ha) (hone hb)]

end Node

namespace Key

theorem compare_zero_left {b : UInt8} (h : b ≠ 0x00) : compare 0x00 b = .lt := by
  rw [Std.compare_eq_lt, UInt8.lt_iff_toNat_lt]
  have hne : b.toNat ≠ 0 := fun h0 => h (UInt8.toNat_inj.1 h0)
  exact Nat.pos_of_ne_zero hne

theorem compare_zero_right {b : UInt8} (h : b ≠ 0x00) : compare b 0x00 = .gt :=
  Std.OrientedCmp.gt_of_lt (compare_zero_left h)

/-- Marked and ended texts are compared as their bytes are; equal ones leave it to what follows. -/
theorem compare_escape (x y r s : Bytes) :
    compare (escape x ++ r) (escape y ++ s) = (compare x y).then (compare r s) := by
  -- The byte behind a zero byte tells a mark from the end.
  have hend : compare (0x00 : UInt8) 0xff = .lt := compare_zero_left (by decide)
  induction x generalizing y with
  | nil =>
    cases y with
    | nil => simp [escape, List.compare_cons_cons]
    | cons b y =>
      by_cases hb : b = 0x00
      · simp [escape, hb, List.compare_cons_cons, hend]
      · simp [escape, hb, List.compare_cons_cons, compare_zero_left hb]
  | cons a x ih =>
    cases y with
    | nil =>
      by_cases ha : a = 0x00
      · simp [escape, ha, List.compare_cons_cons, Std.OrientedCmp.gt_of_lt hend]
      · simp [escape, ha, List.compare_cons_cons, compare_zero_right ha]
    | cons b y =>
      by_cases ha : a = 0x00
      · by_cases hb : b = 0x00
        · simp [escape, ha, hb, List.compare_cons_cons, ih]
        · simp [escape, ha, hb, List.compare_cons_cons, compare_zero_left hb]
      · by_cases hb : b = 0x00
        · simp [escape, ha, hb, List.compare_cons_cons, compare_zero_right ha]
        · simp [escape, ha, hb, List.compare_cons_cons, ih, Ordering.then_assoc]

theorem compare_encodeText (a b : String) (r s : Bytes) :
    compare (encodeText a ++ r) (encodeText b ++ s) = (Text.cmp a b).then (compare r s) :=
  compare_escape _ _ r s

def encodeOptional : Option String → Bytes
  | none => []
  | some text => encodeText text

theorem encodeAnnotations_eq (d l : Option String) :
    encodeAnnotations d l =
      UInt8.ofNat (Node.annotationKind d l) :: (encodeOptional l ++ encodeOptional d) := by
  cases d <;> cases l <;> simp [encodeAnnotations, Node.annotationKind, encodeOptional]

theorem compare_encodeOptional {a b : Option String} (h : a.isSome = b.isSome) (r s : Bytes) :
    compare (encodeOptional a ++ r) (encodeOptional b ++ s) =
      (Node.cmpOptional a b).then (compare r s) := by
  cases a with
  | none =>
    cases b with
    | none => rfl
    | some b => cases h
  | some a =>
    cases b with
    | none => cases h
    | some b => exact compare_encodeText a b r s

theorem compare_encodeAnnotations (d l d' l' : Option String) (r s : Bytes) :
    compare (encodeAnnotations d l ++ r) (encodeAnnotations d' l' ++ s) =
      ((compare (Node.annotationKind d l) (Node.annotationKind d' l')).then
        ((Node.cmpOptional l l').then (Node.cmpOptional d d'))).then (compare r s) := by
  have hkind : compare (UInt8.ofNat (Node.annotationKind d l))
      (UInt8.ofNat (Node.annotationKind d' l')) =
        compare (Node.annotationKind d l) (Node.annotationKind d' l') := by
    cases d <;> cases l <;> cases d' <;> cases l' <;> rfl
  rw [encodeAnnotations_eq, encodeAnnotations_eq, List.cons_append, List.cons_append,
    List.compare_cons_cons, hkind]
  cases hc : compare (Node.annotationKind d l) (Node.annotationKind d' l') with
  | lt => rfl
  | gt => rfl
  | eq =>
    have hsame := Node.isSome_of_annotationKind (Nat.compare_eq_eq.1 hc)
    rw [List.append_assoc, List.append_assoc, compare_encodeOptional hsame.1,
      compare_encodeOptional hsame.2, Ordering.eq_then, Ordering.eq_then, Ordering.then_assoc]

theorem compare_encodeNode (a b : Node) (r s : Bytes) :
    compare (encodeNode a ++ r) (encodeNode b ++ s) = (a.keyCmp b).then (compare r s) := by
  have htag : compare iriTag literalTag = .lt := by decide
  cases a with
  | iri a =>
    cases b with
    | iri b => simp [encodeNode, Node.keyCmp, List.compare_cons_cons, compare_encodeText]
    | literal v' d' l' => simp [encodeNode, Node.keyCmp, List.compare_cons_cons, htag]
  | literal v d l =>
    cases b with
    | iri b =>
      simp [encodeNode, Node.keyCmp, List.compare_cons_cons, Std.OrientedCmp.gt_of_lt htag]
    | literal v' d' l' =>
      simp [encodeNode, Node.keyCmp, List.compare_cons_cons, compare_encodeText,
        compare_encodeAnnotations, Ordering.then_assoc]

/-- Different nodes decide the order of whatever starts with their byte forms. Where no literal has
both annotations it is the order of nodes itself. -/
theorem compare_encodeNode_of_ne (a b : Node) (h : a ≠ b) (r s : Bytes) :
    compare (encodeNode a ++ r) (encodeNode b ++ s) = a.keyCmp b ∧
      (¬ a.HasBothAnnotations → ¬ b.HasBothAnnotations →
        compare (encodeNode a ++ r) (encodeNode b ++ s) = a.cmp b) := by
  have hkey : compare (encodeNode a ++ r) (encodeNode b ++ s) = a.keyCmp b := by
    rw [compare_encodeNode]
    cases hc : a.keyCmp b with
    | lt => rfl
    | eq => exact absurd (Node.keyCmp_eq_iff.1 hc) h
    | gt => rfl
  refine ⟨hkey, fun ha hb => ?_⟩
  rw [hkey, Node.keyCmp_eq_cmp ha hb]

theorem compare_encodeNode_of_ne_zeroByte :
    let a := Node.literal "a" (some "z") none
    let b := Node.literal "a\x00" none none
    a ≠ b ∧ ¬ a.HasBothAnnotations ∧ ¬ b.HasBothAnnotations ∧
      compare (encodeNode a ++ [0xff]) (encodeNode b) = .lt := by
  intro a b
  have hne : a ≠ b := by decide
  have ha : ¬ a.HasBothAnnotations := by simp [a, Node.HasBothAnnotations]
  have hb : ¬ b.HasBothAnnotations := by simp [b, Node.HasBothAnnotations]
  have hcmp : a.cmp b = .lt := by decide +kernel
  have horder := (compare_encodeNode_of_ne a b hne [0xff] []).2 ha hb
  rw [List.append_nil, hcmp] at horder
  exact ⟨hne, ha, hb, horder⟩

example : (Node.literal "x" (some "b") none).keyCmp (.literal "x" (some "a") (some "en")) = .lt ∧
    (Node.literal "x" (some "b") none).cmp (.literal "x" (some "a") (some "en")) = .gt := by
  decide +kernel

end Key

end TriplePlan
