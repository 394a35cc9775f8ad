import Mathlib.Algebra.BigOperators.Group.List.Basic
import Mathlib.Data.List.Forall2
import Mathlib.Data.Nat.Digits.Defs
import TriplePlan.Rdf.Escape

/-! Undoing the escapes of a text. Read from the left, a well-formed escape becomes its character;
any other character stays, a backslash too. -/
namespace TriplePlan

namespace Text

def HexDigit (c : Char) (k : Nat) : Prop := k < 16 ∧ c.toLower = Nat.digitChar k

def HexNumber (digits : List Char) (n : Nat) : Prop :=
  ∃ values, List.Forall₂ HexDigit digits values ∧ n = Nat.ofDigits 16 values.reverse

theorem toLower_eq_self {c : Char} (h : 128 ≤ c.toNat) : c.toLower = c := by
  have hupper : ¬ (c.val ≥ 'A'.val ∧ c.val ≤ 'Z'.val) := by
    intro hbounds
    have hle : c.toNat ≤ 'Z'.toNat := hbounds.2
    have hz : 'Z'.toNat < 128 := by decide
    omega
  exact dif_neg hupper

theorem HexDigit.toNat_lt {c : Char} {k : Nat} (h : HexDigit c k) : c.toNat < 128 := by
  have hsmall : ∀ k < 16, (Nat.digitChar k).toNat < 128 := by decide
  by_contra hlarge
  have heq : c = Nat.digitChar k := (toLower_eq_self (Nat.not_lt.1 hlarge)).symm.trans h.2
  exact hlarge (heq ▸ hsmall k h.1)

theorem HexDigit.ne {c : Char} {k : Nat} (h : HexDigit c k) : c ≠ '"' ∧ c ≠ '\\' := by
  have hne : ∀ k < 16, '"'.toLower ≠ Nat.digitChar k ∧ '\\'.toLower ≠ Nat.digitChar k := by decide
  obtain ⟨hk, hlower⟩ := h
  constructor
  · rintro rfl
    exact (hne k hk).1 hlower
  · rintro rfl
    exact (hne k hk).2 hlower

theorem hexValue?_bounds {c : Char} {k : Nat} (h : hexValue? c = some k) :
    c.toNat < 128 ∧ k < 16 := by
  have hle : ∀ a b : Char, a ≤ b ↔ a.toNat ≤ b.toNat := fun _ _ => Iff.rfl
  simp only [hexValue?, hle, Char.reduceToNat] at h
  grind

theorem hexValue?_eq_some_iff {c : Char} {k : Nat} : hexValue? c = some k ↔ HexDigit c k := by
  -- Digits of both kinds are ASCII, so there are only finitely many characters to compare.
  have hascii : ∀ n < 128, ∀ k < 16,
      hexValue? (Char.ofNat n) = some k ↔ (Char.ofNat n).toLower = Nat.digitChar k := by
    decide +kernel
  have hof : Char.ofNat c.toNat = c := c.ofNat_toNat
  constructor
  · intro h
    obtain ⟨hc, hk⟩ := hexValue?_bounds h
    rw [← hof, hascii _ hc k hk, hof] at h
    exact ⟨hk, h⟩
  · intro h
    have hread := hascii _ h.toNat_lt k h.1
    rw [hof] at hread
    exact hread.2 h.2

theorem foldlM_hexValue? {digits : List Char} {start n : Nat} :
    digits.foldlM (fun n c => (hexValue? c).map (n * 16 + ·)) start = some n ↔
      ∃ values, List.Forall₂ HexDigit digits values ∧
        values.foldl (fun n k => n * 16 + k) start = n := by
  induction digits generalizing start with
  | nil => simp
  | cons c digits ih =>
    rw [List.foldlM_cons]
    constructor
    · intro h
      obtain ⟨mid, hc, hrest⟩ := Option.bind_eq_some_iff.1 h
      obtain ⟨k, hk, rfl⟩ := Option.map_eq_some_iff.1 hc
      obtain ⟨values, hvalues, hn⟩ := ih.1 hrest
      exact ⟨k :: values, .cons (hexValue?_eq_some_iff.1 hk) hvalues, hn⟩
    · intro h
      obtain ⟨_, hvalues, hn⟩ := h
      cases hvalues with
      | cons hk hvalues =>
        rw [hexValue?_eq_some_iff.2 hk]
        exact ih.2 ⟨_, hvalues, hn⟩

theorem hexNumber?_eq_some_iff {digits : List Char} {n : Nat} :
    hexNumber? digits = some n ↔ HexNumber digits n := by
  have hfold : ∀ values : List Nat,
      values.foldl (fun n k => n * 16 + k) 0 = Nat.ofDigits 16 values.reverse := by
    intro values
    rw [Nat.ofDigits_eq_foldr, List.foldr_reverse]
    simp only [Nat.cast_id, Nat.mul_comm, Nat.add_comm]
  rw [hexNumber?, foldlM_hexValue?, HexNumber]
  simp only [hfold, eq_comm]

theorem HexNumber.exists_digit {digits : List Char} {n : Nat} (h : HexNumber digits n) :
    ∀ c ∈ digits, ∃ k, HexDigit c k := by
  obtain ⟨values, hvalues, -⟩ := h
  induction hvalues with
  | nil => simp
  | cons hk _ ih => exact List.forall_mem_cons.2 ⟨⟨_, hk⟩, ih⟩

end Text

namespace Rdf

def letters : List (Char × Char) :=
  [('n', '\n'), ('r', '\r'), ('t', '\t'), ('b', '\x08'), ('f', '\x0c'), ('"', '"'), ('\'', '\''),
    ('\\', '\\')]

/-- The escapes of a character: a letter, or its number in four or eight digits. -/
inductive Escape (c : Char) : List Char → Prop
  | letter {e : Char} (h : (e, c) ∈ letters) : Escape c ['\\', e]
  | short {digits : List Char} (hlength : digits.length = 4)
    (h : Text.HexNumber digits c.toNat) : Escape c ('\\' :: 'u' :: digits)
  | long {digits : List Char} (hlength : digits.length = 8)
    (h : Text.HexNumber digits c.toNat) : Escape c ('\\' :: 'U' :: digits)

theorem namedEscape?_eq_some_iff {e c : Char} : namedEscape? e = some c ↔ (e, c) ∈ letters := by
  constructor
  · intro h
    unfold namedEscape? at h
    split at h <;> cases h <;> decide
  · intro h
    simp only [letters, List.mem_cons, Prod.mk.injEq, List.not_mem_nil, or_false] at h
    rcases h with ⟨rfl, rfl⟩ | ⟨rfl, rfl⟩ | ⟨rfl, rfl⟩ | ⟨rfl, rfl⟩ | ⟨rfl, rfl⟩ | ⟨rfl, rfl⟩ |
      ⟨rfl, rfl⟩ | ⟨rfl, rfl⟩ <;> rfl

theorem scalar?_eq_some_iff {n : Nat} {c : Char} : scalar? n = some c ↔ n = c.toNat := by
  rw [scalar?]
  constructor
  · intro h
    split at h
    · rename_i hn
      cases h
      rw [Char.ofNat, dif_pos hn]
      rfl
    · cases h
  · rintro rfl
    have hvalid : c.toNat.isValidChar := c.valid
    rw [if_pos hvalid, c.ofNat_toNat]

theorem hexScalar?_eq_some_iff {digits : List Char} {c : Char} :
    hexScalar? digits = some c ↔ Text.HexNumber digits c.toNat := by
  rw [hexScalar?, Option.bind_eq_some_iff]
  simp only [scalar?_eq_some_iff, Text.hexNumber?_eq_some_iff, exists_eq_right]

theorem splitBytes?_eq_some_iff {n : Nat} {s front rest : List Char} :
    splitBytes? n s = some (front, rest) ↔
      s = front ++ rest ∧ (front.map Char.utf8Size).sum = n := by
  induction s generalizing n front with
  | nil =>
    rw [splitBytes?]
    cases front with
    | nil => cases rest <;> simp [eq_comm]
    | cons d front => simp
  | cons c s ih =>
    rw [splitBytes?]
    cases front with
    | nil => by_cases hn : n = 0 <;> simp [hn, eq_comm]
    | cons d front =>
      have hd : 0 < d.utf8Size := d.utf8Size_pos
      by_cases hn : n = 0
      · simp [hn]
        omega
      · simp only [if_neg hn]
        split
        · rw [Option.map_eq_some_iff]
          simp only [Prod.exists, Prod.mk.injEq, List.cons.injEq, List.map_cons, List.sum_cons,
            List.cons_append]
          grind
        · simp only [List.cons_append, List.cons.injEq, List.map_cons, List.sum_cons]
          grind

theorem sum_utf8Size {digits : List Char} {n : Nat} (h : Text.HexNumber digits n) :
    (digits.map Char.utf8Size).sum = digits.length := by
  have hone : ∀ c ∈ digits, c.utf8Size = 1 := by
    intro c hc
    obtain ⟨k, hk⟩ := h.exists_digit c hc
    have hlt := hk.toNat_lt
    exact Char.utf8Size_eq_one_iff.2 (UInt32.le_iff_toNat_le.2 (Nat.le_of_lt_succ hlt))
  rw [List.map_eq_replicate_iff.2 hone, List.sum_replicate_nat, Nat.mul_one]

theorem numberedEscape?_eq_some_iff {letter c : Char} {s rest : List Char} :
    numberedEscape? letter s = some (c, rest) ↔
      ∃ digits, s = digits ++ rest ∧ Text.HexNumber digits c.toNat ∧
        escapeWidth letter ≠ 0 ∧ digits.length = escapeWidth letter := by
  rw [numberedEscape?]
  split
  · rename_i hwidth
    simp [hwidth]
  · rename_i hwidth
    constructor
    · intro h
      obtain ⟨⟨digits, rest'⟩, hsplit, hread⟩ := Option.bind_eq_some_iff.1 h
      obtain ⟨c', hc, heq⟩ := Option.bind_eq_some_iff.1 hread
      cases heq
      obtain ⟨hs, hsum⟩ := splitBytes?_eq_some_iff.1 hsplit
      have hnumber := hexScalar?_eq_some_iff.1 hc
      exact ⟨digits, hs, hnumber, hwidth, (sum_utf8Size hnumber).symm.trans hsum⟩
    · intro h
      obtain ⟨digits, rfl, hnumber, -, hlength⟩ := h
      have hsplit : splitBytes? (escapeWidth letter) (digits ++ rest) = some (digits, rest) :=
        splitBytes?_eq_some_iff.2 ⟨rfl, (sum_utf8Size hnumber).trans hlength⟩
      have hread : hexScalar? digits = some c := hexScalar?_eq_some_iff.2 hnumber
      exact Option.bind_eq_some_iff.2 ⟨(digits, rest), hsplit,
        Option.bind_eq_some_iff.2 ⟨c, hread, rfl⟩⟩

theorem unescape_nil : unescape [] = [] := by
  rw [unescape]
  rfl

theorem unescape_mark : unescape ['\\'] = ['\\'] := by
  rw [unescape]
  rfl

theorem unescape_read (letter : Char) (tail : List Char) :
    unescape ('\\' :: letter :: tail) =
      (readEscape letter tail).1 :: unescape (readEscape letter tail).2 := by
  rw [unescape]
  rfl

theorem unescape_cons {c : Char} (hc : c ≠ '\\') (s : List Char) :
    unescape (c :: s) = c :: unescape s := by
  have htake : (c :: s).takeWhile (· ≠ '\\') = c :: s.takeWhile (· ≠ '\\') := by
    simp [hc]
  have hdrop : (c :: s).dropWhile (· ≠ '\\') = s.dropWhile (· ≠ '\\') := by
    simp [hc]
  rw [unescape, unescape.eq_1 s, htake, List.cons_append, hdrop]

theorem readEscape_of_escape {c letter : Char} {digits : List Char}
    (h : Escape c ('\\' :: letter :: digits)) (r : List Char) :
    readEscape letter (digits ++ r) = (c, r) := by
  rw [readEscape]
  cases h with
  | letter h =>
    rw [namedEscape?_eq_some_iff.2 h]
    rfl
  | short hlength h =>
    have hread : numberedEscape? 'u' (digits ++ r) = some (c, r) :=
      numberedEscape?_eq_some_iff.2 ⟨digits, rfl, h, by decide, hlength⟩
    simp [namedEscape?, hread]
  | long hlength h =>
    have hread : numberedEscape? 'U' (digits ++ r) = some (c, r) :=
      numberedEscape?_eq_some_iff.2 ⟨digits, rfl, h, by decide, hlength⟩
    simp [namedEscape?, hread]

theorem escapeWidth_cases (letter : Char) :
    letter = 'u' ∨ letter = 'U' ∨ escapeWidth letter = 0 := by
  unfold escapeWidth
  split
  · exact .inl rfl
  · exact .inr (.inl rfl)
  · exact .inr (.inr rfl)

/-- Either an escape stands at the backslash, or the backslash stands for itself. -/
theorem readEscape_cases (letter : Char) (tail : List Char) :
    (∃ digits, tail = digits ++ (readEscape letter tail).2 ∧
      Escape (readEscape letter tail).1 ('\\' :: letter :: digits)) ∨
    readEscape letter tail = ('\\', letter :: tail) := by
  rw [readEscape]
  split
  · rename_i c hnamed
    exact .inl ⟨[], rfl, .letter (namedEscape?_eq_some_iff.1 hnamed)⟩
  · cases hread : numberedEscape? letter tail with
    | none => exact .inr rfl
    | some x =>
      obtain ⟨digits, htail, hnumber, hwidth, hlength⟩ := numberedEscape?_eq_some_iff.1 hread
      refine .inl ⟨digits, htail, ?_⟩
      obtain rfl | rfl | hzero := escapeWidth_cases letter
      · exact .short hlength hnumber
      · exact .long hlength hnumber
      · exact absurd hzero hwidth

theorem Escape.exists_letter {c : Char} {e : List Char} (h : Escape c e) :
    ∃ letter digits, e = '\\' :: letter :: digits := by
  cases h with
  | letter => exact ⟨_, _, rfl⟩
  | short => exact ⟨_, _, rfl⟩
  | long => exact ⟨_, _, rfl⟩

theorem unescape_escape {c : Char} {e : List Char} (h : Escape c e) (r : List Char) :
    unescape (e ++ r) = c :: unescape r := by
  obtain ⟨letter, digits, rfl⟩ := h.exists_letter
  have hread := readEscape_of_escape h r
  rw [List.cons_append, List.cons_append, unescape_read, hread]

theorem unescape_copy {c : Char} {r : List Char} (h : ∀ x e, Escape x e → ¬ e <+: c :: r) :
    unescape (c :: r) = c :: unescape r := by
  by_cases hc : c = '\\'
  · subst hc
    cases r with
    | nil => rw [unescape_mark, unescape_nil]
    | cons letter tail =>
      rw [unescape_read]
      obtain ⟨digits, htail, hescape⟩ | hself := readEscape_cases letter tail
      · refine absurd ?_ (h _ _ hescape)
        exact ⟨_, congrArg (fun s => '\\' :: letter :: s) htail.symm⟩
      · rw [hself]
  · exact unescape_cons hc r

/-- A text is read from the left. An escape becomes its character; where none starts, one character
is copied. -/
inductive Translates : List Char → List Char → Prop
  | nil : Translates [] []
  | escape {x : Char} {e r t : List Char} (h : Escape x e) (hr : Translates r t) :
    Translates (e ++ r) (x :: t)
  | copy {c : Char} {r t : List Char} (h : ∀ x e, Escape x e → ¬ e <+: c :: r)
    (hr : Translates r t) : Translates (c :: r) (c :: t)

theorem Translates.eq {s t : List Char} (h : Translates s t) : unescape s = t := by
  induction h with
  | nil => exact unescape_nil
  | escape h _ ih => rw [unescape_escape h, ih]
  | copy h _ ih => rw [unescape_copy h, ih]

theorem translates_unescape (s : List Char) : Translates s (unescape s) := by
  -- By length and not by character, since an escape is passed over as a whole.
  induction hn : s.length using Nat.strongRecOn generalizing s with
  | ind n ih =>
    subst hn
    cases s with
    | nil =>
      rw [unescape_nil]
      exact .nil
    | cons c r =>
      by_cases h : ∃ x e, Escape x e ∧ e <+: c :: r
      · obtain ⟨x, e, he, rest, hs⟩ := h
        obtain ⟨letter, digits, hshape⟩ := he.exists_letter
        have hlt : rest.length < (c :: r).length := by
          rw [← hs, hshape]
          simp
          omega
        rw [← hs, unescape_escape he]
        exact .escape he (ih _ hlt rest rfl)
      · have hcopy : ∀ x e, Escape x e → ¬ e <+: c :: r := fun x e he hp => h ⟨x, e, he, hp⟩
        rw [unescape_copy hcopy]
        exact .copy hcopy (ih _ (Nat.lt_succ_self _) r rfl)

theorem Translates.self {s : List Char} (h : ∀ x e, Escape x e → ¬ e <:+: s) :
    Translates s s := by
  induction s with
  | nil => exact .nil
  | cons c r ih =>
    have hcopy : ∀ x e, Escape x e → ¬ e <+: c :: r := fun x e he hp => h x e he hp.isInfix
    exact .copy hcopy (ih fun x e he hp => h x e he (hp.trans (List.suffix_cons c r).isInfix))

/-- Undoing escapes is the translation from the left, for every text. Only escapes change. -/
theorem unescape_translates (s : List Char) :
    (∀ t, Translates s t ↔ unescape s = t) ∧
    ((∀ x e, Escape x e → ¬ e <:+: s) → unescape s = s) := by
  constructor
  · intro t
    constructor
    · intro h
      exact h.eq
    · intro h
      rw [← h]
      exact translates_unescape s
  · intro h
    exact (Translates.self h).eq

theorem unescape_translates_malformed :
    Translates "\\u12\\n\\\\u0041\\u12é4\\uD800\\u0041B\\".toList
      "\\u12\n\\u0041\\u12é4\\uD800AB\\".toList :=
  ((unescape_translates _).1 _).2 (by decide +kernel)

end Rdf
end TriplePlan
