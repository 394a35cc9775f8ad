import TriplePlan.Proofs.Rdf.Escape
import TriplePlan.Rdf.TermText

/-! Literals read back. The search for the closing quote and the reading of escapes see the same
spellings, so each way to write a value gives that value. -/
namespace TriplePlan

namespace Text

theorem dropWhile_isBlank {s : List Char} (h : ∀ c ∈ s.head?, isBlank c = false) :
    s.dropWhile isBlank = s := by
  cases s with
  | nil => rfl
  | cons c s => exact List.dropWhile_cons_of_neg (by simp [h c rfl])

theorem trim_eq_self {s : List Char} (hfront : ∀ c ∈ s.head?, isBlank c = false)
    (hback : ∀ c ∈ s.getLast?, isBlank c = false) : trim s = s := by
  rw [trim, dropWhile_isBlank hfront, dropWhile_isBlank, List.reverse_reverse]
  rwa [List.head?_reverse]

end Text

namespace Rdf

/-- The ways to write a character of a literal: as it is, if it is neither a quote nor a backslash,
or as an escape. -/
inductive Spelling (c : Char) : List Char → Prop
  | plain (hquote : c ≠ '"') (hmark : c ≠ '\\') : Spelling c [c]
  | escape {e : List Char} (h : Escape c e) : Spelling c e

theorem unescape_spelling {c : Char} {e : List Char} (h : Spelling c e) (r : List Char) :
    unescape (e ++ r) = c :: unescape r := by
  cases h with
  | plain _ hmark => exact unescape_cons hmark r
  | escape h => exact unescape_escape h r

theorem unescape_flatten {v : List Char} {spellings : List (List Char)}
    (h : List.Forall₂ Spelling v spellings) : unescape spellings.flatten = v := by
  induction h with
  | nil => exact unescape_nil
  | cons hc _ ih => rw [List.flatten_cons, unescape_spelling hc, ih]

theorem splitQuoted_plain {front : List Char} (h : ∀ c ∈ front, c ≠ '"' ∧ c ≠ '\\')
    (r : List Char) :
    splitQuoted false (front ++ r) = (splitQuoted false r).map fun x => (front ++ x.1, x.2) := by
  induction front with
  | nil => simp
  | cons c front ih =>
    obtain ⟨⟨hquote, hmark⟩, hfront⟩ := List.forall_mem_cons.1 h
    simp [splitQuoted, hquote, hmark, ih hfront, Function.comp_def]

theorem splitQuoted_mark (letter : Char) (r : List Char) :
    splitQuoted false ('\\' :: letter :: r) =
      (splitQuoted false r).map fun x => ('\\' :: letter :: x.1, x.2) := by
  simp [splitQuoted, Function.comp_def]

/-- The search for the closing quote passes over an escape as a whole: digits are neither quotes nor
backslashes. -/
theorem splitQuoted_escape {c : Char} {e : List Char} (h : Escape c e) (r : List Char) :
    splitQuoted false (e ++ r) = (splitQuoted false r).map fun x => (e ++ x.1, x.2) := by
  have hdigits {letter : Char} {digits : List Char} (hn : Text.HexNumber digits c.toNat) :
      splitQuoted false ('\\' :: letter :: digits ++ r) =
        (splitQuoted false r).map fun x => ('\\' :: letter :: digits ++ x.1, x.2) := by
    have hplain : ∀ d ∈ digits, d ≠ '"' ∧ d ≠ '\\' := by
      intro d hd
      obtain ⟨k, hk⟩ := hn.exists_digit d hd
      exact hk.ne
    rw [List.cons_append, List.cons_append, splitQuoted_mark, splitQuoted_plain hplain,
      Option.map_map]
    rfl
  cases h with
  | letter => exact splitQuoted_mark _ r
  | short _ hn => exact hdigits hn
  | long _ hn => exact hdigits hn

theorem splitQuoted_spelling {c : Char} {e : List Char} (h : Spelling c e) (r : List Char) :
    splitQuoted false (e ++ r) = (splitQuoted false r).map fun x => (e ++ x.1, x.2) := by
  cases h with
  | plain hquote hmark => exact splitQuoted_plain (by simp [hquote, hmark]) r
  | escape h => exact splitQuoted_escape h r

theorem splitQuoted_flatten {v : List Char} {spellings : List (List Char)}
    (h : List.Forall₂ Spelling v spellings) (suffix : List Char) :
    splitQuoted false (spellings.flatten ++ '"' :: suffix) = some (spellings.flatten, suffix) := by
  induction h with
  | nil => simp [splitQuoted]
  | cons hc _ ih =>
    rw [List.flatten_cons, List.append_assoc, splitQuoted_spelling hc, ih]
    rfl

/-- A suffix with the datatype and the language it gives. -/
inductive Annotates : List Char → Option String → Option String → Prop
  | nothing : Annotates [] none none
  | language {tag : String} (h : ∀ c ∈ tag.toList, Text.isBlank c = false) :
    Annotates ('@' :: tag.toList) none (some tag)
  | plainType {dt : String} (h : dt ∈ ["", xsdString, langString]) :
    Annotates ('^' :: '^' :: '<' :: (dt.toList ++ ['>'])) none none
  | datatype {dt : String} (h : dt ∉ ["", xsdString, langString]) :
    Annotates ('^' :: '^' :: '<' :: (dt.toList ++ ['>'])) (some dt) none

theorem Annotates.head_not_blank {suffix : List Char} {datatype language : Option String}
    (h : Annotates suffix datatype language) : ∀ c ∈ suffix.head?, Text.isBlank c = false := by
  cases h with
  | nothing => simp
  | language | plainType | datatype => simp [Text.isBlank]

theorem getLast?_bracketed (s : List Char) : ('<' :: (s ++ ['>'])).getLast? = some '>' :=
  List.getLast?_concat (l := '<' :: s)

/-- The whole text of a literal ends in no white space: in the closing quote, in the tag or in the
bracket of the datatype. -/
theorem Annotates.last_not_blank {suffix : List Char} {datatype language : Option String}
    (h : Annotates suffix datatype language) (front : List Char) :
    ∀ c ∈ (front ++ '"' :: suffix).getLast?, Text.isBlank c = false := by
  intro c hc
  rw [List.getLast?_append_cons] at hc
  cases h with
  | nothing =>
    cases hc
    decide
  | @language tag h =>
    rw [List.getLast?_cons_cons] at hc
    obtain rfl | hmem := List.mem_cons.1 (List.mem_of_getLast? hc)
    · decide
    · exact h c hmem
  | plainType | datatype =>
    rw [List.getLast?_cons_cons, List.getLast?_cons_cons, List.getLast?_cons_cons,
      getLast?_bracketed] at hc
    cases hc
    decide

theorem datatypeOf_bracketed (dt : String) : datatypeOf ('<' :: (dt.toList ++ ['>'])) =
    if dt ∈ ["", xsdString, langString] then none else some dt := by
  have htrim : Text.trim ('<' :: (dt.toList ++ ['>'])) = '<' :: (dt.toList ++ ['>']) := by
    apply Text.trim_eq_self
    · simp [Text.isBlank]
    · simp [getLast?_bracketed, Text.isBlank]
  have hname : bracketed? ('<' :: (dt.toList ++ ['>'])) = some dt.toList := by
    simp [bracketed?]
  simp [datatypeOf, htrim, hname, or_assoc]

theorem Annotates.annotationsOf_eq {suffix : List Char} {datatype language : Option String}
    (h : Annotates suffix datatype language) : annotationsOf suffix = (datatype, language) := by
  have htrim : Text.trim suffix = suffix := by
    refine Text.trim_eq_self h.head_not_blank fun c hc => h.last_not_blank [] c ?_
    exact List.mem_getLast?_cons hc
  rw [annotationsOf, htrim]
  cases h with
  | nothing => rfl
  | language => simp
  | plainType h => simp only [datatypeOf_bracketed, if_pos h]
  | datatype h => simp only [datatypeOf_bracketed, if_neg h]

/-- Each spelling of a value, between quotes and before any suffix, reads back as the literal with
that value. -/
theorem parseTerm_literal {v : String} {spellings : List (List Char)} {suffix : List Char}
    {datatype language : Option String} (hv : List.Forall₂ Spelling v.toList spellings)
    (hs : Annotates suffix datatype language) :
    parseTerm (String.ofList ('"' :: (spellings.flatten ++ '"' :: suffix))) =
      .ok (.node (.literal v datatype language)) := by
  have htrim : Text.trim ('"' :: (spellings.flatten ++ '"' :: suffix)) =
      '"' :: (spellings.flatten ++ '"' :: suffix) := by
    refine Text.trim_eq_self ?_ (hs.last_not_blank ('"' :: spellings.flatten))
    simp [Text.isBlank]
  have hquoted := splitQuoted_flatten hv suffix
  have hbracketed : bracketed? ('"' :: (spellings.flatten ++ '"' :: suffix)) = none := rfl
  simp only [parseTerm, String.toList_ofList, htrim, hbracketed, hquoted, hs.annotationsOf_eq,
    unescape_flatten hv, String.ofList_toList]

theorem parseTerm_literal_escapes :
    parseTerm "\"\\\"@\\u00e91\\U0001F600\\u005Cn\\\\\"@es" =
      .ok (.node (.literal "\"@é1😀\\n\\" none (some "es"))) := by
  have hshort {c : Char} {digits : List Char} (hlength : digits.length = 4)
      (h : Text.hexNumber? digits = some c.toNat) : Spelling c ('\\' :: 'u' :: digits) :=
    .escape (.short hlength (Text.hexNumber?_eq_some_iff.1 h))
  have hlong {c : Char} {digits : List Char} (hlength : digits.length = 8)
      (h : Text.hexNumber? digits = some c.toNat) : Spelling c ('\\' :: 'U' :: digits) :=
    .escape (.long hlength (Text.hexNumber?_eq_some_iff.1 h))
  have hspelled : List.Forall₂ Spelling ['"', '@', 'é', '1', '😀', '\\', 'n', '\\']
      [['\\', '"'], ['@'], '\\' :: 'u' :: ['0', '0', 'e', '9'], ['1'],
        '\\' :: 'U' :: ['0', '0', '0', '1', 'F', '6', '0', '0'],
        '\\' :: 'u' :: ['0', '0', '5', 'C'], ['n'], ['\\', '\\']] :=
    .cons (.escape (.letter (by decide))) <| .cons (.plain (by decide) (by decide)) <|
      .cons (hshort rfl rfl) <| .cons (.plain (by decide) (by decide)) <|
      .cons (hlong rfl rfl) <| .cons (hshort rfl rfl) <|
      .cons (.plain (by decide) (by decide)) <| .cons (.escape (.letter (by decide))) .nil
  have hvalue : "\"@é1😀\\n\\".toList = ['"', '@', 'é', '1', '😀', '\\', 'n', '\\'] := by
    rfl
  have htag : ∀ c ∈ "es".toList, Text.isBlank c = false := by simp [Text.isBlank]
  rw [← hvalue] at hspelled
  exact parseTerm_literal hspelled (.language htag)

end Rdf
end TriplePlan
