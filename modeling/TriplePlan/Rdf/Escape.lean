import TriplePlan.Text.Hex

/-!
Escapes in RDF texts: a backslash with a letter, or with four or eight hexadecimal digits. Reading a
term text keeps what is no escape; reading a document refuses it.
-/
namespace TriplePlan.Rdf

def namedEscape? : Char → Option Char
  | 'n' => some '\n'
  | 'r' => some '\r'
  | 't' => some '\t'
  | 'b' => some '\x08'
  | 'f' => some '\x0c'
  | '"' => some '"'
  | '\'' => some '\''
  | '\\' => some '\\'
  | _ => none

/-- The character with this number, unless it is a surrogate or too large. -/
def scalar? (n : Nat) : Option Char := if n.isValidChar then some (Char.ofNat n) else none

def hexScalar? (digits : List Char) : Option Char := (Text.hexNumber? digits).bind scalar?

def splitBytes? (n : Nat) : List Char → Option (List Char × List Char)
  | [] => if n = 0 then some ([], []) else none
  | c :: r =>
    if n = 0 then some ([], c :: r)
    else if c.utf8Size ≤ n then (splitBytes? (n - c.utf8Size) r).map fun x => (c :: x.1, x.2)
    else none

theorem splitBytes?_suffix {n : Nat} {s front rest : List Char}
    (h : splitBytes? n s = some (front, rest)) : rest <:+ s := by
  induction s generalizing n front with
  | nil =>
    rw [splitBytes?] at h
    split at h
    · cases h
      exact List.suffix_refl _
    · cases h
  | cons c r ih =>
    rw [splitBytes?] at h
    split at h
    · cases h
      exact List.suffix_refl _
    · split at h
      · obtain ⟨x, hsplit, heq⟩ := Option.map_eq_some_iff.1 h
        cases heq
        exact (ih hsplit).trans (List.suffix_cons c r)
      · cases h

def escapeWidth : Char → Nat
  | 'u' => 4
  | 'U' => 8
  | _ => 0

def numberedEscape? (letter : Char) (s : List Char) : Option (Char × List Char) :=
  if escapeWidth letter = 0 then none
  else do
    let (digits, rest) ← splitBytes? (escapeWidth letter) s
    return (← hexScalar? digits, rest)

theorem numberedEscape?_suffix {letter c : Char} {s rest : List Char}
    (h : numberedEscape? letter s = some (c, rest)) : rest <:+ s := by
  rw [numberedEscape?] at h
  split at h
  · cases h
  · obtain ⟨x, hsplit, hnumber⟩ := Option.bind_eq_some_iff.1 h
    obtain ⟨c', -, heq⟩ := Option.bind_eq_some_iff.1 hnumber
    cases heq
    exact splitBytes?_suffix hsplit

/-- What a backslash stands for together with the text behind it, and where reading goes on. If it
starts no escape, it stands for itself, and what follows is read next. -/
def readEscape (letter : Char) (tail : List Char) : Char × List Char :=
  match namedEscape? letter with
  | some c => (c, tail)
  | none => (numberedEscape? letter tail).getD ('\\', letter :: tail)

theorem readEscape_suffix (letter : Char) (tail : List Char) :
    (readEscape letter tail).2 <:+ letter :: tail := by
  rw [readEscape]
  split
  · exact List.suffix_cons letter tail
  · cases hnumber : numberedEscape? letter tail with
    | none => exact List.suffix_refl _
    | some x => exact (numberedEscape?_suffix hnumber).trans (List.suffix_cons letter tail)

def unescape (s : List Char) : List Char :=
  s.takeWhile (· ≠ '\\') ++
    match _hmark : s.dropWhile (· ≠ '\\') with
    | _ :: letter :: tail => (readEscape letter tail).1 :: unescape (readEscape letter tail).2
    | last => last
termination_by s.length
decreasing_by
  have hread := (readEscape_suffix letter tail).length_le
  have hdrop := (List.dropWhile_sublist (· ≠ '\\') (l := s)).length_le
  rw [_hmark] at hdrop
  exact Nat.lt_of_lt_of_le (Nat.lt_succ_of_le hread) hdrop

end TriplePlan.Rdf
