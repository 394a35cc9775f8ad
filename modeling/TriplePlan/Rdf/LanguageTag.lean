/-!
Well-formed language tags of BCP 47: a language with its extensions, script, region, variants and
private parts in this order, a private tag, or one of the tags registered before there was an order.
-/
namespace TriplePlan.Rdf.LanguageTag

def irregular : List String := [
  "art-lojban", "cel-gaulish", "en-gb-oed", "i-ami", "i-bnn", "i-default", "i-enochian", "i-hak",
  "i-klingon", "i-lux", "i-mingo", "i-navajo", "i-pwn", "i-tao", "i-tay", "i-tsu", "no-bok",
  "no-nyn", "sgn-be-fr", "sgn-be-nl", "sgn-ch-de", "zh-guoyu", "zh-hakka", "zh-min", "zh-min-nan",
  "zh-xiang"]

inductive State where
  /-- A short language and this many extensions of it. -/
  | language (extensions : Nat)
  | extended
  | script
  | region
  /-- Behind an extension or private mark, and whether a part of it is still due. -/
  | extension (due : Bool)
  | privateUse (due : Bool)
deriving DecidableEq

def isAlpha (s : List Char) : Bool := s.all Char.isAlpha
def isAlphanum (s : List Char) : Bool := s.all Char.isAlphanum
def isNumeric (s : List Char) : Bool := s.all Char.isDigit

def start? (s : List Char) : Option State :=
  if s.length < 2 || !isAlpha s then none
  else some (if s.length < 4 then .language 0 else .extended)

def State.beforeScript : State → Bool
  | .language _ => true
  | .extended => true
  | _ => false

def State.beforeRegion (st : State) : Bool := st.beforeScript || st == .script

def isRegion (s : List Char) : Bool :=
  (s.length == 2 && isAlpha s) || (s.length == 3 && isNumeric s)

def isVariant (s : List Char) : Bool :=
  isAlphanum s && ((5 ≤ s.length && (s.head?.any Char.isAlpha)) ||
    (4 ≤ s.length && (s.head?.any Char.isDigit)))

def part? (st : State) (s : List Char) : Option State :=
  if st.beforeScript && s.length == 4 && isAlpha s then some .script
  else if st.beforeRegion && isRegion s then some .region
  else if (st.beforeRegion || st == .region) && isVariant s then some .region
  else none

def step? (st : State) (s : List Char) : Option State :=
  if s.isEmpty || 8 < s.length then none
  else
    match st with
    | .privateUse _ => if isAlphanum s then some (.privateUse false) else none
    | st =>
      if s = ['x'] then if st = .extension true then none else some (.privateUse true)
      else if s.length == 1 && isAlphanum s then
        if st = .extension true then none else some (.extension true)
      else
        match st with
        | .extension _ => if isAlphanum s then some (.extension false) else none
        | .language n =>
          if s.length == 3 && isAlpha s then if n < 3 then some (.language (n + 1)) else none
          else part? st s
        | st => part? st s

def State.isFinal (st : State) : Bool := st != .extension true && st != .privateUse true

def isPrivate (s : List Char) : Bool := !s.isEmpty && s.length ≤ 8 && isAlphanum s

def isWellFormedParts : List (List Char) → Bool
  | [] => false
  | first :: r =>
    if first = ['x'] then !r.isEmpty && r.all isPrivate
    else if first.length > 8 then false
    else (((start? first).bind fun st => r.foldlM step? st).map State.isFinal).getD false

def isWellFormed (tag : List Char) : Bool :=
  irregular.contains (String.ofList tag) || isWellFormedParts (tag.splitOn '-')

end TriplePlan.Rdf.LanguageTag
