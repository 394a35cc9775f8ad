import TriplePlan.Rdf.Escape
import TriplePlan.Rdf.Iri
import TriplePlan.Rdf.LanguageTag
import TriplePlan.Text.Octets

/-!
The IRIs, strings, language tags and numbers of RDF documents, each read from the front of the
remaining octets.
-/
namespace TriplePlan.Rdf.Lexeme

def iriStops : List Char := ['<', '"', '\x7b', '\x7d', '|', '^', '\x60']

def isIriChar (c : Char) : Bool := 0x20 < c.toNat && !iriStops.contains c

def iriBody? : List Char → Option (List Char × List Char)
  | [] => none
  | '>' :: r => some ([], r)
  | '\\' :: 'u' :: a :: b :: c :: d :: r => do
    let x ← hexScalar? [a, b, c, d]
    let (s, r) ← iriBody? r
    return (Text.octetsOf x ++ s, r)
  | '\\' :: 'U' :: a :: b :: c :: d :: e :: f :: g :: h :: r => do
    let x ← hexScalar? [a, b, c, d, e, f, g, h]
    let (s, r) ← iriBody? r
    return (Text.octetsOf x ++ s, r)
  | c :: r =>
    if isIriChar c && c ≠ '\\' then (iriBody? r).map fun x => (c :: x.1, x.2) else none

def iri? (base : Option (List Char)) : List Char → Option (List Char × List Char)
  | '<' :: r => do
    let (octets, r) ← iriBody? r
    return (← Iri.resolve? base (← Text.textOfOctets? octets), r)
  | _ => none

def closes (quote : Char) (long : Bool) (r : List Char) : Bool :=
  if long then r.take 2 == [quote, quote] else true

/-- The octets of a string behind its opening quotes, with escapes undone. Short strings hold no
line ends. -/
def stringBody? (quote : Char) (long : Bool) : List Char → Option (List Char × List Char)
  | [] => none
  | '\\' :: 'u' :: a :: b :: c :: d :: r => do
    let x ← hexScalar? [a, b, c, d]
    let (s, r) ← stringBody? quote long r
    return (Text.octetsOf x ++ s, r)
  | '\\' :: 'U' :: a :: b :: c :: d :: e :: f :: g :: h :: r => do
    let x ← hexScalar? [a, b, c, d, e, f, g, h]
    let (s, r) ← stringBody? quote long r
    return (Text.octetsOf x ++ s, r)
  | '\\' :: e :: r => do
    let x ← namedEscape? e
    let (s, r) ← stringBody? quote long r
    return (Text.octetsOf x ++ s, r)
  | c :: r =>
    if c = quote && closes quote long r then some ([], if long then r.drop 2 else r)
    else if c = '\\' || (!long && (c = '\n' || c = '\r')) then none
    else (stringBody? quote long r).map fun x => (c :: x.1, x.2)

def stringValue? (quote : Char) (long : Bool) (s : List Char) : Option (List Char × List Char) := do
  let (octets, r) ← stringBody? quote long s
  return (← Text.textOfOctets? octets, r)

def shortString? : List Char → Option (List Char × List Char)
  | '"' :: r => stringValue? '"' false r
  | _ => none

def string? : List Char → Option (List Char × List Char)
  | '"' :: '"' :: '"' :: r => stringValue? '"' true r
  | '\'' :: '\'' :: '\'' :: r => stringValue? '\'' true r
  | '"' :: r => stringValue? '"' false r
  | '\'' :: r => stringValue? '\'' false r
  | _ => none

def isTagChar (c : Char) : Bool := c.isAlphanum || c = '-'

def language? : List Char → Option (List Char × List Char)
  | '@' :: r =>
    let tag := (r.takeWhile isTagChar).map Char.toLower
    if LanguageTag.isWellFormed tag then some (tag, r.dropWhile isTagChar) else none
  | _ => none

inductive Kind where
  | integer | decimal | double
deriving DecidableEq

def sign : List Char → List Char × List Char
  | '+' :: r => (['+'], r)
  | '-' :: r => (['-'], r)
  | r => ([], r)

def digits (s : List Char) : List Char × List Char :=
  (s.takeWhile Char.isDigit, s.dropWhile Char.isDigit)

/-- A point with the digits behind it; it belongs to the number only before a digit or an
exponent. -/
def fraction (s : List Char) : Option (List Char) × List Char :=
  match s with
  | '.' :: r =>
    match r with
    | c :: _ =>
      if c.isDigit || c = 'e' || c = 'E' then
        let (ds, r) := digits r
        (some ds, r)
      else (none, s)
    | [] => (none, s)
  | _ => (none, s)

def number? (s : List Char) : Option ((List Char × Kind) × List Char) := do
  let (sg, r) := sign s
  let (whole, r) := digits r
  let (frac, r) := fraction r
  let text := sg ++ whole ++ (frac.map ('.' :: ·)).getD []
  let any := !whole.isEmpty || !(frac.getD []).isEmpty
  match r with
  | e :: r' =>
    if e = 'e' || e = 'E' then
      let (esg, r') := sign r'
      let (exp, r') := digits r'
      if any && !exp.isEmpty then return ((text ++ e :: (esg ++ exp), .double), r') else none
    else if any then return ((text, if frac.isSome then .decimal else .integer), r) else none
  | [] => if any then return ((text, if frac.isSome then .decimal else .integer), r) else none

end TriplePlan.Rdf.Lexeme
