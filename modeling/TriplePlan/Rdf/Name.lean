import TriplePlan.Rdf.Iri
import TriplePlan.Text.Octets

/-!
The names in RDF documents: blank node labels, prefixes and local names, each read from the front
of the remaining octets.
-/
namespace TriplePlan.Rdf.Name

def baseRanges : List (Nat × Nat) := [
  (0x41, 0x5a), (0x61, 0x7a), (0xc0, 0xd6), (0xd8, 0xf6), (0xf8, 0x2ff), (0x370, 0x37d),
  (0x37f, 0x1fff), (0x200c, 0x200d), (0x2070, 0x218f), (0x2c00, 0x2fef), (0x3001, 0xd7ff),
  (0xf900, 0xfdcf), (0xfdf0, 0xfffd), (0x10000, 0xeffff)]

def markRanges : List (Nat × Nat) := [(0xb7, 0xb7), (0x300, 0x36f), (0x203f, 0x2040)]

def isBase (c : Char) : Bool := Iri.inAny c.toNat baseRanges

def isStart (c : Char) : Bool := isBase c || c = '_' || c.isDigit

def isName (c : Char) : Bool := isStart c || c = '-' || Iri.inAny c.toNat markRanges

def isAscii (c : Char) : Bool := c.toNat < 0x80

def isNameOctet (c : Char) : Bool := c.isAlphanum || c = '_' || c = '-' || !isAscii c

def octetsBehind (c : Char) : Nat :=
  if c.toNat < 0xc0 then 0 else if c.toNat < 0xe0 then 1 else if c.toNat < 0xf0 then 2 else 3

/-- Writes a middle dot in full where its last octet stands for it, as it may in local names, with
`due` octets of the character before it still to come. -/
def fullDots (due : Nat) : List Char → List Char
  | [] => []
  | c :: r =>
    if due = 0 && c = '\xb7' then '\xc2' :: c :: fullDots 0 r
    else c :: fullDots (if due = 0 then octetsBehind c else due - 1) r

def ofOctets? (octets : List Char) : Option (List Char) := do
  let name ← Text.textOfOctets? octets
  if name.all fun c => isAscii c || isName c then some name else none

def dotInside : List Char → Bool
  | c :: _ => isNameOctet c
  | [] => false

def dotted : List Char → List Char × List Char
  | [] => ([], [])
  | c :: r =>
    if isNameOctet c || (c = '.' && dotInside r) then
      let (l, r) := dotted r
      (c :: l, r)
    else ([], c :: r)

def label? : List Char → Option (List Char × List Char)
  | '_' :: ':' :: r => do
    let (octets, r) := dotted r
    let name ← ofOctets? octets
    if name.head?.any isStart then some (name, r) else none
  | _ => none

def prefixName? (s : List Char) : Option (List Char × List Char) :=
  match dotted s with
  | (octets, ':' :: r) => do
    let name ← ofOctets? octets
    if name.head?.all isBase then some (name, r) else none
  | _ => none

def isLocalEscape (c : Char) : Bool := "_~.-!$&'()*+,;=/?#@%".toList.contains c

def isLocalOctet (c : Char) : Bool := isNameOctet c || c = ':' || c = '%' || c = '\\'

def dotsInside : List Char → Bool
  | '.' :: r => dotsInside r
  | c :: _ => isLocalOctet c
  | [] => false

/-- The octets of a local name: those of names, colons, dots between them, percent codes, and
marks that a backslash escapes. -/
def localOctets? : List Char → Option (List Char × List Char)
  | [] => some ([], [])
  | '%' :: a :: b :: r =>
    if Text.isHexDigit a && Text.isHexDigit b then
      (localOctets? r).map fun x => ('%' :: a :: b :: x.1, x.2)
    else none
  | '\\' :: e :: r =>
    if isLocalEscape e then (localOctets? r).map fun x => (e :: x.1, x.2) else none
  | c :: r =>
    if c = '%' || c = '\\' then none
    else if isLocalOctet c || (c = '.' && dotsInside r) then
      (localOctets? r).map fun x => (c :: x.1, x.2)
    else some ([], c :: r)

def localName? (s : List Char) : Option (List Char × List Char) :=
  if s.head?.any fun c => isLocalOctet c && c ≠ '-' then do
    let (octets, r) ← localOctets? s
    let name ← ofOctets? (fullDots 0 octets)
    if name.head?.all fun c => isAscii c || isBase c then some (name, r) else none
  else some ([], s)

end TriplePlan.Rdf.Name
