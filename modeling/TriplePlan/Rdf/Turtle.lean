import TriplePlan.Rdf.Lexeme
import TriplePlan.Rdf.Name
import TriplePlan.Rdf.Quad

/-!
Turtle and TriG documents. Statements inside brackets and lists come before the statement that uses
them, and nodes without a label are numbered in the order they are met.
-/
namespace TriplePlan.Rdf.Turtle

structure State where
  rest : List Char
  /-- The prefixes declared, the latest first. -/
  prefixes : List (List Char × List Char)
  base : Option (List Char)
  fresh : Nat
  /-- How many more lists, brackets and quoted triples may be opened in each other. -/
  room : Nat
  graph : Option Item
  /-- The statements read, the latest first. -/
  quads : List Quad

abbrev Parser (α : Type) := StateT State Option α

def fail {α : Type} : Parser α := fun _ => none

def isBlank (c : Char) : Bool := c = ' ' || c = '\t' || c = '\n' || c = '\r'

def skipBlank (comment : Bool) : List Char → List Char
  | [] => []
  | c :: r =>
    if comment then skipBlank (c ≠ '\n' && c ≠ '\r') r
    else if isBlank c then skipBlank false r
    else if c = '#' then skipBlank true r
    else c :: r

def blank : Parser Unit := modify fun s => { s with rest := skipBlank false s.rest }

def current : Parser (Option Char) := return (← get).rest.head?

def drop (n : Nat) : Parser Unit := modify fun s => { s with rest := s.rest.drop n }

def startsWith (text : String) : Parser Bool := return text.toList.isPrefixOf (← get).rest

def expect (text : String) : Parser Unit := do
  if ← startsWith text then drop text.length else fail

/-- Whether a word comes next, in either case, with the end or one of these characters behind it. -/
def keyword (word : String) (ends : Char → Bool) : Parser Bool := do
  let rest := (← get).rest
  let n := word.length
  return (rest.take n).map Char.toLower == word.toList && (rest.drop n).head?.all ends

def isBlankOrIri (c : Char) : Bool := isBlank c || c = '<'

def piece {α : Type} (read : List Char → Option (α × List Char)) : Parser α := fun s =>
  (read s.rest).map fun x => (x.1, { s with rest := x.2 })

def nested {α : Type} (read : Parser α) : Parser α := do
  match (← get).room with
  | 0 => fail
  | room + 1 =>
    modify fun s => { s with room := room }
    let x ← read
    modify fun s => { s with room := room + 1 }
    return x

def generated (n : Nat) : List Char :=
  let digits := Nat.toDigits 10 n
  "riog".toList ++ List.replicate (8 - digits.length) '0' ++ digits

def freshNode : Parser Item := do
  modify fun s => { s with fresh := s.fresh + 1 }
  return .blank (generated (← get).fresh)

/-- Whether a written label could be mistaken for a generated one, marks at its end aside. -/
def isReserved (label : List Char) : Bool :=
  let digits := label.drop 4
  label.take 4 == "riog".toList && 8 ≤ digits.length && (digits.take 8).all Char.isDigit &&
    (digits.drop 8).all (· = 'd')

def shield (label : List Char) : List Char := if isReserved label then label ++ ['d'] else label

def label : Parser Item := return .blank (shield (← piece Name.label?))

def iriRef : Parser (List Char) := do piece (Lexeme.iri? (← get).base)

def prefixedName : Parser (List Char) := do
  let name ← piece Name.prefixName?
  match (← get).prefixes.find? (·.1 = name) with
  | some (_, text) => return text ++ (← piece Name.localName?)
  | none => fail

def iriText : Parser (List Char) := do
  match ← current with
  | some '<' => iriRef
  | _ => prefixedName

def iri : Parser Item := return .iri (← iriText)

def rdf (name : String) : Item :=
  .iri (("http://www.w3.org/1999/02/22-rdf-syntax-ns#" ++ name).toList)

def xsd (name : String) : List Char := ("http://www.w3.org/2001/XMLSchema#" ++ name).toList

def closesAtOnce : Parser Bool :=
  return (((← get).rest.drop 1).dropWhile isBlank).head? == some ']'

def anonymous : Parser Item := do
  expect "["
  blank
  expect "]"
  freshNode

def carriesOn (c : Char) : Bool := Name.isNameOctet c || c = ':'

def verb : Parser Item := do
  match (← get).rest with
  | ['a'] => drop 1; return rdf "type"
  | 'a' :: c :: _ => if carriesOn c || c = '.' then iri else do drop 1; return rdf "type"
  | _ => iri

def kindName : Lexeme.Kind → String
  | .integer => "integer"
  | .decimal => "decimal"
  | .double => "double"

def number : Parser Item := do
  let (text, kind) ← piece Lexeme.number?
  return .typed text (xsd (kindName kind))

def literal : Parser Item := do
  let value ← piece Lexeme.string?
  blank
  match ← current with
  | some '@' => return .tagged value (← piece Lexeme.language?)
  | some '^' => do
    expect "^^"
    blank
    return .typed value (← iriText)
  | _ => return .plain value

def wordOrIri : Parser Item := do
  let rest := (← get).rest
  let ends (n : Nat) : Bool := !(rest.drop n).head?.any carriesOn
  if (← startsWith "true") && ends 4 then drop 4; return .typed "true".toList (xsd "boolean")
  else if (← startsWith "false") && ends 5 then drop 5; return .typed "false".toList (xsd "boolean")
  else iri

def emit (s p o : Item) : Parser Unit :=
  modify fun st => { st with quads := ⟨s, p, o, st.graph⟩ :: st.quads }

def semicolons : (fuel : Nat) → Parser Unit
  | 0 => return
  | fuel + 1 => do
    match ← current with
    | some ';' => drop 1; blank; semicolons fuel
    | _ => return

def endsPredicates : Option Char → Bool
  | none => true
  | some c => c = '.' || c = ']' || c = '\x7d' || c = '|'

def quotedItem (quoted : Parser Item) (literals : Bool) : Parser Item := do
  match (← get).rest with
  | '<' :: '<' :: _ => quoted
  | '_' :: _ => label
  | '[' :: _ => anonymous
  | c :: _ =>
    if literals && (c = '"' || c = '\'') then literal
    else if literals && (c.isDigit || c = '+' || c = '-' || c = '.') then number
    else if literals then wordOrIri
    else iri
  | [] => fail

def quotedWithin : (room : Nat) → Parser Item
  | 0 => fail
  | room + 1 => do
    expect "<<"
    blank
    let s ← quotedItem (quotedWithin room) false
    blank
    let p ← verb
    blank
    let o ← quotedItem (quotedWithin room) true
    blank
    expect ">>"
    return .quoted s p o

def quoted : Parser Item := do quotedWithin (← get).room

mutual

def subject : (fuel : Nat) → Parser Item
  | 0 => fail
  | fuel + 1 => do
    match (← get).rest with
    | '<' :: '<' :: _ => quoted
    | '_' :: _ => label
    | '[' :: _ => anonymous
    | '(' :: _ => nested do drop 1; collection fuel none
    | _ => iri

def object : (fuel : Nat) → Parser Item
  | 0 => fail
  | fuel + 1 => do
    match (← get).rest with
    | '<' :: '<' :: _ => quoted
    | '_' :: _ => label
    | '[' :: _ => if ← closesAtOnce then anonymous else nested (propertyList fuel)
    | '(' :: _ => nested do drop 1; collection fuel none
    | c :: _ =>
      if c = '"' || c = '\'' then literal
      else if c.isDigit || c = '+' || c = '-' || c = '.' then number
      else wordOrIri
    | [] => fail

/-- The rest of a list behind the cell `last`; the result is its first cell. -/
def collection : (fuel : Nat) → (last : Option Item) → Parser Item
  | 0, _ => fail
  | fuel + 1, last => do
    blank
    match ← current with
    | some ')' =>
      drop 1
      if let some cell := last then emit cell (rdf "rest") (rdf "nil")
      return rdf "nil"
    | _ =>
      let cell ← freshNode
      if let some before := last then emit before (rdf "rest") cell
      let item ← object fuel
      emit cell (rdf "first") item
      discard (collection fuel (some cell))
      return cell

def propertyList : (fuel : Nat) → Parser Item
  | 0 => fail
  | fuel + 1 => do
    expect "["
    let node ← freshNode
    predicateLists fuel node
    return node

def predicateLists : (fuel : Nat) → (subject : Item) → Parser Unit
  | 0, _ => fail
  | fuel + 1, subject => do
    blank
    predicates fuel subject
    blank
    if (← current) == some ']' then drop 1 else predicateLists fuel subject

def predicates : (fuel : Nat) → (subject : Item) → Parser Unit
  | 0, _ => fail
  | fuel + 1, subject => do
    let p ← verb
    blank
    objects fuel subject p
    blank
    match ← current with
    | some ';' =>
      semicolons (← get).rest.length
      if endsPredicates (← current) then return else predicates fuel subject
    | _ => return

/-- Objects between commas; an annotation speaks about the triple before it. -/
def objects : (fuel : Nat) → (subject predicate : Item) → Parser Unit
  | 0, _, _ => fail
  | fuel + 1, subject, predicate => do
    let o ← object fuel
    emit subject predicate o
    blank
    if ← startsWith "\x7b|" then
      drop 2
      blank
      predicates fuel (.quoted subject predicate o)
      blank
      expect "|\x7d"
      blank
    match ← current with
    | some ',' => drop 1; blank; objects fuel subject predicate
    | _ => return

end

def triples (fuel : Nat) : Parser Unit := do
  if (← current) == some '[' && !(← closesAtOnce) then
    let node ← nested (propertyList fuel)
    blank
    match ← current with
    | some '.' => return
    | some '\x7d' => return
    | _ => predicates fuel node
  else
    let node ← subject fuel
    blank
    predicates fuel node

def fullStop : Parser Unit := do
  blank
  expect "."

def declarePrefix : Parser Unit := do
  blank
  let name ← piece Name.prefixName?
  blank
  let text ← iriRef
  modify fun s => { s with prefixes := (name, text) :: s.prefixes }

def declareBase : Parser Unit := do
  blank
  let text ← iriRef
  modify fun s => { s with base := some text }

def directive : Parser Bool := do
  if ← startsWith "@prefix" then drop 7; declarePrefix; fullStop; return true
  else if ← startsWith "@base" then drop 5; declareBase; fullStop; return true
  else if ← keyword "base" isBlankOrIri then drop 4; declareBase; return true
  else if ← keyword "prefix" isBlank then drop 6; declarePrefix; return true
  else return false

def graphBody : (fuel : Nat) → Parser Unit
  | 0 => fail
  | fuel + 1 => do
    blank
    match ← current with
    | some '\x7d' => drop 1
    | _ => do
      triples fuel
      blank
      match ← current with
      | some '.' => drop 1; graphBody fuel
      | some '\x7d' => graphBody fuel
      | _ => fail

def wrappedGraph (fuel : Nat) (name : Option Item) : Parser Unit := do
  expect "\x7b"
  modify fun s => { s with graph := name }
  graphBody fuel
  modify fun s => { s with graph := none }

def graphName : Parser Item := do
  match ← current with
  | some '_' => label
  | some '[' => anonymous
  | _ => iri

def graphOrTriples (fuel : Nat) : Parser Unit := do
  if ← keyword "graph" isBlankOrIri then
    drop 5
    blank
    let name ← graphName
    blank
    wrappedGraph fuel name
  else
    match (← get).rest with
    | '\x7b' :: _ => wrappedGraph fuel none
    | '(' :: _ => triples fuel; fullStop
    | '<' :: '<' :: _ => triples fuel; fullStop
    | rest =>
      if rest.head? == some '[' && !(← closesAtOnce) then triples fuel; fullStop
      else
        let name ← graphName
        blank
        match ← current with
        | some '\x7b' => wrappedGraph fuel name
        | _ => predicates fuel name; fullStop

def document (graphs : Bool) : (fuel : Nat) → Parser Unit
  | 0 => fail
  | fuel + 1 => do
    blank
    match ← current with
    | none => return
    | some _ => do
      unless ← directive do
        if graphs then graphOrTriples (8 * (← get).rest.length + 8)
        else do
          triples (8 * (← get).rest.length + 8)
          fullStop
      document graphs fuel

def parse? (graphs : Bool) (s : List Char) : Option (List Quad) :=
  (document graphs (s.length + 1) ⟨s, [], none, 0, nestingLimit, none, []⟩).map fun x =>
    x.2.quads.reverse

end TriplePlan.Rdf.Turtle
