import TriplePlan.Text.Hex

/-!
IRIs: their parts, which characters each part may hold, and the resolution of a reference against a
base.
-/
namespace TriplePlan.Rdf.Iri

def inAny (n : Nat) (ranges : List (Nat × Nat)) : Bool := ranges.any fun r => r.1 ≤ n && n ≤ r.2

def wide : List (Nat × Nat) := [
  (0xa0, 0xd7ff), (0xf900, 0xfdcf), (0xfdf0, 0xffef), (0x10000, 0x1fffd), (0x20000, 0x2fffd),
  (0x30000, 0x3fffd), (0x40000, 0x4fffd), (0x50000, 0x5fffd), (0x60000, 0x6fffd),
  (0x70000, 0x7fffd), (0x80000, 0x8fffd), (0x90000, 0x9fffd), (0xa0000, 0xafffd),
  (0xb0000, 0xbfffd), (0xc0000, 0xcfffd), (0xd0000, 0xdfffd), (0xe1000, 0xefffd)]

def privateUse : List (Nat × Nat) := [(0xe000, 0xf8ff), (0xf0000, 0xffffd), (0x100000, 0x10fffd)]

def isNameChar (c : Char) : Bool :=
  c.isAlphanum || "!$&'()*+,-.;=_~".toList.contains c || inAny c.toNat wide

def isPlain (c : Char) : Bool := isNameChar c || "/:?@".toList.contains c

def isQueryPlain (c : Char) : Bool := isPlain c || inAny c.toNat privateUse

def allPlain (plain : Char → Bool) : List Char → Bool
  | [] => true
  | '%' :: a :: b :: r => Text.isHexDigit a && Text.isHexDigit b && allPlain plain r
  | c :: r => plain c && allPlain plain r

structure Parts where
  scheme : Option (List Char)
  authority : Option (List Char)
  path : List Char
  query : Option (List Char)
  fragment : Option (List Char)

def isSchemeChar (c : Char) : Bool := c.isAlphanum || c = '+' || c = '-' || c = '.'

def splitScheme (s : List Char) : Option (List Char × List Char) :=
  match s.takeWhile isSchemeChar, s.dropWhile isSchemeChar with
  | c :: name, ':' :: r => if c.isAlpha then some (c :: name, r) else none
  | _, _ => none

def cut (marks : List Char) (s : List Char) : List Char × List Char :=
  (s.takeWhile fun c => !marks.contains c, s.dropWhile fun c => !marks.contains c)

def parts (s : List Char) : Parts :=
  let (scheme, s) := match splitScheme s with
    | some (scheme, r) => (some scheme, r)
    | none => (none, s)
  let (authority, s) := match s with
    | '/' :: '/' :: r => let (a, r) := cut ['/', '?', '#'] r; (some a, r)
    | s => (none, s)
  let (path, s) := cut ['?', '#'] s
  let (query, s) := match s with
    | '?' :: r => let (q, r) := cut ['#'] r; (some q, r)
    | s => (none, s)
  let fragment := match s with
    | '#' :: r => some r
    | _ => none
  ⟨scheme, authority, path, query, fragment⟩

def isHexGroup (g : List Char) : Bool := 1 ≤ g.length && g.length ≤ 4 && g.all Text.isHexDigit

def isOctet (g : List Char) : Bool :=
  g.all Char.isDigit && 1 ≤ g.length && g.length ≤ 3 && (g.length == 1 || g.head? != some '0') &&
    g.foldl (fun n c => n * 10 + (c.toNat - 48)) 0 ≤ 255

def isDotted (g : List Char) : Bool :=
  let octets := g.splitOn '.'
  octets.length == 4 && octets.all isOctet

/-- How many 16-bit groups a sequence stands for; the last may be a dotted address. -/
def groupCount? : List (List Char) → Option Nat
  | [] => some 0
  | [g] => if isHexGroup g then some 1 else if isDotted g then some 2 else none
  | g :: r => if isHexGroup g then (groupCount? r).map (· + 1) else none

def splitDouble : List Char → Option (List Char × List Char)
  | ':' :: ':' :: r => some ([], r)
  | c :: r => (splitDouble r).map fun x => (c :: x.1, x.2)
  | [] => none

def groupsOf (s : List Char) : List (List Char) := if s.isEmpty then [] else s.splitOn ':'

def isIpv6 (s : List Char) : Bool :=
  match splitDouble s with
  | none => groupCount? (groupsOf s) == some 8
  | some (a, b) =>
    (groupsOf a).all isHexGroup &&
      match groupCount? (groupsOf b) with
      | some n => (groupsOf a).length + n ≤ 7
      | none => false

def isFutureAddress (s : List Char) : Bool :=
  match s.dropWhile Text.isHexDigit with
  | '.' :: r => !(s.takeWhile Text.isHexDigit).isEmpty && !r.isEmpty &&
      r.all fun c => c.isAlphanum || "!$&'()*+,-.:;=_~".toList.contains c
  | _ => false

def isAddress : List Char → Bool
  | 'v' :: r => isFutureAddress r
  | 'V' :: r => isFutureAddress r
  | s => isIpv6 s

def isPort : List Char → Bool
  | [] => true
  | ':' :: r => r.all Char.isDigit
  | _ => false

def isHost : List Char → Bool
  | '[' :: r =>
    match cut [']'] r with
    | (address, ']' :: port) => isAddress address && isPort port
    | _ => false
  | s =>
    let (name, port) := cut [':'] s
    allPlain isNameChar name && isPort port

/-- What follows the first `@` before any bracket is the host. -/
def isAuthority (s : List Char) : Bool :=
  match cut ['@', '['] s with
  | (user, '@' :: host) => allPlain isPlain user && isHost host
  | _ => isHost s

def Parts.isValid (p : Parts) : Bool :=
  (p.authority.all isAuthority) && allPlain isPlain p.path && p.query.all (allPlain isQueryPlain) &&
    p.fragment.all (allPlain isPlain)

def withMark (mark : List Char) : Option (List Char) → List Char
  | none => []
  | some s => mark ++ s

def Parts.text (p : Parts) : List Char :=
  (p.scheme.map (· ++ [':'])).getD [] ++ withMark ['/', '/'] p.authority ++ p.path
    ++ withMark ['?'] p.query ++ withMark ['#'] p.fragment

def upToSlash (path : List Char) : List Char := (path.reverse.dropWhile (· ≠ '/')).reverse

/-- One more segment behind a path. A single dot adds nothing, and a double one takes the segment
before it away, but behind an authority not the slash that a path starts with there. -/
def appendSegment (authority : Bool) (path segment : List Char) : List Char :=
  if segment = ['.'] then path
  else if segment = ['.', '.'] then
    let path := upToSlash path.dropLast
    if authority && path.isEmpty then ['/'] else path
  else path ++ segment

def isDots (segment : List Char) : Bool := segment = ['.'] || segment = ['.', '.']

/-- The segments of a relative path behind a path that is empty or ends in a slash. Without an
authority, two slashes in front could be mistaken for the start of one, so that only a double dot
may follow them. -/
def appendSegments? (authority : Bool) (path : List Char) : List (List Char) → Option (List Char)
  | [] => some path
  | s :: r =>
    let path := appendSegment authority path s
    if !authority && ['/', '/'].isPrefixOf path then none
    else appendSegments? authority (if r.isEmpty || isDots s then path else path ++ ['/']) r

def directory (base : Parts) : List Char :=
  let kept := upToSlash base.path
  if kept.isEmpty && base.authority.isSome then ['/'] else kept

def resolveParts? (base r : Parts) : Option Parts :=
  let behind (path rest : List Char) : Option Parts := do
    let path ← appendSegments? base.authority.isSome path (rest.splitOn '/')
    return { base with path := path, query := r.query, fragment := r.fragment }
  if r.authority.isSome then some { r with scheme := base.scheme }
  else
    match r.path with
    | [] => some { base with query := r.query.or base.query, fragment := r.fragment }
    | '/' :: p => behind ['/'] p
    | p => behind (directory base) p

def Parts.startsWithColon (p : Parts) : Bool :=
  p.authority.isNone && (p.path.takeWhile (· ≠ '/')).contains ':'

def resolve? (base : Option (List Char)) (s : List Char) : Option (List Char) := do
  let p := parts s
  if !p.isValid then none
  else if p.scheme.isSome then some s
  else if p.startsWithColon then none
  else return (← resolveParts? (parts (← base)) p).text

end TriplePlan.Rdf.Iri
