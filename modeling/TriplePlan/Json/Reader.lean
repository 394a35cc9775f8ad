import TriplePlan.Json.Value
import TriplePlan.Text.Hex

/-!
Reading JSON texts: the grammar of RFC 8259, one value with blanks around it.
-/
namespace TriplePlan.Json

def isBlank (c : Char) : Bool := c = ' ' || c = '\t' || c = '\n' || c = '\r'

def skipBlank (s : List Char) : List Char := s.dropWhile isBlank

def unescape? : Char → Option Char
  | '"' => some '"'
  | '\\' => some '\\'
  | '/' => some '/'
  | 'b' => some '\x08'
  | 'f' => some '\x0c'
  | 'n' => some '\n'
  | 'r' => some '\r'
  | 't' => some '\t'
  | _ => none

def units : List Char → Option (List Nat × List Char)
  | [] => none
  | '"' :: r => some ([], r)
  | '\\' :: 'u' :: a :: b :: c :: d :: r => do
    let n ← Text.hexNumber? [a, b, c, d]
    let (us, r) ← units r
    return (n :: us, r)
  | '\\' :: e :: r => do
    let c ← unescape? e
    let (us, r) ← units r
    return (c.toNat :: us, r)
  | c :: r => do
    if c.toNat < 0x20 then none
    let (us, r) ← units r
    return (c.toNat :: us, r)

def isHigh (n : Nat) : Bool := 0xd800 ≤ n && n < 0xdc00
def isLow (n : Nat) : Bool := 0xdc00 ≤ n && n < 0xe000

/-- Joins surrogate pairs; an unpaired surrogate stands for no text. -/
def joinUnits : List Nat → Option (List Char)
  | [] => some []
  | [n] => if isHigh n || isLow n then none else some [Char.ofNat n]
  | n :: m :: r =>
    if isHigh n && isLow m then
      (joinUnits r).map (Char.ofNat (0x10000 + (n - 0xd800) * 0x400 + (m - 0xdc00)) :: ·)
    else if isHigh n || isLow n then none
    else (joinUnits (m :: r)).map (Char.ofNat n :: ·)

def content? (s : List Char) : Option (Content × List Char) :=
  (units s).map fun (us, r) => ((joinUnits us).map String.ofList, r)

def digits (s : List Char) : List Char × List Char :=
  (s.takeWhile Char.isDigit, s.dropWhile Char.isDigit)

def fraction? : List Char → Option (List Char × List Char)
  | '.' :: r =>
    match digits r with
    | ([], _) => none
    | (ds, r) => some ('.' :: ds, r)
  | r => some ([], r)

def sign : List Char → List Char × List Char
  | '+' :: r => (['+'], r)
  | '-' :: r => (['-'], r)
  | r => ([], r)

def exponent? : List Char → Option (List Char × List Char)
  | e :: r =>
    if e = 'e' ∨ e = 'E' then
      let (s, r) := sign r
      match digits r with
      | ([], _) => none
      | (ds, r) => some (e :: (s ++ ds), r)
    else some ([], e :: r)
  | [] => some ([], [])

def natOf (ds : List Char) : Nat := ds.foldl (fun n c => n * 10 + (c.toNat - 48)) 0

def unsigned? (s : List Char) : Option (List Char × List Char × List Char) := do
  let (ds, r) := match s with
    | '0' :: r => (['0'], r)
    | _ => digits s
  if ds.isEmpty then none
  let (f, r) ← fraction? r
  let (e, r) ← exponent? r
  return (ds, f ++ e, r)

def number? : List Char → Option (Value × List Char)
  | '-' :: r => do
    let (ds, tail, r) ← unsigned? r
    return (.number ('-' :: (ds ++ tail)), r)
  | r => do
    let (ds, tail, r) ← unsigned? r
    return (if tail.isEmpty then .natural (natOf ds) else .number (ds ++ tail), r)

mutual

def value? : (fuel : Nat) → List Char → Option (Value × List Char)
  | 0, _ => none
  | fuel + 1, s =>
    match skipBlank s with
    | 'n' :: 'u' :: 'l' :: 'l' :: r => some (.null, r)
    | 't' :: 'r' :: 'u' :: 'e' :: r => some (.bool true, r)
    | 'f' :: 'a' :: 'l' :: 's' :: 'e' :: r => some (.bool false, r)
    | '"' :: r => (content? r).map fun (s, r) => (.string s, r)
    | '[' :: r =>
      match skipBlank r with
      | ']' :: r => some (.array [], r)
      | r => (elements? fuel r).map fun (l, r) => (.array l, r)
    | '\x7b' :: r =>
      match skipBlank r with
      | '\x7d' :: r => some (.object [], r)
      | r => (members? fuel r).map fun (l, r) => (.object l, r)
    | r => number? r

def elements? : (fuel : Nat) → List Char → Option (List Value × List Char)
  | 0, _ => none
  | fuel + 1, s => do
    let (v, r) ← value? fuel s
    match skipBlank r with
    | ',' :: r => let (l, r) ← elements? fuel r; return (v :: l, r)
    | ']' :: r => return ([v], r)
    | _ => none

def members? : (fuel : Nat) → List Char → Option (List (Content × Value) × List Char)
  | 0, _ => none
  | fuel + 1, s =>
    match skipBlank s with
    | '"' :: r => do
      let (k, r) ← content? r
      match skipBlank r with
      | ':' :: r =>
        let (v, r) ← value? fuel r
        match skipBlank r with
        | ',' :: r => let (l, r) ← members? fuel r; return ((k, v) :: l, r)
        | '\x7d' :: r => return ([(k, v)], r)
        | _ => none
      | _ => none
    | _ => none

end

namespace Value

def parse? (text : String) : Option Value := do
  let s := text.toList
  let (v, r) ← value? (2 * s.length + 2) s
  if (skipBlank r).isEmpty then some v else none

def text? : Value → Option String
  | .string s => s
  | _ => none

def natBelow? (bound : Nat) : Value → Option Nat
  | .natural n => if n < bound then some n else none
  | _ => none

def bool? : Value → Option Bool
  | .bool b => some b
  | _ => none

def option? {α : Type} (f : Value → Option α) : Value → Option (Option α)
  | .null => some none
  | v => (f v).map some

def list? {α : Type} (f : Value → Option α) : Value → Option (List α)
  | .array l => l.mapM f
  | _ => none

def variant? : Value → Option (String × Value)
  | .object [(some name, content)] => some (name, content)
  | _ => none

def members? : List (Content × Value) → Option (List (String × Value))
  | [] => some []
  | (none, _) :: _ => none
  | (some k, v) :: r => (members? r).map ((k, v) :: ·)

/-- The value of a field among members, or that it is absent; a field may be given once. -/
def field? (members : List (String × Value)) (name : String) : Option (Option Value) :=
  match members.filter (·.1 = name) with
  | [] => some none
  | [m] => some (some m.2)
  | _ => none

/-- The values of a record's fields. An object names them in any order, beside others, and may leave
some out; an array lists them, and may leave out some of the last `optional` ones. -/
def record? (names : List String) (optional : Nat) : Value → Option (List (Option Value))
  | .object l => do (names.mapM (field? (← members? l)))
  | .array l =>
    if names.length ≤ l.length + optional ∧ l.length ≤ names.length then
      some (l.map some ++ List.replicate (names.length - l.length) none)
    else none
  | _ => none

end Value

end TriplePlan.Json
