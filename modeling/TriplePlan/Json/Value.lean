import TriplePlan.Bytes

/-!
JSON values and their two written forms, compact and indented.
-/
namespace TriplePlan.Json

/-- A string or key, as the text it stands for. Escapes of unpaired surrogates are grammatical, but
stand for no text. -/
abbrev Content := Option String

inductive Value where
  | null
  | bool (b : Bool)
  | natural (n : Nat)
  | number (digits : List Char)
  | string (s : Content)
  | array (elements : List Value)
  | object (members : List (Content × Value))

namespace Value

def text (s : String) : Value := .string (some s)

def record (members : List (String × Value)) : Value :=
  .object (members.map fun m => (some m.1, m.2))

def variant (name : String) (content : Value) : Value := record [(name, content)]

def texts (l : List String) : Value := .array (l.map text)

def naturals (l : List Nat) : Value := .array (l.map natural)

def option {α : Type} (f : α → Value) : Option α → Value
  | none => .null
  | some a => f a

end Value

def escapeChar (c : Char) : List Char :=
  match c with
  | '"' => ['\\', '"']
  | '\\' => ['\\', '\\']
  | '\x08' => ['\\', 'b']
  | '\x0c' => ['\\', 'f']
  | '\n' => ['\\', 'n']
  | '\r' => ['\\', 'r']
  | '\t' => ['\\', 't']
  | c =>
    if c.toNat < 0x20 then
      ['\\', 'u', '0', '0', Bytes.hexDigit (c.toNat / 16), Bytes.hexDigit (c.toNat % 16)]
    else [c]

/-- A content that is no text is written as one unpaired surrogate. -/
def string : Content → List Char
  | some s => '"' :: (s.toList.flatMap escapeChar ++ ['"'])
  | none => ['"', '\\', 'u', 'd', '8', '0', '0', '"']

def separated (l : List (List Char)) : List Char := (l.intersperse [',']).flatten

mutual

def compact : Value → List Char
  | .null => "null".toList
  | .bool b => (if b then "true" else "false").toList
  | .natural n => Nat.toDigits 10 n
  | .number digits => digits
  | .string s => string s
  | .array l => '[' :: (separated (compactAll l) ++ [']'])
  | .object l => '\x7b' :: (separated (compactMembers l) ++ ['\x7d'])

def compactAll : List Value → List (List Char)
  | [] => []
  | v :: r => compact v :: compactAll r

def compactMembers : List (Content × Value) → List (List Char)
  | [] => []
  | (k, v) :: r => (string k ++ ':' :: compact v) :: compactMembers r

end

def indent (n : Nat) : List Char := '\n' :: List.replicate (2 * n) ' '

def block (level : Nat) (opening closing : Char) (items : List (List Char)) : List Char :=
  if items.isEmpty then [opening, closing]
  else opening :: (separated (items.map (indent (level + 1) ++ ·)) ++ indent level ++ [closing])

mutual

def pretty (level : Nat) : Value → List Char
  | .array l => block level '[' ']' (prettyAll (level + 1) l)
  | .object l => block level '\x7b' '\x7d' (prettyMembers (level + 1) l)
  | .null => compact .null
  | .bool b => compact (.bool b)
  | .natural n => compact (.natural n)
  | .number digits => compact (.number digits)
  | .string s => compact (.string s)

def prettyAll (level : Nat) : List Value → List (List Char)
  | [] => []
  | v :: r => pretty level v :: prettyAll level r

def prettyMembers (level : Nat) : List (Content × Value) → List (List Char)
  | [] => []
  | (k, v) :: r => (string k ++ ':' :: ' ' :: pretty level v) :: prettyMembers level r

end

namespace Value

def render (v : Value) : String := String.ofList (compact v)

def renderPretty (v : Value) : String := String.ofList (pretty 0 v)

end Value

end TriplePlan.Json
