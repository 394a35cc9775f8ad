import TriplePlan.Term

/-!
The byte form of a node: a kind, then texts in which every zero byte is marked and which end with
two zero bytes, so that no form is a prefix of another and byte order follows text order.
-/
namespace TriplePlan

/-- Why a byte string does not start with a node. Offsets count from its first byte. -/
inductive KeyError where
  | truncated (offset : Nat)
  | unknownTag (tag : UInt8) (offset : Nat)
  | badEscape (offset : Nat)
  | notUtf8
deriving DecidableEq

def KeyError.message : KeyError → String
  | .truncated offset => "unexpected end of key at byte " ++ toString offset
  | .unknownTag tag offset =>
    "unknown node tag 0x" ++ Bytes.hex [tag] ++ " at byte " ++ toString offset
  | .badEscape offset => "invalid escape sequence at byte " ++ toString offset
  | .notUtf8 => "node text is not valid UTF-8"

namespace Key

/-- A zero byte becomes `00 ff`, and `00 00` ends the text. -/
def escape : Bytes → Bytes
  | [] => [0x00, 0x00]
  | b :: r => if b = 0x00 then 0x00 :: 0xff :: escape r else b :: escape r

/-- Undoes `escape` from offset `pos` on: the bytes, the offset behind their end mark, and the
rest. -/
def unescape (pos : Nat) : Bytes → Except KeyError (Bytes × Nat × Bytes)
  | [] => .error (.truncated pos)
  | [_] => .error (.truncated (pos + 1))
  | b :: c :: r =>
    if b = 0x00 then
      if c = 0x00 then .ok ([], pos + 2, r)
      else if c = 0xff then (unescape (pos + 2) r).map fun x => (0x00 :: x.1, x.2)
      else .error (.badEscape pos)
    else (unescape (pos + 1) (c :: r)).map fun x => (b :: x.1, x.2)

def encodeText (s : String) : Bytes := escape (Text.utf8 s)

/-- The bytes are checked to be a text only once the end mark is found. -/
def decodeText (pos : Nat) (bs : Bytes) : Except KeyError (String × Nat × Bytes) := do
  let (raw, rest) ← unescape pos bs
  match Text.ofUtf8? raw with
  | some s => return (s, rest)
  | none => throw .notUtf8

def iriTag : UInt8 := 0x01
def literalTag : UInt8 := 0x02

/-- The annotations of a literal: which there are, then the language before the datatype. -/
def encodeAnnotations : Option String → Option String → Bytes
  | none, none => [0x00]
  | none, some language => 0x01 :: encodeText language
  | some datatype, none => 0x02 :: encodeText datatype
  | some datatype, some language => 0x03 :: (encodeText language ++ encodeText datatype)

def encodeNode : Node → Bytes
  | .iri text => iriTag :: encodeText text
  | .literal value datatype language =>
    literalTag :: (encodeText value ++ encodeAnnotations datatype language)

def decodeAnnotations (pos : Nat) :
    Bytes → Except KeyError ((Option String × Option String) × Bytes)
  | [] => .error (.truncated pos)
  | tag :: bs =>
    if tag = 0x00 then .ok ((none, none), bs)
    else if tag = 0x01 then do
      let (language, _, rest) ← decodeText (pos + 1) bs
      return ((none, some language), rest)
    else if tag = 0x02 then do
      let (datatype, _, rest) ← decodeText (pos + 1) bs
      return ((some datatype, none), rest)
    else if tag = 0x03 then do
      let (language, pos, rest) ← decodeText (pos + 1) bs
      let (datatype, _, rest) ← decodeText pos rest
      return ((some datatype, some language), rest)
    else .error (.unknownTag tag pos)

def decodeNode : Bytes → Except KeyError (Node × Bytes)
  | [] => .error (.truncated 0)
  | tag :: bs =>
    if tag = iriTag then do
      let (text, _, rest) ← decodeText 1 bs
      return (.iri text, rest)
    else if tag = literalTag then do
      let (value, pos, rest) ← decodeText 1 bs
      let ((datatype, language), rest) ← decodeAnnotations pos rest
      return (.literal value datatype language, rest)
    else .error (.unknownTag tag 0)

end Key

end TriplePlan
