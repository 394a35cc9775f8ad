import TriplePlan.Cbor.Writer

/-!
Reading CBOR from the front of a byte string. Heads of any width, indefinite lengths and tags are
accepted, and what follows the item is left over. A reader takes what it needs: further elements
of an array that holds a pair or a record stay unread, and nesting is bounded.
-/
namespace TriplePlan.Cbor

abbrev Reader (α : Type) := StateT Bytes Option α

/-- What a head announces. A length is absent where parts follow up to a stop mark. -/
inductive Head where
  | unsigned (n : Nat)
  | negative (n : Nat)
  | bytes (length : Option Nat)
  | text (length : Option Nat)
  | array (length : Option Nat)
  | map (length : Option Nat)
  | tag (n : Nat)
  | simple (n : Nat)
  | float
  | stop
deriving DecidableEq

namespace Reader

variable {α β κ σ : Type}

def fail : Reader α := fun _ => none

def take (n : Nat) : Reader Bytes := fun bs =>
  if n ≤ bs.length then some (bs.take n, bs.drop n) else none

def natOf (bs : Bytes) : Nat := bs.foldl (fun n b => n * 256 + b.toNat) 0

def nat (width : Nat) : Reader Nat := natOf <$> take width

def count (low : Nat) : Reader (Option Nat) :=
  if low < 24 then return some low
  else if low = 24 then some <$> nat 1
  else if low = 25 then some <$> nat 2
  else if low = 26 then some <$> nat 4
  else if low = 27 then some <$> nat 8
  else if low = 31 then return none
  else fail

def head : Reader Head := do
  let first ← nat 1
  let low := first % 32
  let n ← count low
  match first / 32, n with
  | 0, some n => return .unsigned n
  | 1, some n => return .negative n
  | 2, n => return .bytes n
  | 3, n => return .text n
  | 4, n => return .array n
  | 5, n => return .map n
  | 6, some n => return .tag n
  | 7, none => return .stop
  | 7, some n => return if low ≤ 24 then .simple n else .float
  | _, _ => fail

def tags : Nat → Reader Unit
  | 0 => return
  | fuel + 1 => fun bs =>
    match head bs with
    | some (.tag _, rest) => tags fuel rest
    | _ => some ((), bs)

def untagged : Reader Head := fun bs => (do tags bs.length; head) bs

/-- The parts of a byte string or text of indefinite length, which may be nested, up to the stop
mark. -/
def parts (length? : Head → Option (Option Nat)) : (fuel depth : Nat) → Reader (List Bytes)
  | 0, _ => fail
  | fuel + 1, depth => do
    match ← head with
    | .stop => if depth = 0 then return [] else parts length? fuel (depth - 1)
    | h =>
      match length? h with
      | none => fail
      | some none => parts length? fuel (depth + 1)
      | some (some n) => return (← take n) :: (← parts length? fuel depth)

def bytesLength? : Head → Option (Option Nat)
  | .bytes n => some n
  | _ => none

def textLength? : Head → Option (Option Nat)
  | .text n => some n
  | _ => none

def partsOf (length? : Head → Option (Option Nat)) : Option Nat → Reader (List Bytes)
  | some n => return [← take n]
  | none => fun bs => parts length? bs.length 0 bs

def checked (bs : Bytes) : Reader String := fun rest => (Text.ofUtf8? bs).map (·, rest)

/-- Each part of a text is well-formed on its own. -/
def textBody (length : Option Nat) : Reader String := do
  return String.join (← (← partsOf textLength? length).mapM checked)

def bytesBody (length : Option Nat) : Reader Bytes := do
  return (← partsOf bytesLength? length).flatten

def text : Reader String := do
  match ← untagged with
  | .text n => textBody n
  | _ => fail

/-- A big number has at most sixteen bytes behind its leading zeros. -/
def big : Reader Nat := do
  match ← head with
  | .bytes n =>
    let bs := (← bytesBody n).dropWhile (· = 0)
    if bs.length ≤ 16 then return natOf bs else fail
  | _ => fail

def unsigned : Nat → Reader Nat
  | 0 => fail
  | fuel + 1 => do
    match ← head with
    | .unsigned n => return n
    | .tag 2 => big
    | .tag 3 => fail
    | .tag _ => unsigned fuel
    | _ => fail

def natBelow (bound : Nat) : Reader Nat := fun bs => do
  let (n, rest) ← unsigned (bs.length + 1) bs
  if n < bound then some (n, rest) else none

def nameLimit : Nat := 4096

def name : Reader Bytes := do
  match ← untagged with
  | .text (some n) =>
    if n ≤ nameLimit then return Text.utf8 (← checked (← take n)) else fail
  | .bytes (some n) => if n ≤ nameLimit then take n else fail
  | _ => fail

/-- The name of a variant, with its content next: a map of one entry, or the two one after the
other. -/
def variant : Reader Bytes := do
  tags (← get).length
  let start ← get
  match ← head with
  | .map (some 1) => name
  | .text _ => set start; name
  | _ => fail

def option (read : Reader α) : Reader (Option α) := fun bs =>
  match head bs with
  | some (.simple 22, rest) => some (none, rest)
  | some (.simple 23, rest) => some (none, rest)
  | _ => (some <$> read) bs

def more : Reader Bool := fun bs =>
  match head bs with
  | some (.stop, rest) => some (false, rest)
  | some _ => some (true, bs)
  | none => none

def foldTimes (step : σ → Reader σ) : Nat → σ → Reader σ
  | 0, x => return x
  | n + 1, x => do foldTimes step n (← step x)

def foldToStop (step : σ → Reader σ) : Nat → σ → Reader σ
  | 0, _ => fail
  | fuel + 1, x => do if ← more then foldToStop step fuel (← step x) else return x

def foldItems (step : σ → Reader σ) (length : Option Nat) (x : σ) : Reader σ :=
  match length with
  | some n => foldTimes step n x
  | none => fun bs => foldToStop step (bs.length + 1) x bs

/-- The elements of an array; an empty byte string is an array without any. -/
def list (read : Reader α) : Reader (List α) := do
  match ← untagged with
  | .array n => return (← foldItems (fun l => return (← read) :: l) n []).reverse
  | .bytes n => if (← bytesBody n).isEmpty then return [] else fail
  | _ => fail

def bytes : Reader Bytes := do
  match ← untagged with
  | .array n =>
    return ((← foldItems (fun l => return (← natBelow 256) :: l) n []).reverse).map UInt8.ofNat
  | .bytes n => bytesBody n
  | _ => fail

def present (place : Nat) : Option Nat → Reader Bool
  | some n => return place < n
  | none => more

/-- The first two elements of an array. Whatever else it has is left over. -/
def pair (first : Reader α) (second : Reader β) : Reader (α × β) := do
  match ← untagged with
  | .array n =>
    unless ← present 0 n do fail
    let a ← first
    unless ← present 1 n do fail
    return (a, ← second)
  | _ => fail

def entriesOf (key : Reader κ) (step : σ → κ → Reader σ) (length : Option Nat) (start : σ) :
    Reader σ :=
  foldItems (fun x => do step x (← key)) length start

def entries (key : Reader κ) (step : σ → κ → Reader σ) (start : σ) : Reader σ := do
  match ← untagged with
  | .map n => entriesOf key step n start
  | _ => fail

def once (old : Option α) (read : Reader α) : Reader (Option α) :=
  match old with
  | none => some <$> read
  | some _ => fail

def required (field : Option α) : Reader α := fun bs => field.map (·, bs)

/-- Passes over the content of a tag as one number, if the tag announces a big number and at most
sixteen bytes in one part come next. A negative one has to fit into 128 bits with its sign. -/
def skipNumber (tag : Nat) : Reader Bool := fun bs =>
  match head bs with
  | some (.bytes (some n), rest) =>
    if (tag = 2 ∨ tag = 3) ∧ n ≤ 16 then do
      let (content, rest) ← take n rest
      if tag = 3 ∧ 1 <<< 127 ≤ natOf content then none else some (true, rest)
    else some (false, bs)
  | _ => some (false, bs)

def skipFlat : Head → Reader Unit
  | .tag n => do unless ← skipNumber n do fail
  | .bytes n => discard (bytesBody n)
  | .text n => discard (textBody n)
  | .simple n => if 20 ≤ n ∧ n ≤ 23 then return else fail
  | .unsigned _ => return
  | .negative _ => return
  | .float => return
  | _ => fail

/-- Passes over an item of any kind, nested at most `room` deep. The content of a tag is one level
below it, unless both are one number. -/
def skip : (room : Nat) → Reader Unit
  | 0 => do skipFlat (← head)
  | room + 1 => do
    match ← head with
    | .array n => foldItems (fun _ => skip room) n ()
    | .map n => foldItems (fun _ => do skip room; skip room) n ()
    | .tag n => do unless ← skipNumber n do skip room
    | h => skipFlat h

def depth : Nat := 256

end Reader

/-- The item at the front of a byte string; bytes behind it are ignored. -/
def read? {α : Type} (reader : Reader α) (bs : Bytes) : Option α := (reader bs).map (·.1)

end TriplePlan.Cbor
