import AuthDict.Duration
import AuthDict.Text.Literal
import AuthDict.Text.Utf8

/-!
# Values as bytes

The binary form of a value is the concatenation of those of its parts: numbers of fixed width in
little-endian order, a four-byte index for a choice, a tag byte before an optional part, an
eight-byte length before a text, a list or a map. A reader takes what it needs from the front of
its input and leaves the rest.
-/
namespace AuthDict

namespace Binary

/-- Why bytes could not be read. -/
inductive Fault where
  | endOfInput
  /-- A text is declared longer than the input. -/
  | textPastEnd
  | badChoice (index count : Nat)
  | badOptionTag (tag : UInt8)
  | badBool (tag : UInt8)
  | badText (fault : Utf8.Fault)
  | durationTooLong
  | badHex (fault : Hex.Fault)
  | seedLength
deriving DecidableEq, Repr

/-- Reads a value from the front of the input. -/
def Reader (α : Type) : Type := Bytes → Except Fault (α × Bytes)

instance : Monad Reader where
  pure a := fun bs => .ok (a, bs)
  bind r f := fun bs =>
    match r bs with
    | .ok (a, rest) => f a rest
    | .error e => .error e

namespace Reader

def fail {α : Type} (fault : Fault) : Reader α := fun _ => .error fault

def take (n : Nat) : Reader Bytes := fun bs =>
  if (bs.take n).length = n then .ok (bs.take n, bs.drop n) else .error .endOfInput

def block (n : Nat) : Reader (Block n) := fun bs =>
  if h : (bs.take n).length = n then .ok (⟨bs.take n, h⟩, bs.drop n) else .error .endOfInput

def nat (n : Nat) : Reader Nat := do return ofLE (← take n)

def byte : Reader UInt8 := fun
  | b :: rest => .ok (b, rest)
  | [] => .error .endOfInput

/-- A choice between `count` alternatives. -/
def choice (count : Nat) : Reader Nat := do
  let index ← nat 4
  if index < count then return index else fail (.badChoice index count)

def option {α : Type} (r : Reader α) : Reader (Option α) := do
  match ← byte with
  | 0 => return none
  | 1 => return some (← r)
  | tag => fail (.badOptionTag tag)

/-- As many values as `count` tells. -/
def replicate {α : Type} (r : Reader α) : Nat → Reader (List α)
  | 0 => return []
  | count + 1 => do return (← r) :: (← replicate r count)

def list {α : Type} (r : Reader α) : Reader (List α) := do replicate r (← nat 8)

def bytes : Reader Bytes := do take (← nat 8)

def text : Reader (List Char) := do
  let length ← nat 8
  let bs ← fun bs => if bs.length < length then .error .textPastEnd else take length bs
  match Utf8.decode bs with
  | .ok cs => return cs
  | .error fault => fail (.badText fault)

end Reader

def Fault.message : Fault → String
  | endOfInput => "io error: unexpected end of file"
  | textPastEnd => "io error: "
  | badChoice index count =>
    "invalid value: integer `" ++ toString index ++ "`, expected variant index 0 <= i < "
      ++ toString count
  | badOptionTag tag => "tag for enum is not valid, found " ++ toString tag.toNat
  | badBool tag => "invalid u8 while decoding bool, expected 0 or 1, found " ++ toString tag.toNat
  | badText fault => "string is not valid utf8: " ++ fault.message
  | durationTooLong => "overflow deserializing Duration"
  | badHex fault => fault.message
  | seedLength => "label seed must be 32 bytes"

end Binary

class BinaryForm (α : Type) where
  encode : α → Bytes
  reader : Binary.Reader α

namespace Binary

variable {α : Type}

def encode [BinaryForm α] (a : α) : Bytes := BinaryForm.encode a

/-- Reads a value and ignores the bytes after it. -/
def decode [BinaryForm α] (bs : Bytes) : Except Fault α :=
  (BinaryForm.reader bs).map (·.1)

/-- A list with its length in front. -/
def encodeList [BinaryForm α] (as : List α) : Bytes :=
  leBytes 8 as.length ++ as.flatMap encode

end Binary

instance {n : Nat} : BinaryForm (Block n) where
  encode b := b.bytes
  reader := .block n

instance : BinaryForm UInt64 where
  encode n := leBytes 8 n.toNat
  reader := do return UInt64.ofNat (← .nat 8)

instance : BinaryForm Bool where
  encode b := [if b then 1 else 0]
  reader := do
    match ← .byte with
    | 0 => return false
    | 1 => return true
    | tag => .fail (.badBool tag)

instance : BinaryForm Bytes where
  encode bs := leBytes 8 bs.length ++ bs
  reader := .bytes

instance {α : Type} [BinaryForm α] : BinaryForm (Option α) where
  encode
    | none => [0]
    | some a => 1 :: BinaryForm.encode a
  reader := .option BinaryForm.reader

instance {α β : Type} [BinaryForm α] [BinaryForm β] : BinaryForm (α × β) where
  encode p := BinaryForm.encode p.1 ++ BinaryForm.encode p.2
  reader := do return (← BinaryForm.reader, ← BinaryForm.reader)

instance : BinaryForm Duration where
  encode d := leBytes 8 d.secs.toNat ++ leBytes 4 d.nanos
  reader := do
    let secs ← .nat 8
    let nanos ← .nat 4
    match Duration.ofParts? secs nanos with
    | some d => return d
    | none => .fail .durationTooLong

end AuthDict
