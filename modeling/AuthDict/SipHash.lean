import AuthDict.Bytes

/-!
# SipHash-1-3

The short-input hash with one compression round per word and three finishing rounds, under the
all-zero key. `SipHash.hash` takes the message as bytes; its last word carries the message length
in the top byte.
-/
namespace AuthDict.SipHash

structure State where
  v0 : UInt64
  v1 : UInt64
  v2 : UInt64
  v3 : UInt64
deriving DecidableEq, Repr

def State.round (s : State) : State :=
  let a := s.v0 + s.v1
  let b := rotl s.v1 13 ^^^ a
  let c := s.v2 + s.v3
  let d := rotl s.v3 16 ^^^ c
  let e := rotl a 32 + d
  let f := c + b
  { v0 := e, v1 := rotl b 17 ^^^ f, v2 := rotl f 32, v3 := rotl d 21 ^^^ e }

/-- The state under the zero key. -/
def State.start : State :=
  ⟨0x736f6d6570736575, 0x646f72616e646f6d, 0x6c7967656e657261, 0x7465646279746573⟩

def State.absorb (s : State) (w : UInt64) : State :=
  let t := State.round { s with v3 := s.v3 ^^^ w }
  { t with v0 := t.v0 ^^^ w }

/-- The message words, the last of which holds the bytes left over and the message length. -/
def words (length : Nat) : Bytes → List UInt64
  | b0 :: b1 :: b2 :: b3 :: b4 :: b5 :: b6 :: b7 :: rest =>
    UInt64.ofNat (ofLE [b0, b1, b2, b3, b4, b5, b6, b7]) :: words length rest
  | tail => [UInt64.ofNat (ofLE tail + (length % 256) <<< 56)]

def hash (message : Bytes) : UInt64 :=
  let s := (words message.length message).foldl State.absorb .start
  let t := { s with v2 := s.v2 ^^^ 0xff }.round.round.round
  t.v0 ^^^ t.v1 ^^^ t.v2 ^^^ t.v3

end AuthDict.SipHash
