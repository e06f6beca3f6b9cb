import AuthDict.Bytes

/-!
# The Keccak sponge

The permutation on 25 lanes of 64 bits, and the two 256-bit hash functions built on it. They
absorb 136 bytes at a time and differ only in the padding byte: `keccak256` pads with `01`,
`sha3` with `06`. Lane `axy` stands in column `x` and row `y`.
-/
namespace AuthDict

abbrev Digest := Block 32

namespace Keccak

structure State where
  a00 : UInt64 := 0
  a10 : UInt64 := 0
  a20 : UInt64 := 0
  a30 : UInt64 := 0
  a40 : UInt64 := 0
  a01 : UInt64 := 0
  a11 : UInt64 := 0
  a21 : UInt64 := 0
  a31 : UInt64 := 0
  a41 : UInt64 := 0
  a02 : UInt64 := 0
  a12 : UInt64 := 0
  a22 : UInt64 := 0
  a32 : UInt64 := 0
  a42 : UInt64 := 0
  a03 : UInt64 := 0
  a13 : UInt64 := 0
  a23 : UInt64 := 0
  a33 : UInt64 := 0
  a43 : UInt64 := 0
  a04 : UInt64 := 0
  a14 : UInt64 := 0
  a24 : UInt64 := 0
  a34 : UInt64 := 0
  a44 : UInt64 := 0
deriving DecidableEq, Repr

/-- One round: column parities, lane rotations and moves, row mixing, round constant. -/
def State.round (s : State) (constant : UInt64) : State :=
  let c0 := s.a00 ^^^ s.a01 ^^^ s.a02 ^^^ s.a03 ^^^ s.a04
  let c1 := s.a10 ^^^ s.a11 ^^^ s.a12 ^^^ s.a13 ^^^ s.a14
  let c2 := s.a20 ^^^ s.a21 ^^^ s.a22 ^^^ s.a23 ^^^ s.a24
  let c3 := s.a30 ^^^ s.a31 ^^^ s.a32 ^^^ s.a33 ^^^ s.a34
  let c4 := s.a40 ^^^ s.a41 ^^^ s.a42 ^^^ s.a43 ^^^ s.a44
  let d0 := c4 ^^^ rotl c1 1
  let d1 := c0 ^^^ rotl c2 1
  let d2 := c1 ^^^ rotl c3 1
  let d3 := c2 ^^^ rotl c4 1
  let d4 := c3 ^^^ rotl c0 1
  let b00 := s.a00 ^^^ d0
  let b10 := rotl (s.a11 ^^^ d1) 44
  let b20 := rotl (s.a22 ^^^ d2) 43
  let b30 := rotl (s.a33 ^^^ d3) 21
  let b40 := rotl (s.a44 ^^^ d4) 14
  let b01 := rotl (s.a30 ^^^ d3) 28
  let b11 := rotl (s.a41 ^^^ d4) 20
  let b21 := rotl (s.a02 ^^^ d0) 3
  let b31 := rotl (s.a13 ^^^ d1) 45
  let b41 := rotl (s.a24 ^^^ d2) 61
  let b02 := rotl (s.a10 ^^^ d1) 1
  let b12 := rotl (s.a21 ^^^ d2) 6
  let b22 := rotl (s.a32 ^^^ d3) 25
  let b32 := rotl (s.a43 ^^^ d4) 8
  let b42 := rotl (s.a04 ^^^ d0) 18
  let b03 := rotl (s.a40 ^^^ d4) 27
  let b13 := rotl (s.a01 ^^^ d0) 36
  let b23 := rotl (s.a12 ^^^ d1) 10
  let b33 := rotl (s.a23 ^^^ d2) 15
  let b43 := rotl (s.a34 ^^^ d3) 56
  let b04 := rotl (s.a20 ^^^ d2) 62
  let b14 := rotl (s.a31 ^^^ d3) 55
  let b24 := rotl (s.a42 ^^^ d4) 39
  let b34 := rotl (s.a03 ^^^ d0) 41
  let b44 := rotl (s.a14 ^^^ d1) 2
  { a00 := b00 ^^^ (~~~b10 &&& b20) ^^^ constant, a10 := b10 ^^^ (~~~b20 &&& b30),
    a20 := b20 ^^^ (~~~b30 &&& b40), a30 := b30 ^^^ (~~~b40 &&& b00),
    a40 := b40 ^^^ (~~~b00 &&& b10),
    a01 := b01 ^^^ (~~~b11 &&& b21), a11 := b11 ^^^ (~~~b21 &&& b31),
    a21 := b21 ^^^ (~~~b31 &&& b41), a31 := b31 ^^^ (~~~b41 &&& b01),
    a41 := b41 ^^^ (~~~b01 &&& b11),
    a02 := b02 ^^^ (~~~b12 &&& b22), a12 := b12 ^^^ (~~~b22 &&& b32),
    a22 := b22 ^^^ (~~~b32 &&& b42), a32 := b32 ^^^ (~~~b42 &&& b02),
    a42 := b42 ^^^ (~~~b02 &&& b12),
    a03 := b03 ^^^ (~~~b13 &&& b23), a13 := b13 ^^^ (~~~b23 &&& b33),
    a23 := b23 ^^^ (~~~b33 &&& b43), a33 := b33 ^^^ (~~~b43 &&& b03),
    a43 := b43 ^^^ (~~~b03 &&& b13),
    a04 := b04 ^^^ (~~~b14 &&& b24), a14 := b14 ^^^ (~~~b24 &&& b34),
    a24 := b24 ^^^ (~~~b34 &&& b44), a34 := b34 ^^^ (~~~b44 &&& b04),
    a44 := b44 ^^^ (~~~b04 &&& b14) }

def roundConstants : List UInt64 :=
  [0x0000000000000001, 0x0000000000008082, 0x800000000000808A,
   0x8000000080008000, 0x000000000000808B, 0x0000000080000001,
   0x8000000080008081, 0x8000000000008009, 0x000000000000008A,
   0x0000000000000088, 0x0000000080008009, 0x000000008000000A,
   0x000000008000808B, 0x800000000000008B, 0x8000000000008089,
   0x8000000000008003, 0x8000000000008002, 0x8000000000000080,
   0x000000000000800A, 0x800000008000000A, 0x8000000080008081,
   0x8000000000008080, 0x0000000080000001, 0x8000000080008008]

def State.permute (s : State) : State := roundConstants.foldl State.round s

/-- The word spelled by eight bytes, least significant first. -/
@[inline] def word (b0 b1 b2 b3 b4 b5 b6 b7 : UInt8) : UInt64 :=
  b0.toUInt64 ||| (b1.toUInt64 <<< 8) ||| (b2.toUInt64 <<< 16) ||| (b3.toUInt64 <<< 24) |||
  (b4.toUInt64 <<< 32) ||| (b5.toUInt64 <<< 40) ||| (b6.toUInt64 <<< 48) ||| (b7.toUInt64 <<< 56)

def words : Bytes → List UInt64
  | b0 :: b1 :: b2 :: b3 :: b4 :: b5 :: b6 :: b7 :: rest =>
    word b0 b1 b2 b3 b4 b5 b6 b7 :: words rest
  | _ => []

/-- Absorbs the words 17 at a time. -/
def absorb : State → List UInt64 → State
  | s, w0 :: w1 :: w2 :: w3 :: w4 :: w5 :: w6 :: w7 :: w8 ::
      w9 :: w10 :: w11 :: w12 :: w13 :: w14 :: w15 :: w16 :: rest =>
    absorb
      (State.permute { s with
        a00 := s.a00 ^^^ w0, a10 := s.a10 ^^^ w1, a20 := s.a20 ^^^ w2,
        a30 := s.a30 ^^^ w3, a40 := s.a40 ^^^ w4, a01 := s.a01 ^^^ w5,
        a11 := s.a11 ^^^ w6, a21 := s.a21 ^^^ w7, a31 := s.a31 ^^^ w8,
        a41 := s.a41 ^^^ w9, a02 := s.a02 ^^^ w10, a12 := s.a12 ^^^ w11,
        a22 := s.a22 ^^^ w12, a32 := s.a32 ^^^ w13, a42 := s.a42 ^^^ w14,
        a03 := s.a03 ^^^ w15, a13 := s.a13 ^^^ w16 })
      rest
  | s, _ => s

/-- The bytes that fill a message of length `n` up to a multiple of 136. -/
def padding (marker : UInt8) (n : Nat) : Bytes :=
  let free := 136 - n % 136
  if free = 1 then [marker ||| 0x80] else marker :: (List.replicate (free - 2) 0 ++ [0x80])

def laneBytes (w : UInt64) : Bytes :=
  [w.toUInt8, (w >>> 8).toUInt8, (w >>> 16).toUInt8, (w >>> 24).toUInt8,
   (w >>> 32).toUInt8, (w >>> 40).toUInt8, (w >>> 48).toUInt8, (w >>> 56).toUInt8]

/-- The first four lanes of the bottom row. -/
def State.digest (s : State) : Digest :=
  ⟨laneBytes s.a00 ++ laneBytes s.a10 ++ laneBytes s.a20 ++ laneBytes s.a30, rfl⟩

def sponge (marker : UInt8) (message : Bytes) : Digest :=
  (absorb {} (words (message ++ padding marker message.length))).digest

end Keccak

def keccak256 (message : Bytes) : Digest := Keccak.sponge 0x01 message

def sha3 (message : Bytes) : Digest := Keccak.sponge 0x06 message

end AuthDict
