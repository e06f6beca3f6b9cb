import AuthDict.Bytes

/-!
# UTF-8

`encode` writes Unicode text; `decode` reads it and refuses the first bytes that no text has. A
refusal tells where the bad sequence starts and, unless the input ended inside it, how many bytes
it has: the longest start of some character, and at least one byte.
-/
namespace AuthDict.Utf8

def encodeChar (c : Char) : Bytes :=
  let n := c.toNat
  if n < 0x80 then [UInt8.ofNat n]
  else if n < 0x800 then [UInt8.ofNat (0xc0 + n / 64), UInt8.ofNat (0x80 + n % 64)]
  else if n < 0x10000 then
    [UInt8.ofNat (0xe0 + n / 4096), UInt8.ofNat (0x80 + n / 64 % 64), UInt8.ofNat (0x80 + n % 64)]
  else
    [UInt8.ofNat (0xf0 + n / 262144), UInt8.ofNat (0x80 + n / 4096 % 64),
     UInt8.ofNat (0x80 + n / 64 % 64), UInt8.ofNat (0x80 + n % 64)]

def encode (text : List Char) : Bytes := text.flatMap encodeChar

/-- A sequence that starts at `index` and is no character, with its length unless the input ends
inside it. -/
structure Fault where
  index : Nat
  length : Option Nat
deriving DecidableEq, Repr

def isTail (b : UInt8) : Bool := 0x80 ≤ b && b ≤ 0xbf

/-- Whether a character of three or four bytes may start with the two bytes. -/
def isStart (a b : UInt8) : Bool :=
  if a = 0xe0 then 0xa0 ≤ b && b ≤ 0xbf
  else if a = 0xed then 0x80 ≤ b && b ≤ 0x9f
  else if a = 0xf0 then 0x90 ≤ b && b ≤ 0xbf
  else if a = 0xf4 then 0x80 ≤ b && b ≤ 0x8f
  else isTail b

/-- What an input starts with: a character, or a bad sequence of the given length. -/
def first : UInt8 → Bytes → Except (Option Nat) (Char × Bytes)
  | a, rest =>
    let low (b : UInt8) : Nat := b.toNat % 64
    if a < 0x80 then .ok (Char.ofNat a.toNat, rest)
    else if 0xc2 ≤ a ∧ a ≤ 0xdf then
      match rest with
      | [] => .error none
      | b :: rest =>
        if isTail b then .ok (Char.ofNat (a.toNat % 32 * 64 + low b), rest) else .error (some 1)
    else if 0xe0 ≤ a ∧ a ≤ 0xef then
      match rest with
      | [] => .error none
      | b :: rest =>
        if !isStart a b then .error (some 1) else
        match rest with
        | [] => .error none
        | c :: rest =>
          if isTail c then .ok (Char.ofNat (a.toNat % 16 * 4096 + low b * 64 + low c), rest)
          else .error (some 2)
    else if 0xf0 ≤ a ∧ a ≤ 0xf4 then
      match rest with
      | [] => .error none
      | b :: rest =>
        if !isStart a b then .error (some 1) else
        match rest with
        | [] => .error none
        | c :: rest =>
          if !isTail c then .error (some 2) else
          match rest with
          | [] => .error none
          | d :: rest =>
            if isTail d then
              .ok (Char.ofNat (a.toNat % 8 * 262144 + low b * 4096 + low c * 64 + low d), rest)
            else .error (some 3)
    else .error (some 1)

/-- Reads from `index` on; `fuel` bounds the number of characters. -/
def decodeFrom (read : List Char) (index : Nat) : Nat → Bytes → Except Fault (List Char)
  | 0, _ => .ok read.reverse
  | _, [] => .ok read.reverse
  | fuel + 1, a :: rest =>
    match first a rest with
    | .error length => .error ⟨index, length⟩
    | .ok (c, rest) => decodeFrom (c :: read) (index + c.utf8Size) fuel rest

def decode (bs : Bytes) : Except Fault (List Char) := decodeFrom [] 0 bs.length bs

def Fault.message (f : Fault) : String :=
  match f.length with
  | some n =>
    "invalid utf-8 sequence of " ++ toString n ++ " bytes from index " ++ toString f.index
  | none => "incomplete utf-8 byte sequence from index " ++ toString f.index

end AuthDict.Utf8
