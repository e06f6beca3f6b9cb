/-!
# Byte strings

A byte string is a list of octets. A `Block n` is a byte string of exactly `n` octets: digests,
labels, commitments and keys are blocks, so their length is part of their type. Blocks are
ordered as their bytes are, lexicographically.

`leBytes` and `ofLE` write and read little-endian numbers; `Hex` writes and reads hexadecimal text.
-/
namespace AuthDict

abbrev Bytes := List UInt8

/-- A byte string of length `n`. -/
structure Block (n : Nat) where
  bytes : Bytes
  length_eq : bytes.length = n
deriving DecidableEq, Repr

theorem Block.ext {n : Nat} {a b : Block n} (h : a.bytes = b.bytes) : a = b := by
  cases a; cases b; simp_all

theorem Block.ext_iff {n : Nat} {a b : Block n} : a = b ↔ a.bytes = b.bytes :=
  ⟨congrArg Block.bytes, Block.ext⟩

/-- The bytes as a block, if there are exactly `n`. -/
def Block.ofBytes? (n : Nat) (bs : Bytes) : Option (Block n) :=
  if h : bs.length = n then some ⟨bs, h⟩ else none

theorem Block.ofBytes?_eq_some_iff {n : Nat} {bs : Bytes} {b : Block n} :
    Block.ofBytes? n bs = some b ↔ b.bytes = bs := by
  unfold Block.ofBytes?
  split
  · simp [Block.ext_iff, eq_comm]
  · next h => simp only [reduceCtorEq, false_iff]; rintro rfl; exact h b.length_eq

@[simp] theorem Block.ofBytes?_bytes {n : Nat} (b : Block n) : Block.ofBytes? n b.bytes = some b :=
  Block.ofBytes?_eq_some_iff.2 rfl

def Block.zero (n : Nat) : Block n := ⟨List.replicate n 0, by simp⟩

instance (n : Nat) : Inhabited (Block n) := ⟨Block.zero n⟩

instance (n : Nat) : Ord (Block n) where
  compare a b := compare a.bytes b.bytes

theorem Block.compare_eq {n : Nat} (a b : Block n) : compare a b = compare a.bytes b.bytes := rfl

instance (n : Nat) : Std.TransOrd (Block n) where
  eq_swap {a b} := by
    rw [Block.compare_eq, Block.compare_eq]; exact Std.OrientedOrd.eq_swap
  isLE_trans {a b c} hab hbc := by
    rw [Block.compare_eq] at *; exact Std.TransOrd.isLE_trans hab hbc

instance (n : Nat) : Std.LawfulEqOrd (Block n) where
  compare_self {a} := by rw [Block.compare_eq]; exact Std.ReflOrd.compare_self
  eq_of_compare {a b} h := Block.ext (Std.LawfulEqOrd.eq_of_compare h)

/-- The `n` low bytes of `k`, least significant first. -/
def leBytes : Nat → Nat → Bytes
  | 0, _ => []
  | n + 1, k => UInt8.ofNat k :: leBytes n (k / 256)

/-- The number whose little-endian digits to base 256 are the bytes. -/
def ofLE : Bytes → Nat
  | [] => 0
  | b :: bs => b.toNat + 256 * ofLE bs

@[simp] theorem length_leBytes (n k : Nat) : (leBytes n k).length = n := by
  induction n generalizing k with
  | zero => rfl
  | succ n ih => simp [leBytes, ih]

def Block.ofNat (n k : Nat) : Block n := ⟨leBytes n k, length_leBytes n k⟩

/-- The number a block spells in little-endian order. -/
def Block.toNat {n : Nat} (b : Block n) : Nat := ofLE b.bytes

/-- Rotation to the left by `n`, for `0 < n < 64`. -/
@[inline] def rotl (w n : UInt64) : UInt64 := (w <<< n) ||| (w >>> (64 - n))

namespace Hex

def digit (n : Nat) : Char :=
  if n < 10 then Char.ofNat (48 + n) else Char.ofNat (87 + n)

/-- Two digits per byte, high half first. -/
def chars : Bytes → List Char
  | [] => []
  | b :: bs => digit (b.toNat / 16) :: digit (b.toNat % 16) :: chars bs

def encode (bs : Bytes) : String := String.ofList (chars bs)

/-- Why a text is not hexadecimal. The offending character is named by its code unit and index. -/
inductive Fault where
  | oddLength
  | badDigit (unit : UInt8) (index : Nat)
deriving DecidableEq, Repr

def value? (c : UInt8) : Option UInt8 :=
  if 48 ≤ c ∧ c ≤ 57 then some (c - 48)
  else if 97 ≤ c ∧ c ≤ 102 then some (c - 87)
  else if 65 ≤ c ∧ c ≤ 70 then some (c - 55)
  else none

/-- Reads digit pairs; `index` is where the first of them stands. -/
def decodePairs (index : Nat) : Bytes → Except Fault Bytes
  | hi :: lo :: rest =>
    match value? hi, value? lo with
    | some h, some l => (decodePairs (index + 2) rest).map fun bs => (16 * h + l) :: bs
    | some _, none => .error (.badDigit lo (index + 1))
    | none, _ => .error (.badDigit hi index)
  | _ => .ok []

/-- Reads hexadecimal text of either case. An odd length is reported before any bad digit. -/
def decode (text : Bytes) : Except Fault Bytes :=
  if text.length % 2 = 1 then .error .oddLength else decodePairs 0 text

end Hex

def Block.hex {n : Nat} (b : Block n) : String := Hex.encode b.bytes

end AuthDict
