import AuthDict.Preimage

/-!
# The bits of a label

A label is a path of 256 bits, counted from the most significant bit of its first byte. The labels
that share the first `depth` bits of a label form a range in the order of labels: `floor` and
`ceil` are its ends, with the remaining bits cleared or set.
-/
namespace AuthDict

/-- Bit `d` of a byte string; false past its end. -/
def bitAt : Bytes → Nat → Bool
  | [], _ => false
  | b :: bs, d => if d < 8 then b.toNat.testBit (7 - d) else bitAt bs (d - 8)

/-- The byte in which only bit `d`, for `d < 8`, is set. -/
def bitMask (d : Nat) : UInt8 := 0x80 >>> UInt8.ofNat d

/-- The byte in which the bits from `d` on, for `d < 8`, are set. -/
def tailMask (d : Nat) : UInt8 := 0xff >>> UInt8.ofNat d

def flipAt : Bytes → Nat → Bytes
  | [], _ => []
  | b :: bs, d => if d < 8 then (b ^^^ bitMask d) :: bs else b :: flipAt bs (d - 8)

def clearAt : Bytes → Nat → Bytes
  | [], _ => []
  | b :: bs, d => if d < 8 then (b &&& ~~~bitMask d) :: bs else b :: clearAt bs (d - 8)

/-- The bytes with every bit from `d` on cleared. -/
def floorAt : Bytes → Nat → Bytes
  | [], _ => []
  | b :: bs, d =>
    if d < 8 then (b &&& ~~~tailMask d) :: List.replicate bs.length 0 else b :: floorAt bs (d - 8)

/-- The bytes with every bit from `d` on set. -/
def ceilAt : Bytes → Nat → Bytes
  | [], _ => []
  | b :: bs, d =>
    if d < 8 then (b ||| tailMask d) :: List.replicate bs.length 0xff else b :: ceilAt bs (d - 8)

@[simp] theorem length_flipAt (bs : Bytes) (d : Nat) : (flipAt bs d).length = bs.length := by
  fun_induction flipAt bs d <;> simp_all

@[simp] theorem length_clearAt (bs : Bytes) (d : Nat) : (clearAt bs d).length = bs.length := by
  fun_induction clearAt bs d <;> simp_all

@[simp] theorem length_floorAt (bs : Bytes) (d : Nat) : (floorAt bs d).length = bs.length := by
  fun_induction floorAt bs d <;> simp_all

@[simp] theorem length_ceilAt (bs : Bytes) (d : Nat) : (ceilAt bs d).length = bs.length := by
  fun_induction ceilAt bs d <;> simp_all

namespace Label

def bit (label : Label) (depth : Nat) : Bool := bitAt label.bytes depth

/-- The label with the bit at a depth turned over. -/
def flip (label : Label) (depth : Nat) : Label :=
  ⟨flipAt label.bytes depth, by simp [label.length_eq]⟩

/-- The label with the bit at a depth cleared. -/
def clear (label : Label) (depth : Nat) : Label :=
  ⟨clearAt label.bytes depth, by simp [label.length_eq]⟩

/-- The least label with the same first `depth` bits. -/
def floor (label : Label) (depth : Nat) : Label :=
  ⟨floorAt label.bytes depth, by simp [label.length_eq]⟩

/-- The greatest label with the same first `depth` bits. -/
def ceil (label : Label) (depth : Nat) : Label :=
  ⟨ceilAt label.bytes depth, by simp [label.length_eq]⟩

end Label

end AuthDict
