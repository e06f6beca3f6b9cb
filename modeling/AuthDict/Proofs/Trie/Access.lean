import AuthDict.Proofs.Trie.LabelBits
import AuthDict.Trie.Basic

/-!
# Checked access to labels

The bits and ranges of a label once more, byte by byte: what is asked for is looked up by its index,
and where there is no such byte there is no result. Nor is there one for a range of more bits than a
label has, or for a depth that a key of two bytes cannot hold. Within the bounds the results are
those of the operations without checks.
-/
namespace AuthDict

/-- The bytes from an index on replaced by one. -/
def fillFrom (bs : Bytes) (i : Nat) (b : UInt8) : Bytes :=
  bs.take i ++ List.replicate (bs.length - i) b

@[simp] theorem length_fillFrom (bs : Bytes) (i : Nat) (b : UInt8) :
    (fillFrom bs i b).length = bs.length := by
  simp only [fillFrom, List.length_append, List.length_take, List.length_replicate]
  omega

@[simp] theorem fillFrom_cons_succ (b : UInt8) (bs : Bytes) (i : Nat) (c : UInt8) :
    fillFrom (b :: bs) (i + 1) c = b :: fillFrom bs i c := by
  simp [fillFrom]

@[simp] theorem fillFrom_zero (bs : Bytes) (b : UInt8) :
    fillFrom bs 0 b = List.replicate bs.length b := by
  simp [fillFrom]

variable {bs : Bytes} {d : Nat}

/-- Bit `d` of a byte string is bit `d % 8` of the byte at `d / 8`. -/
theorem index_of_lt (h : d < 8) : d / 8 = 0 ∧ d % 8 = d := ⟨Nat.div_eq_of_lt h, Nat.mod_eq_of_lt h⟩

theorem index_of_not_lt (h : ¬d < 8) : d / 8 = (d - 8) / 8 + 1 ∧ d % 8 = (d - 8) % 8 := by
  omega

theorem bitAt_eq_getElem? (bs : Bytes) (d : Nat) :
    bitAt bs d = ((bs[d / 8]?).map fun b => b.toNat.testBit (7 - d % 8)).getD false := by
  fun_induction bitAt bs d with
  | case1 d => simp
  | case2 d b bs h => simp [index_of_lt h]
  | case3 d b bs h ih => simp [index_of_not_lt h, ih]

theorem flipAt_eq_modify (bs : Bytes) (d : Nat) :
    flipAt bs d = bs.modify (d / 8) (· ^^^ bitMask (d % 8)) := by
  fun_induction flipAt bs d with
  | case1 d => simp
  | case2 d b bs h => simp [index_of_lt h]
  | case3 d b bs h ih => simp [index_of_not_lt h, ih]

theorem clearAt_eq_modify (bs : Bytes) (d : Nat) :
    clearAt bs d = bs.modify (d / 8) (· &&& ~~~bitMask (d % 8)) := by
  fun_induction clearAt bs d with
  | case1 d => simp
  | case2 d b bs h => simp [index_of_lt h]
  | case3 d b bs h ih => simp [index_of_not_lt h, ih]

theorem floorAt_eq_fillFrom (bs : Bytes) (d : Nat) :
    floorAt bs d = fillFrom (bs.modify (d / 8) (· &&& ~~~tailMask (d % 8))) (d / 8 + 1) 0 := by
  fun_induction floorAt bs d with
  | case1 d => simp [fillFrom]
  | case2 d b bs h => simp [index_of_lt h]
  | case3 d b bs h ih => simp [index_of_not_lt h, ih]

theorem ceilAt_eq_fillFrom (bs : Bytes) (d : Nat) :
    ceilAt bs d = fillFrom (bs.modify (d / 8) (· ||| tailMask (d % 8))) (d / 8 + 1) 0xff := by
  fun_induction ceilAt bs d with
  | case1 d => simp [fillFrom]
  | case2 d b bs h => simp [index_of_lt h]
  | case3 d b bs h ih => simp [index_of_not_lt h, ih]

theorem ceilAt_of_length_le (h : 8 * bs.length ≤ d) : ceilAt bs d = bs := by
  induction bs generalizing d with
  | nil => rfl
  | cons b bs ih =>
    rw [List.length_cons] at h
    have hd : ¬d < 8 := by omega
    rw [ceilAt, if_neg hd, ih (by omega)]

/-- The result of a computation whose steps are checked; there is none if a check fails or if the
computation does not end in the rounds it is given. -/
abbrev Checked (α : Type) : Type := Option α

namespace Checked

def bit (label : Label) (depth : Nat) : Checked Bool :=
  (label.bytes[depth / 8]?).map fun b => b.toNat.testBit (7 - depth % 8)

/-- The label with the byte at an index changed. -/
def change (label : Label) (i : Nat) (f : UInt8 → UInt8) : Checked Label :=
  if i < label.bytes.length then some ⟨label.bytes.modify i f, by simp [label.length_eq]⟩ else none

/-- The label with the bytes from an index on replaced by one; the index may be that of the end. -/
def fill (label : Label) (i : Nat) (b : UInt8) : Checked Label :=
  if i ≤ label.bytes.length then some ⟨fillFrom label.bytes i b, by simp [label.length_eq]⟩
  else none

def flip (label : Label) (depth : Nat) : Checked Label :=
  change label (depth / 8) (· ^^^ bitMask (depth % 8))

def clear (label : Label) (depth : Nat) : Checked Label :=
  change label (depth / 8) (· &&& ~~~bitMask (depth % 8))

/-- The least and the greatest label with the same first `depth` bits. The whole label is a prefix
of its own. -/
def range (label : Label) (depth : Nat) : Checked (Label × Label) := do
  if 256 < depth then none
  else if depth / 8 < label.bytes.length then
    let lo ← change label (depth / 8) (· &&& ~~~tailMask (depth % 8))
    let hi ← change label (depth / 8) (· ||| tailMask (depth % 8))
    return (← fill lo (depth / 8 + 1) 0, ← fill hi (depth / 8 + 1) 0xff)
  else return (label, label)

/-- The name of a subtree, whose depth has two bytes. -/
def key (label : Label) (depth : Nat) : Checked NodeKey := do
  let (floor, _) ← range label depth
  if depth < 2 ^ 16 then return ⟨depth, floor⟩ else none

variable {label : Label} {depth : Nat}

theorem index_lt_iff (label : Label) : depth / 8 < label.bytes.length ↔ depth ≤ 255 := by
  rw [label.length_eq]
  omega

theorem isSome_bit : (bit label depth).isSome ↔ depth ≤ 255 := by
  rw [bit, Option.isSome_map, ← index_lt_iff label]
  simp

theorem isSome_change {f : UInt8 → UInt8} :
    (change label (depth / 8) f).isSome ↔ depth ≤ 255 := by
  rw [change, ← index_lt_iff label]
  split
  · next hindex => simp [hindex]
  · next hindex => simp [hindex]

theorem isSome_flip : (flip label depth).isSome ↔ depth ≤ 255 := isSome_change

theorem isSome_clear : (clear label depth).isSome ↔ depth ≤ 255 := isSome_change

theorem bit_eq (hd : depth ≤ 255) : bit label depth = some (label.bit depth) := by
  rw [bit, Label.bit, bitAt_eq_getElem?, List.getElem?_eq_getElem ((index_lt_iff label).2 hd)]
  rfl

theorem flip_eq (hd : depth ≤ 255) : flip label depth = some (label.flip depth) := by
  rw [flip, change, if_pos ((index_lt_iff label).2 hd), Option.some.injEq]
  exact Block.ext (flipAt_eq_modify label.bytes depth).symm

theorem clear_eq (hd : depth ≤ 255) : clear label depth = some (label.clear depth) := by
  rw [clear, change, if_pos ((index_lt_iff label).2 hd), Option.some.injEq]
  exact Block.ext (clearAt_eq_modify label.bytes depth).symm

theorem range_eq (hd : depth ≤ 256) :
    range label depth = some (label.floor depth, label.ceil depth) := by
  rw [range, if_neg (Nat.not_lt.2 hd)]
  split
  · next hindex =>
    -- The index after that of the last byte is that of the end, where nothing is left to fill.
    have hfill (f : UInt8 → UInt8) :
        depth / 8 + 1 ≤ (label.bytes.modify (depth / 8) f).length := by
      rw [List.length_modify]
      exact hindex
    simp only [change, fill, if_pos hindex, if_pos (hfill _), Option.bind_eq_bind,
      Option.bind_some, Label.floor, Label.ceil, floorAt_eq_fillFrom, ceilAt_eq_fillFrom]
    rfl
  · next hindex =>
    have hlength : 8 * label.bytes.length ≤ depth := by omega
    have hfloor : label.floor depth = label := Block.ext (floorAt_of_length_le hlength)
    have hceil : label.ceil depth = label := Block.ext (ceilAt_of_length_le hlength)
    rw [hfloor, hceil]
    rfl

theorem isSome_range : (range label depth).isSome ↔ depth ≤ 256 := by
  constructor
  · intro h
    refine Nat.not_lt.1 fun hd => ?_
    rw [range, if_pos hd] at h
    contradiction
  · intro hd
    rw [range_eq hd]
    rfl

theorem key_eq (hd : depth ≤ 256) : key label depth = some (.of label depth) := by
  have hfits : depth < 2 ^ 16 := by omega
  rw [key, range_eq hd]
  simp only [Option.bind_eq_bind, Option.bind_some, if_pos hfits]
  rfl

end Checked

end AuthDict
