import AuthDict.Trie.LabelBits
import Mathlib.Algebra.Group.Nat.Defs

/-!
# Labels below a prefix

Two labels share their first `depth` bits if and only if they have the same floor there, and the
labels with a given floor are those between it and the ceiling. One bit more splits them in two.
-/
namespace AuthDict

theorem forall_byte {p : UInt8 → Prop} (h : ∀ n < 256, p (UInt8.ofNat n)) (b : UInt8) : p b := by
  have hb := h b.toNat b.toNat_lt
  rwa [UInt8.ofNat_toNat] at hb

theorem toNat_and_tailMask : ∀ b : UInt8, ∀ d < 8,
    (b &&& ~~~tailMask d).toNat = b.toNat / 2 ^ (8 - d) * 2 ^ (8 - d) :=
  forall_byte (by decide +kernel)

theorem toNat_or_tailMask : ∀ b : UInt8, ∀ d < 8,
    (b ||| tailMask d).toNat = b.toNat / 2 ^ (8 - d) * 2 ^ (8 - d) + (2 ^ (8 - d) - 1) :=
  forall_byte (by decide +kernel)

theorem and_tailMask_zero : ∀ b : UInt8, b &&& ~~~tailMask 0 = 0 :=
  forall_byte (by decide +kernel)

theorem xor_bitMask : ∀ b : UInt8, ∀ d < 8,
    (b ^^^ bitMask d) &&& ~~~tailMask d = b &&& ~~~tailMask d ∧
      (b ^^^ bitMask d).toNat.testBit (7 - d) = !b.toNat.testBit (7 - d) :=
  forall_byte (by decide +kernel)

theorem and_bitMask : ∀ b : UInt8, ∀ d < 8,
    b &&& ~~~bitMask d &&& ~~~tailMask d = b &&& ~~~tailMask d ∧
      (b &&& ~~~bitMask d).toNat.testBit (7 - d) = false :=
  forall_byte (by decide +kernel)

theorem and_tailMask : ∀ b : UInt8, ∀ d < 8,
    b &&& ~~~tailMask d &&& ~~~tailMask d = b &&& ~~~tailMask d ∧
      (b &&& ~~~tailMask d).toNat.testBit (7 - d) = false :=
  forall_byte (by decide +kernel)

theorem and_tailMask_eq_iff {a b : UInt8} {d : Nat} (hd : d < 8) :
    a &&& ~~~tailMask d = b &&& ~~~tailMask d ↔
      a.toNat / 2 ^ (8 - d) = b.toNat / 2 ^ (8 - d) := by
  rw [← UInt8.toNat_inj, toNat_and_tailMask a d hd, toNat_and_tailMask b d hd]
  constructor
  · intro h
    exact Nat.eq_of_mul_eq_mul_right (Nat.two_pow_pos _) h
  · intro h
    rw [h]

/-- The bytes with a given start are an interval. -/
theorem byte_within_iff {a b : UInt8} {d : Nat} (hd : d < 8) :
    a &&& ~~~tailMask d ≤ b ∧ b ≤ a ||| tailMask d ↔
      b &&& ~~~tailMask d = a &&& ~~~tailMask d := by
  have hpos : 0 < 2 ^ (8 - d) := Nat.two_pow_pos _
  rw [and_tailMask_eq_iff hd, UInt8.le_iff_toNat_le, UInt8.le_iff_toNat_le,
    toNat_and_tailMask a d hd, toNat_or_tailMask a d hd, Nat.div_eq_iff hpos]
  omega

theorem div_two_pow_eq_iff (x y k : Nat) :
    x / 2 ^ k = y / 2 ^ k ↔ x / 2 ^ (k + 1) = y / 2 ^ (k + 1) ∧ x.testBit k = y.testBit k := by
  rw [Nat.pow_succ, ← Nat.div_div_eq_div_mul, ← Nat.div_div_eq_div_mul,
    Nat.testBit_eq_decide_div_mod_eq, Nat.testBit_eq_decide_div_mod_eq, decide_eq_decide]
  omega

theorem floorAt_zero (bs : Bytes) : floorAt bs 0 = List.replicate bs.length 0 := by
  cases bs with
  | nil => rfl
  | cons b bs => simp [floorAt, and_tailMask_zero, List.replicate_succ]

theorem floorAt_of_length_le {bs : Bytes} {d : Nat} (h : 8 * bs.length ≤ d) : floorAt bs d = bs := by
  induction bs generalizing d with
  | nil => rfl
  | cons b bs ih =>
    rw [List.length_cons] at h
    have hd : ¬d < 8 := by omega
    rw [floorAt, if_neg hd, ih (by omega)]

/-- To have one more bit in common. -/
theorem floorAt_succ_eq_iff {as bs : Bytes} {d : Nat} (hlen : as.length = bs.length)
    (hd : d < 8 * as.length) :
    floorAt as (d + 1) = floorAt bs (d + 1) ↔
      floorAt as d = floorAt bs d ∧ bitAt as d = bitAt bs d := by
  induction as generalizing bs d with
  | nil => simp at hd
  | cons a as ih =>
    cases bs with
    | nil => simp at hlen
    | cons b bs =>
      simp only [List.length_cons, Nat.add_right_cancel_iff] at hlen hd
      have hbit := div_two_pow_eq_iff a.toNat b.toNat (7 - d)
      by_cases hd7 : d < 7
      · have hsucc : 7 - d + 1 = 8 - d := by omega
        have hnext : 8 - (d + 1) = 7 - d := by omega
        have hd8 : d < 8 := by omega
        have hd8' : d + 1 < 8 := by omega
        simp only [floorAt, bitAt, hd8, hd8', if_true, hlen, List.cons.injEq, and_true,
          and_tailMask_eq_iff, hnext, hbit, hsucc]
      · by_cases hd8 : d < 8
        · obtain rfl : d = 7 := by omega
          have hzero : floorAt as 0 = floorAt bs 0 := by rw [floorAt_zero, floorAt_zero, hlen]
          have htail := @and_tailMask_eq_iff a b 7 (by omega)
          simp only [Nat.sub_self, Nat.pow_zero, Nat.div_one, UInt8.toNat_inj] at hbit
          simp [floorAt, bitAt, hzero, hlen, htail, hbit]
        · have hd8' : ¬d + 1 < 8 := by omega
          have hsub : d + 1 - 8 = d - 8 + 1 := by omega
          simp only [floorAt, bitAt, hd8, hd8', if_false, hsub, List.cons.injEq,
            ih hlen (show d - 8 < 8 * as.length by omega), and_assoc]

theorem compare_zeros_ne_lt (bs : Bytes) : compare bs (List.replicate bs.length 0) ≠ .lt := by
  induction bs with
  | nil => decide
  | cons b bs ih =>
    rw [List.length_cons, List.replicate_succ, List.compare_cons_cons]
    intro h
    rcases Ordering.then_eq_lt.1 h with h | ⟨-, h⟩
    · exact absurd (UInt8.lt_iff_toNat_lt.1 (Std.compare_eq_lt.1 h)) (by simp)
    · exact ih h

theorem compare_ones_ne_gt (bs : Bytes) : compare bs (List.replicate bs.length 0xff) ≠ .gt := by
  induction bs with
  | nil => decide
  | cons b bs ih =>
    rw [List.length_cons, List.replicate_succ, List.compare_cons_cons]
    intro h
    rcases Ordering.then_eq_gt.1 h with h | ⟨-, h⟩
    · have hlt : 0xff < b.toNat := UInt8.lt_iff_toNat_lt.1 (Std.compare_eq_gt.1 h)
      have hb := b.toNat_lt
      omega
    · exact ih h

/-- The byte strings with a given start are an interval. -/
theorem bytes_within_iff {as bs : Bytes} (hlen : bs.length = as.length) (d : Nat) :
    compare bs (floorAt as d) ≠ .lt ∧ compare bs (ceilAt as d) ≠ .gt ↔
      floorAt bs d = floorAt as d := by
  induction as generalizing bs d with
  | nil => simp_all [floorAt, ceilAt]
  | cons a as ih =>
    cases bs with
    | nil => simp at hlen
    | cons b bs =>
      simp only [List.length_cons, Nat.add_right_cancel_iff] at hlen
      by_cases hd : d < 8
      · have hzeros := compare_zeros_ne_lt bs
        have hones := compare_ones_ne_gt bs
        rw [hlen] at hzeros hones
        simp only [floorAt, ceilAt, hd, if_true, List.compare_cons_cons, hlen, List.cons.injEq,
          and_true, ne_eq, Ordering.then_eq_lt, Ordering.then_eq_gt, hzeros, hones, and_false,
          or_false, ← byte_within_iff hd, Std.compare_eq_lt, Std.compare_eq_gt, UInt8.not_lt]
      · have hrest := ih hlen (d - 8)
        simp only [floorAt, ceilAt, hd, if_false, List.compare_cons_cons, List.cons.injEq, ne_eq,
          Ordering.then_eq_lt, Ordering.then_eq_gt, Std.compare_eq_lt, Std.compare_eq_gt,
          Std.LawfulEqOrd.compare_eq_iff_eq, ← hrest]
        by_cases h : b = a
        · simp [h]
        · rcases UInt8.lt_or_lt_of_ne h with hlt | hlt
          · simp [h, hlt]
          · simp [h, hlt]

theorem floorAt_flipAt (bs : Bytes) (d : Nat) : floorAt (flipAt bs d) d = floorAt bs d := by
  induction bs generalizing d with
  | nil => rfl
  | cons b bs ih =>
    by_cases hd : d < 8
    · simp [flipAt, floorAt, hd, (xor_bitMask b d hd).1]
    · simp [flipAt, floorAt, hd, ih]

theorem bitAt_flipAt {bs : Bytes} {d : Nat} (hd : d < 8 * bs.length) :
    bitAt (flipAt bs d) d = !bitAt bs d := by
  induction bs generalizing d with
  | nil => simp at hd
  | cons b bs ih =>
    rw [List.length_cons] at hd
    by_cases hd8 : d < 8
    · simp only [flipAt, bitAt, hd8, if_true]
      exact (xor_bitMask b d hd8).2
    · simp [flipAt, bitAt, hd8, ih (show d - 8 < 8 * bs.length by omega)]

theorem floorAt_clearAt (bs : Bytes) (d : Nat) : floorAt (clearAt bs d) d = floorAt bs d := by
  induction bs generalizing d with
  | nil => rfl
  | cons b bs ih =>
    by_cases hd : d < 8
    · simp [clearAt, floorAt, hd, (and_bitMask b d hd).1]
    · simp [clearAt, floorAt, hd, ih]

theorem bitAt_clearAt (bs : Bytes) (d : Nat) : bitAt (clearAt bs d) d = false := by
  induction bs generalizing d with
  | nil => rfl
  | cons b bs ih =>
    by_cases hd : d < 8
    · simp only [clearAt, bitAt, hd, if_true]
      exact (and_bitMask b d hd).2
    · simp [clearAt, bitAt, hd, ih]

theorem floorAt_floorAt (bs : Bytes) (d : Nat) : floorAt (floorAt bs d) d = floorAt bs d := by
  induction bs generalizing d with
  | nil => rfl
  | cons b bs ih =>
    by_cases hd : d < 8
    · simp [floorAt, hd, (and_tailMask b d hd).1]
    · simp [floorAt, hd, ih]

theorem bitAt_floorAt (bs : Bytes) (d : Nat) : bitAt (floorAt bs d) d = false := by
  induction bs generalizing d with
  | nil => rfl
  | cons b bs ih =>
    by_cases hd : d < 8
    · simp only [floorAt, bitAt, hd, if_true]
      exact (and_tailMask b d hd).2
    · simp [floorAt, bitAt, hd, ih]

namespace Label

@[simp] theorem floor_flip (label : Label) (depth : Nat) :
    (label.flip depth).floor depth = label.floor depth :=
  Block.ext (floorAt_flipAt label.bytes depth)

@[simp] theorem floor_clear (label : Label) (depth : Nat) :
    (label.clear depth).floor depth = label.floor depth :=
  Block.ext (floorAt_clearAt label.bytes depth)

@[simp] theorem floor_floor (label : Label) (depth : Nat) :
    (label.floor depth).floor depth = label.floor depth :=
  Block.ext (floorAt_floorAt label.bytes depth)

theorem bit_flip (label : Label) {depth : Nat} (h : depth < 256) :
    (label.flip depth).bit depth = !label.bit depth :=
  bitAt_flipAt (by rw [label.length_eq]; omega)

@[simp] theorem bit_clear (label : Label) (depth : Nat) : (label.clear depth).bit depth = false :=
  bitAt_clearAt label.bytes depth

@[simp] theorem bit_floor (label : Label) (depth : Nat) : (label.floor depth).bit depth = false :=
  bitAt_floorAt label.bytes depth

theorem floor_zero (label : Label) : label.floor 0 = Block.zero 32 := by
  have hzero := floorAt_zero label.bytes
  rw [label.length_eq] at hzero
  exact Block.ext hzero

theorem floor_of_le (label : Label) {depth : Nat} (h : 256 ≤ depth) : label.floor depth = label :=
  Block.ext (floorAt_of_length_le (by rw [label.length_eq]; omega))

theorem floor_succ_eq_iff {a b : Label} {depth : Nat} (h : depth < 256) :
    a.floor (depth + 1) = b.floor (depth + 1) ↔
      a.floor depth = b.floor depth ∧ a.bit depth = b.bit depth := by
  have hlen : a.bytes.length = b.bytes.length := by rw [a.length_eq, b.length_eq]
  have hd : depth < 8 * a.bytes.length := by
    rw [a.length_eq]
    omega
  simp only [Block.ext_iff, floor, bit, floorAt_succ_eq_iff hlen hd]

/-- The labels below a prefix are an interval. -/
theorem within_iff (label other : Label) (depth : Nat) :
    compare other (label.floor depth) ≠ .lt ∧ compare other (label.ceil depth) ≠ .gt ↔
      other.floor depth = label.floor depth := by
  have hlen : other.bytes.length = label.bytes.length := by rw [other.length_eq, label.length_eq]
  rw [Block.ext_iff]
  exact bytes_within_iff hlen depth

theorem floor_eq_of_le {a b : Label} {depth shorter : Nat} (hle : shorter ≤ depth)
    (h : a.floor depth = b.floor depth) : a.floor shorter = b.floor shorter := by
  induction hle with
  | refl => exact h
  | @step depth _ ih =>
    by_cases hd : depth < 256
    · exact ih ((floor_succ_eq_iff hd).1 h).1
    · rw [floor_of_le a (by omega), floor_of_le b (by omega)] at h
      rw [h]

theorem floor_eq_iff_bit {a b : Label} {depth : Nat} (h : depth ≤ 256) :
    a.floor depth = b.floor depth ↔ ∀ i < depth, a.bit i = b.bit i := by
  induction depth with
  | zero => simp [floor_zero]
  | succ depth ih =>
    rw [floor_succ_eq_iff h, ih (by omega), Nat.forall_lt_succ_right]

end Label

end AuthDict
