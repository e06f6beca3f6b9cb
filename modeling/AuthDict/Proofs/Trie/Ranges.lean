import AuthDict.Proofs.Trie.LabelBits
import AuthDict.Trie.Basic

/-!
# Ranges are subtrees

A trie looks a subtree up as a range of labels, from the least label with a given prefix to the
greatest. What lies in that range are the labels that agree with the prefix bit by bit. The range
falls into those of the two prefixes one bit longer, and of these the one with the bit clear is
passed first.
-/
namespace AuthDict

theorem byte_lt_of_testBit {a b : UInt8} {d : Nat} (hd : d < 8)
    (hstart : a &&& ~~~tailMask d = b &&& ~~~tailMask d) (ha : a.toNat.testBit (7 - d) = false)
    (hb : b.toNat.testBit (7 - d) = true) : a < b := by
  have hsucc : 8 - d = 7 - d + 1 := by omega
  rw [and_tailMask_eq_iff hd, hsucc, Nat.pow_succ, ← Nat.div_div_eq_div_mul,
    ← Nat.div_div_eq_div_mul] at hstart
  rw [Nat.testBit_eq_decide_div_mod_eq, decide_eq_false_iff_not] at ha
  rw [Nat.testBit_eq_decide_div_mod_eq, decide_eq_true_iff] at hb
  have hdiv : a.toNat / 2 ^ (7 - d) < b.toNat / 2 ^ (7 - d) := by omega
  exact UInt8.lt_iff_toNat_lt.2 (Nat.lt_of_div_lt_div hdiv)

/-- The first bit in which byte strings differ puts them in order. -/
theorem compare_eq_lt_of_bitAt {as bs : Bytes} {d : Nat} (hlen : as.length = bs.length)
    (hstart : floorAt as d = floorAt bs d) (ha : bitAt as d = false) (hb : bitAt bs d = true) :
    compare as bs = .lt := by
  induction as generalizing bs d with
  | nil =>
    obtain rfl : bs = [] := List.length_eq_zero_iff.1 hlen.symm
    simp [bitAt] at hb
  | cons a as ih =>
    cases bs with
    | nil => simp at hlen
    | cons b bs =>
      simp only [List.length_cons, Nat.add_right_cancel_iff] at hlen
      rw [List.compare_cons_cons, Ordering.then_eq_lt]
      by_cases hd : d < 8
      · simp only [floorAt, bitAt, hd, if_true, List.cons.injEq] at hstart ha hb
        exact .inl (Std.compare_eq_lt.2 (byte_lt_of_testBit hd hstart.1 ha hb))
      · simp only [floorAt, bitAt, hd, if_false, List.cons.injEq] at hstart ha hb
        obtain ⟨rfl, hrest⟩ := hstart
        exact .inr ⟨Std.ReflOrd.compare_self, ih hlen hrest ha hb⟩

namespace Label

/-- The labels from the least to the greatest one with the same first `depth` bits. -/
def Within (label : Label) (depth : Nat) (other : Label) : Prop :=
  (compare (label.floor depth) other).isLE ∧ (compare other (label.ceil depth)).isLE

instance (label : Label) (depth : Nat) (other : Label) : Decidable (label.Within depth other) :=
  inferInstanceAs (Decidable (_ ∧ _))

variable {label other : Label} {depth : Nat}

theorem within_iff_floor : label.Within depth other ↔ other.floor depth = label.floor depth := by
  rw [← within_iff, Within, Std.OrientedOrd.eq_swap (a := label.floor depth)]
  cases compare other (label.floor depth) <;> cases compare other (label.ceil depth) <;> simp

theorem within_iff_bit (hd : depth ≤ 256) :
    label.Within depth other ↔ ∀ i < depth, label.bit i = other.bit i := by
  rw [within_iff_floor, eq_comm, floor_eq_iff_bit hd]

theorem nodeKey_eq_iff_bit (hd : depth ≤ 256) :
    NodeKey.of label depth = NodeKey.of other depth ↔ ∀ i < depth, label.bit i = other.bit i := by
  rw [← floor_eq_iff_bit hd, NodeKey.of, NodeKey.of, NodeKey.mk.injEq, and_iff_right rfl]

theorem within_succ (hd : depth < 256) :
    label.Within (depth + 1) other ↔
      label.Within depth other ∧ other.bit depth = label.bit depth := by
  rw [within_iff_floor, within_iff_floor, floor_succ_eq_iff hd]

theorem within_flip_succ (hd : depth < 256) :
    (label.flip depth).Within (depth + 1) other ↔
      label.Within depth other ∧ other.bit depth = !label.bit depth := by
  rw [within_succ hd, within_iff_floor, within_iff_floor, floor_flip, bit_flip label hd]

/-- The one of a label and that label with a bit turned over in which the bit is the given one. -/
def half (label : Label) (depth : Nat) (bit : Bool) : Label :=
  if label.bit depth = bit then label else label.flip depth

theorem within_half (hd : depth < 256) (bit : Bool) :
    (label.half depth bit).Within (depth + 1) other ↔
      label.Within depth other ∧ other.bit depth = bit := by
  unfold half
  split
  · next hbit => rw [within_succ hd, hbit]
  · next hbit => rw [within_flip_succ hd, Bool.eq_not_of_ne hbit, Bool.not_not]

/-- Among the labels with a common prefix, those with the next bit clear are the lesser ones. -/
theorem compare_eq_lt {a b : Label} (ha : label.Within depth a) (hb : label.Within depth b)
    (hclear : a.bit depth = false) (hset : b.bit depth = true) : compare a b = .lt := by
  have hlen : a.bytes.length = b.bytes.length := by rw [a.length_eq, b.length_eq]
  have hstart : a.floor depth = b.floor depth :=
    (within_iff_floor.1 ha).trans (within_iff_floor.1 hb).symm
  exact compare_eq_lt_of_bitAt hlen (congrArg Block.bytes hstart) hclear hset

/-- A range holds the labels that agree with the prefix in all its bits, and these are the labels
with the same key there. Below a prefix that can be made longer, it is the union of two disjoint
ranges, that of the label and that of the label with the next bit turned over, and the one with the
bit clear lies before the one with the bit set. -/
theorem range_eq_subtree (label : Label) {depth : Nat} (hd : depth ≤ 256) :
    (∀ other, label.Within depth other ↔ ∀ i < depth, label.bit i = other.bit i) ∧
      (∀ other, NodeKey.of label depth = NodeKey.of other depth ↔
        ∀ i < depth, label.bit i = other.bit i) ∧
      (depth < 256 →
        (∀ other, label.Within depth other ↔
          label.Within (depth + 1) other ∨ (label.flip depth).Within (depth + 1) other) ∧
        (∀ other,
          ¬(label.Within (depth + 1) other ∧ (label.flip depth).Within (depth + 1) other)) ∧
        (label.flip depth).bit depth = !label.bit depth ∧
        ∀ a b, (label.half depth false).Within (depth + 1) a →
          (label.half depth true).Within (depth + 1) b → compare a b = .lt) := by
  refine ⟨fun other => within_iff_bit hd, fun other => nodeKey_eq_iff_bit hd, ?_⟩
  intro hlt
  refine ⟨?_, ?_, label.bit_flip hlt, ?_⟩
  · intro other
    rw [within_succ hlt, within_flip_succ hlt]
    cases other.bit depth <;> cases label.bit depth <;> simp
  · rintro other ⟨hsame, hflipped⟩
    have hbit := ((within_succ hlt).1 hsame).2
    rw [((within_flip_succ hlt).1 hflipped).2] at hbit
    exact absurd hbit (by simp)
  · intro a b ha hb
    obtain ⟨ha, hclear⟩ := (within_half hlt false).1 ha
    obtain ⟨hb, hset⟩ := (within_half hlt true).1 hb
    exact compare_eq_lt ha hb hclear hset

/-- A label with bits set on both sides of the end of its first byte. -/
def sampleSpread : Label := (Label.flip (Block.zero 32) 7).flip 8

theorem range_eq_subtree_sampleSpread :
    7 < 256 ∧ sampleSpread.Within 7 (Block.zero 32) ∧
      ¬sampleSpread.Within 8 (Block.zero 32) ∧
      NodeKey.of sampleSpread 7 = NodeKey.of (Block.zero 32) 7 ∧
      compare (Block.zero 32 : Label) sampleSpread = .lt := by
  obtain ⟨hwithin, hkey, hhalves⟩ := @range_eq_subtree sampleSpread 7 (by decide)
  obtain ⟨-, hdisjoint, -, hordered⟩ := hhalves (by decide)
  have hzero : sampleSpread.Within 7 (Block.zero 32) := (hwithin _).2 (by decide +kernel)
  have hleft : (sampleSpread.half 7 false).Within 8 (Block.zero 32) := by decide +kernel
  have hright : (sampleSpread.half 7 true).Within 8 sampleSpread := by decide +kernel
  have hflipped : (sampleSpread.flip 7).Within 8 (Block.zero 32) := by decide +kernel
  exact ⟨by decide, hzero, fun h => hdisjoint _ ⟨h, hflipped⟩, (hkey _).2 (by decide +kernel),
    hordered _ _ hleft hright⟩

end Label

end AuthDict
