import AuthDict.Config.Form

/-!
# Hexadecimal text as bytes

Text of ASCII characters has one byte for each. Hexadecimal digits are such text, and each byte is
read back from its two, so a seed survives being written as a text.
-/
namespace AuthDict

namespace Utf8

theorem encodeChar_ascii {c : Char} (h : c.toNat < 0x80) : encodeChar c = [UInt8.ofNat c.toNat] := by
  simp [encodeChar, h]

theorem length_encode_ascii {cs : List Char} (h : ∀ c ∈ cs, c.toNat < 0x80) :
    (encode cs).length = cs.length := by
  induction cs with
  | nil => rfl
  | cons c cs ih =>
    obtain ⟨hc, hcs⟩ := List.forall_mem_cons.1 h
    have hcons : encode (c :: cs) = encodeChar c ++ encode cs := rfl
    rw [hcons, encodeChar_ascii hc, List.length_append, ih hcs]
    exact Nat.add_comm ..

end Utf8

namespace Hex

theorem digit_spec (n : Nat) (h : n < 16) :
    (digit n).toNat < 0x80 ∧ digit n ≠ 'x' ∧
      value? (UInt8.ofNat (digit n).toNat) = some (UInt8.ofNat n) := by
  decide +revert

theorem chars_ascii (bs : Bytes) : ∀ c ∈ chars bs, c.toNat < 0x80 := by
  induction bs with
  | nil => simp [chars]
  | cons b bs ih =>
    have hb := b.toNat_lt
    simp only [chars, List.mem_cons]
    rintro c (rfl | rfl | hc)
    · exact (digit_spec _ (by omega)).1
    · exact (digit_spec _ (by omega)).1
    · exact ih c hc

theorem length_chars (bs : Bytes) : (chars bs).length = 2 * bs.length := by
  induction bs with
  | nil => rfl
  | cons b bs ih =>
    simp only [chars, List.length_cons, ih]
    omega

theorem encode_chars_cons (b : UInt8) (bs : Bytes) :
    Utf8.encode (chars (b :: bs)) = UInt8.ofNat (digit (b.toNat / 16)).toNat ::
      UInt8.ofNat (digit (b.toNat % 16)).toNat :: Utf8.encode (chars bs) := by
  have hb := b.toNat_lt
  simp only [chars, Utf8.encode, List.flatMap_cons,
    Utf8.encodeChar_ascii (digit_spec (b.toNat / 16) (by omega)).1,
    Utf8.encodeChar_ascii (digit_spec (b.toNat % 16) (by omega)).1]
  rfl

theorem byte_eq (b : UInt8) :
    16 * UInt8.ofNat (b.toNat / 16) + UInt8.ofNat (b.toNat % 16) = b := by
  have hb := b.toNat_lt
  apply UInt8.toNat_inj.1
  simp only [UInt8.toNat_add, UInt8.toNat_mul, UInt8.toNat_ofNat', UInt8.toNat_ofNat]
  omega

theorem decodePairs_encode_chars (index : Nat) (bs : Bytes) :
    decodePairs index (Utf8.encode (chars bs)) = .ok bs := by
  induction bs generalizing index with
  | nil => rfl
  | cons b bs ih =>
    have hb := b.toNat_lt
    have hhi := (digit_spec (b.toNat / 16) (by omega)).2.2
    have hlo := (digit_spec (b.toNat % 16) (by omega)).2.2
    rw [encode_chars_cons, decodePairs]
    simp only [hhi, hlo, ih, Except.map, byte_eq]

theorem decode_encode_chars (bs : Bytes) : decode (Utf8.encode (chars bs)) = .ok bs := by
  have heven : ¬(Utf8.encode (chars bs)).length % 2 = 1 := by
    rw [Utf8.length_encode_ascii (chars_ascii bs), length_chars]
    omega
  rw [decode, if_neg heven, decodePairs_encode_chars]

end Hex

namespace SeedText

/-- No seed's text starts with `0x`. -/
theorem digits_write (seed : Seed) : digits (write seed) = write seed := by
  unfold write
  cases seed.bytes with
  | nil => rfl
  | cons b bs =>
    have hlo := (Hex.digit_spec (b.toNat % 16) (by omega)).2.1
    rw [Hex.chars]
    unfold digits
    split
    · next heq =>
      simp only [List.cons.injEq] at heq
      exact absurd heq.2.1 hlo
    · rfl

theorem read_write (seed : Seed) : read (write seed) = .ok seed := by
  rw [read, digits_write]
  simp [write, Hex.decode_encode_chars]

end SeedText

end AuthDict
