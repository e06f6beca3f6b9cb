import AuthDict.Text.Utf8

/-!
# Text read back from its bytes

The first byte of a character tells how many follow, and each of them has six bits. What `first`
refuses after a first byte has no character: it stands for a number that fewer bytes stand for, for
half of a surrogate pair or for a number above all characters. So every text is read back from its
bytes.
-/
namespace AuthDict.Utf8

theorem toNat_byte {n : Nat} (h : n < 256) : (UInt8.ofNat n).toNat = n := by
  rw [UInt8.toNat_ofNat']
  exact Nat.mod_eq_of_lt h

theorem isTail_iff (b : UInt8) : isTail b = true ↔ 0x80 ≤ b.toNat ∧ b.toNat ≤ 0xbf := by
  simp [isTail, UInt8.le_iff_toNat_le]

/-- Which second bytes a first byte of three or four allows. -/
theorem isStart_of {a b : UInt8} (htail : 0x80 ≤ b.toNat ∧ b.toNat ≤ 0xbf)
    (he0 : a.toNat = 0xe0 → 0xa0 ≤ b.toNat) (hed : a.toNat = 0xed → b.toNat ≤ 0x9f)
    (hf0 : a.toNat = 0xf0 → 0x90 ≤ b.toNat) (hf4 : a.toNat = 0xf4 → b.toNat ≤ 0x8f) :
    isStart a b = true := by
  unfold isStart
  split
  · next h => simpa [UInt8.le_iff_toNat_le] using ⟨he0 (h ▸ rfl), htail.2⟩
  split
  · next h => simpa [UInt8.le_iff_toNat_le] using ⟨htail.1, hed (h ▸ rfl)⟩
  split
  · next h => simpa [UInt8.le_iff_toNat_le] using ⟨hf0 (h ▸ rfl), htail.2⟩
  split
  · next h => simpa [UInt8.le_iff_toNat_le] using ⟨htail.1, hf4 (h ▸ rfl)⟩
  · exact (isTail_iff b).2 htail

/-- A character is read off the front of its bytes. -/
theorem first_encodeChar (c : Char) (rest : Bytes) :
    ∃ a bs, encodeChar c = a :: bs ∧ first a (bs ++ rest) = .ok (c, rest) := by
  have hscalar : c.toNat < 0xd800 ∨ 0xdfff < c.toNat ∧ c.toNat < 0x110000 := c.valid
  have hc {n : Nat} (h : n = c.toNat) : Char.ofNat n = c := by
    rw [h, Char.ofNat_toNat]
  by_cases h1 : c.toNat < 0x80
  · refine ⟨UInt8.ofNat c.toNat, [], by rw [encodeChar, if_pos h1], ?_⟩
    have ha := toNat_byte (n := c.toNat) (by omega)
    have hlow : UInt8.ofNat c.toNat < 0x80 := by
      rw [UInt8.lt_iff_toNat_lt, ha]
      exact h1
    simp only [first, if_pos hlow, hc ha, List.nil_append]
  by_cases h2 : c.toNat < 0x800
  · refine ⟨_, _, by rw [encodeChar, if_neg h1, if_pos h2], ?_⟩
    have ha := toNat_byte (n := 0xc0 + c.toNat / 64) (by omega)
    have hb := toNat_byte (n := 0x80 + c.toNat % 64) (by omega)
    have htail := (isTail_iff (UInt8.ofNat (0x80 + c.toNat % 64))).2 (by omega)
    simp only [first, UInt8.lt_iff_toNat_lt, UInt8.le_iff_toNat_le, ha, List.singleton_append, htail,
      if_true, hb]
    rw [if_neg (by simp; omega), if_pos (by simp; omega), hc (by omega)]
  by_cases h3 : c.toNat < 0x10000
  · refine ⟨_, _, by rw [encodeChar, if_neg h1, if_neg h2, if_pos h3], ?_⟩
    have ha := toNat_byte (n := 0xe0 + c.toNat / 4096) (by omega)
    have hb := toNat_byte (n := 0x80 + c.toNat / 64 % 64) (by omega)
    have hd := toNat_byte (n := 0x80 + c.toNat % 64) (by omega)
    have htail := (isTail_iff (UInt8.ofNat (0x80 + c.toNat % 64))).2 (by omega)
    have hstart : isStart (UInt8.ofNat (0xe0 + c.toNat / 4096))
        (UInt8.ofNat (0x80 + c.toNat / 64 % 64)) = true := by
      apply isStart_of <;> omega
    simp only [first, UInt8.lt_iff_toNat_lt, UInt8.le_iff_toNat_le, ha, hb, hd, List.cons_append,
      List.nil_append, htail, hstart, Bool.not_true, Bool.false_eq_true, if_false, if_true]
    rw [if_neg (by simp; omega), if_neg (by simp; omega), if_pos (by simp; omega), hc (by omega)]
  · refine ⟨_, _, by rw [encodeChar, if_neg h1, if_neg h2, if_neg h3], ?_⟩
    have ha := toNat_byte (n := 0xf0 + c.toNat / 262144) (by omega)
    have hb := toNat_byte (n := 0x80 + c.toNat / 4096 % 64) (by omega)
    have hd := toNat_byte (n := 0x80 + c.toNat / 64 % 64) (by omega)
    have he := toNat_byte (n := 0x80 + c.toNat % 64) (by omega)
    have htail := (isTail_iff (UInt8.ofNat (0x80 + c.toNat / 64 % 64))).2 (by omega)
    have htail' := (isTail_iff (UInt8.ofNat (0x80 + c.toNat % 64))).2 (by omega)
    have hstart : isStart (UInt8.ofNat (0xf0 + c.toNat / 262144))
        (UInt8.ofNat (0x80 + c.toNat / 4096 % 64)) = true := by
      apply isStart_of <;> omega
    simp only [first, UInt8.lt_iff_toNat_lt, UInt8.le_iff_toNat_le, ha, hb, hd, he,
      List.cons_append, List.nil_append, htail, htail', hstart, Bool.not_true, Bool.false_eq_true,
      if_false, if_true]
    rw [if_neg (by simp; omega), if_neg (by simp; omega), if_neg (by simp; omega),
      if_pos (by simp; omega), hc (by omega)]

theorem decodeFrom_encode (cs : List Char) (read : List Char) (index fuel : Nat)
    (h : cs.length ≤ fuel) :
    decodeFrom read index fuel (encode cs) = .ok (read.reverse ++ cs) := by
  induction cs generalizing read index fuel with
  | nil => cases fuel <;> simp [decodeFrom, encode]
  | cons c cs ih =>
    obtain ⟨a, bs, hbytes, hfirst⟩ := first_encodeChar c (encode cs)
    have hcons : encode (c :: cs) = a :: (bs ++ encode cs) := by
      rw [show encode (c :: cs) = encodeChar c ++ encode cs from rfl, hbytes]
      rfl
    cases fuel with
    | zero => simp at h
    | succ fuel =>
      rw [hcons, decodeFrom, hfirst]
      simp only [ih _ _ fuel (Nat.le_of_succ_le_succ h), List.reverse_cons, List.append_assoc,
        List.singleton_append]

theorem length_le_length_encode (cs : List Char) : cs.length ≤ (encode cs).length := by
  induction cs with
  | nil => exact Nat.zero_le _
  | cons c cs ih =>
    obtain ⟨a, bs, hbytes, -⟩ := first_encodeChar c []
    rw [show encode (c :: cs) = encodeChar c ++ encode cs from rfl, hbytes]
    simp only [List.length_append, List.length_cons]
    omega

/-- Text of any characters is read back. -/
theorem decode_encode (cs : List Char) : decode (encode cs) = .ok cs :=
  decodeFrom_encode cs [] 0 _ (length_le_length_encode cs)

end AuthDict.Utf8
