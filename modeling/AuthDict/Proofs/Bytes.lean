import AuthDict.Bytes
import Mathlib.Algebra.Group.Nat.Defs

/-!
# Little-endian numbers

The bytes of a number and the number of some bytes, read one through the other.
-/
namespace AuthDict

theorem ofLE_lt (bs : Bytes) : ofLE bs < 256 ^ bs.length := by
  induction bs with
  | nil => simp [ofLE]
  | cons b bs ih =>
    have hb := b.toNat_lt
    simp only [ofLE, List.length_cons, Nat.pow_succ]
    omega

theorem ofLE_leBytes (n k : Nat) : ofLE (leBytes n k) = k % 256 ^ n := by
  induction n generalizing k with
  | zero => simp [leBytes, ofLE, Nat.mod_one]
  | succ n ih =>
    have hm : k % (256 * 256 ^ n) = k % 256 + 256 * (k / 256 % 256 ^ n) := Nat.mod_mul
    rw [Nat.pow_succ, Nat.mul_comm (256 ^ n) 256, hm]
    simp only [leBytes, ofLE, ih, UInt8.toNat_ofNat']

theorem leBytes_ofLE (bs : Bytes) : leBytes bs.length (ofLE bs) = bs := by
  induction bs with
  | nil => rfl
  | cons b bs ih =>
    have hb := b.toNat_lt
    simp only [List.length_cons, leBytes, ofLE]
    have hdiv : (b.toNat + 256 * ofLE bs) / 256 = ofLE bs := by omega
    rw [hdiv, ih]
    congr 1
    apply UInt8.toNat_inj.1
    simp only [UInt8.toNat_ofNat']
    omega

end AuthDict
