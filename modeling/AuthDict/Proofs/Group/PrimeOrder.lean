import AuthDict.Proofs.Label.Proof
import Mathlib.Algebra.Module.ZMod
import Mathlib.GroupTheory.OrderOfElement

/-!
# Groups of prime order

In a group of prime order the scalars form a field, and an element other than the identity is the
same multiple of itself only for the same scalar. `PrimeOrder` adds to `Represents` what this takes:
the order is prime, the generator is not the identity, sixteen bytes are a scalar and a scalar has
thirty-two, and only encodings are decoded.
-/
namespace AuthDict.ProofGroup

variable {G A : Type} [ProofGroup G] [AddCommGroup A] {R : G → A → Prop}

structure PrimeOrder (R : G → A → Prop) : Prop extends Represents R where
  prime : (order G).Prime
  le_order : 256 ^ 16 ≤ order G
  order_le : order G ≤ 256 ^ 32
  generator_ne : ¬ R ProofGroup.generator 0
  encode_of_decode : ∀ {b g}, decode? b = some g → encode g = b ∧ ∃ a, R g a

theorem Represents.unique (hR : Represents R) {g : G} {a b : A} (ha : R g a) (hb : R g b) : a = b :=
  (hR.encode_eq_iff ha hb).1 rfl

theorem Represents.isIdentity_iff (hR : Represents R) {g : G} {a : A} (hg : R g a) :
    isIdentity g = true ↔ a = 0 := by
  rw [isIdentity, beq_iff_eq]
  exact hR.encode_eq_iff hg hR.identity

theorem PrimeOrder.smul_eq_zero_iff (hR : PrimeOrder R) {a : A} (ha : a ≠ 0) (n : ℕ) :
    n • a = 0 ↔ order G ∣ n := by
  have : Fact (order G).Prime := ⟨hR.prime⟩
  rw [← addOrderOf_eq_prime (hR.order_smul a) ha]
  exact addOrderOf_dvd_iff_nsmul_eq_zero.symm

/-- A reduced multiple of the generator is the identity only if the scalar is zero. -/
theorem PrimeOrder.isIdentity_smul_generator (hR : PrimeOrder R) {x : ℕ} (hx : x ≠ 0)
    (hlt : x < order G) : isIdentity (smul x (ProofGroup.generator : G)) = false := by
  obtain ⟨b, hb⟩ := hR.generator
  have hne : b ≠ 0 := by
    intro h
    exact hR.generator_ne (h ▸ hb)
  rw [Bool.eq_false_iff, ne_eq, hR.isIdentity_iff (hR.smul x hb), hR.smul_eq_zero_iff hne]
  exact Nat.not_dvd_of_pos_of_lt (Nat.pos_of_ne_zero hx) hlt

end AuthDict.ProofGroup
