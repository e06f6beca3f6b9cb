import AuthDict.Group.Ristretto
import Mathlib.NumberTheory.LucasPrimality
import Mathlib.Tactic.NormNum.Prime

/-!
# The order of the ristretto group is prime

A number `p` is prime if some `a` has the order `p - 1` modulo `p`, which is seen from the prime
factors of `p - 1` (Lucas). The large ones among them are shown prime in the same way. Powers are
taken by squaring, so that the test is settled by evaluation.
-/
namespace AuthDict

/-- The power modulo `m`; `bits` bounds the binary length of the exponent. -/
def powMod (m : ℕ) : ℕ → ℕ → ℕ → ℕ
  | 0, _, _ => 1 % m
  | bits + 1, a, e =>
    let r := powMod m bits (a * a % m) (e / 2)
    if e % 2 = 1 then a * r % m else r

theorem powMod_eq (m : ℕ) {bits e : ℕ} (a : ℕ) (he : e < 2 ^ bits) :
    powMod m bits a e = a ^ e % m := by
  induction bits generalizing a e with
  | zero =>
    have hzero : e = 0 := by simpa using he
    simp [powMod, hzero]
  | succ bits ih =>
    have hhalf : e / 2 < 2 ^ bits := by rw [pow_succ] at he; omega
    have hsquare : powMod m bits (a * a % m) (e / 2) = a ^ (2 * (e / 2)) % m := by
      rw [ih _ hhalf, ← Nat.pow_mod, pow_mul, sq]
    simp only [powMod, hsquare]
    split
    · next hodd =>
      have hsplit : e = 2 * (e / 2) + 1 := by omega
      conv_rhs => rw [hsplit, pow_succ']
      rw [Nat.mul_mod_mod]
    · next heven =>
      have hsplit : e = 2 * (e / 2) := by omega
      rw [← hsplit]

/-- The powers of `a` show that `p` is prime if the listed factors of `p - 1` are. -/
def PassesLucas (p a : ℕ) (factors : List ℕ) : Prop :=
  p < 2 ^ 256 ∧ factors.prod = p - 1 ∧ powMod p 256 a (p - 1) = 1 ∧
    ∀ q ∈ factors, powMod p 256 a ((p - 1) / q) ≠ 1

instance (p a : ℕ) (factors : List ℕ) : Decidable (PassesLucas p a factors) :=
  inferInstanceAs (Decidable (_ ∧ _))

theorem prime_of_passesLucas {p : ℕ} (a : ℕ) (factors : List ℕ)
    (hprime : factors.Forall Nat.Prime) (h : PassesLucas p a factors) : p.Prime := by
  obtain ⟨hlt, hprod, hfull, hpart⟩ := h
  have hpow {e : ℕ} (he : e ≤ p - 1) : powMod p 256 a e = a ^ e % p := powMod_eq p a (by omega)
  rw [hpow le_rfl] at hfull
  have hone : 1 % p = 1 := by
    rw [← hfull, Nat.mod_mod]
  have hcast (e : ℕ) : (a : ZMod p) ^ e = 1 ↔ a ^ e % p = 1 := by
    rw [← Nat.cast_pow, ← Nat.cast_one, ZMod.natCast_eq_natCast_iff', hone]
  refine lucas_primality p a ((hcast _).2 hfull) fun q hq hdvd => ?_
  rw [← hprod, hq.prime.dvd_prod_iff] at hdvd
  obtain ⟨f, hf, hdvd⟩ := hdvd
  have hmem := List.forall_iff_forall_mem.1 hprime f hf
  have hqf : q = f := (Nat.prime_dvd_prime_iff_eq hq hmem).1 hdvd
  rw [ne_eq, hcast, hqf, ← hpow (Nat.div_le_self ..)]
  exact hpart f hf

theorem Ristretto.prime_order : order.Prime := by
  have h₁ : Nat.Prime 58964693 :=
    prime_of_passesLucas 2 [2, 2, 14741173] (by norm_num) (by decide +kernel)
  have h₂ : Nat.Prime 3044861653679985063343 :=
    prime_of_passesLucas 5 [2, 3, 11, 30703, 82163, 132667, 137849] (by norm_num)
      (by decide +kernel)
  have h₃ : Nat.Prime 198211423230930754013084525763697 :=
    prime_of_passesLucas 5 [3044861653679985063343, 58964693, 2, 2, 2, 2, 3, 23]
      ⟨h₂, h₁, by norm_num⟩ (by decide +kernel)
  have h₄ : Nat.Prime 292386187 :=
    prime_of_passesLucas 2 [2, 3, 3, 3, 3, 307, 5879] (by norm_num) (by decide +kernel)
  have h₅ : Nat.Prime 213441916511 :=
    prime_of_passesLucas 13 [292386187, 2, 5, 73] ⟨h₄, by norm_num⟩ (by decide +kernel)
  have h₆ : Nat.Prime 1257559732178653 :=
    prime_of_passesLucas 2 [2, 2, 3, 7, 23, 531581, 1224481] (by norm_num) (by decide +kernel)
  have h₇ : Nat.Prime 4434155615661930479 :=
    prime_of_passesLucas 17 [1257559732178653, 2, 41, 43] ⟨h₆, by norm_num⟩ (by decide +kernel)
  have h₈ : Nat.Prime 172054593956031949258510691 :=
    prime_of_passesLucas 2 [4434155615661930479, 2, 5, 1361, 2851] ⟨h₇, by norm_num⟩
      (by decide +kernel)
  have h₉ : Nat.Prime 19757330305831588566944191468367130476339 :=
    prime_of_passesLucas 2 [213441916511, 172054593956031949258510691, 2, 269]
      ⟨h₅, h₈, by norm_num⟩ (by decide +kernel)
  have h₁₀ : Nat.Prime 276602624281642239937218680557139826668747 :=
    prime_of_passesLucas 2 [19757330305831588566944191468367130476339, 2, 7] ⟨h₉, by norm_num⟩
      (by decide +kernel)
  exact prime_of_passesLucas 2
    [198211423230930754013084525763697, 276602624281642239937218680557139826668747, 2, 2, 3, 11]
    ⟨h₃, h₁₀, by norm_num⟩ (by decide +kernel)

end AuthDict
