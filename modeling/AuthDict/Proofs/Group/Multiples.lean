import AuthDict.Proofs.Group.Order
import AuthDict.Proofs.Group.PrimeOrder
import Mathlib.Data.ZMod.Basic
import Mathlib.Logic.Equiv.Basic

/-!
# The group of multiples

A group of the order of ristretto255 whose elements are held as multiples of the generator. Its
encodings are the factors in little-endian order, up to a renaming of blocks, which may give any
finite number of elements the encodings that they have elsewhere. With every renaming it is a group
of prime order (`Multiple.primeOrder`).
-/
namespace AuthDict

/-- The element that is `factor` times the generator. -/
structure Multiple (rename : Equiv.Perm (Block 32)) where
  factor : ℕ

namespace Multiple

variable {rename : Equiv.Perm (Block 32)}

/-- The multiple by the residue of a number. -/
def ofNat (rename : Equiv.Perm (Block 32)) (n : ℕ) : Multiple rename := ⟨n % Ristretto.order⟩

instance : ProofGroup (Multiple rename) where
  order := Ristretto.order
  identity := ofNat rename 0
  generator := ofNat rename 1
  add a b := ofNat rename (a.factor + b.factor)
  neg a := ofNat rename (Ristretto.order - a.factor)
  smul n a := ofNat rename (n * a.factor)
  encode a := rename (.ofNat 32 a.factor)
  decode? b :=
    let factor := (rename.symm b).toNat
    if factor < Ristretto.order then some ⟨factor⟩ else none
  ofUniform lo hi := ofNat rename (ofLE (lo.bytes ++ hi.bytes))

/-- A reduced factor stands for its residue class. -/
def Stands (rename : Equiv.Perm (Block 32)) (g : Multiple rename) (a : ZMod Ristretto.order) :
    Prop :=
  g.factor < Ristretto.order ∧ (g.factor : ZMod Ristretto.order) = a

theorem order_pos : 0 < Ristretto.order := Ristretto.prime_order.pos

theorem order_lt : Ristretto.order < 256 ^ 32 := by decide

theorem stands_ofNat (n : ℕ) : Stands rename (ofNat rename n) n :=
  ⟨Nat.mod_lt n order_pos, ZMod.natCast_mod n Ristretto.order⟩

theorem stands_ofNat_of_eq {n : ℕ} {a : ZMod Ristretto.order} (h : (n : ZMod Ristretto.order) = a) :
    Stands rename (ofNat rename n) a := h ▸ stands_ofNat n

theorem toNat_ofNat {n : ℕ} (hn : n < 256 ^ 32) : (Block.ofNat 32 n).toNat = n := by
  rw [Block.toNat, Block.ofNat, ofLE_leBytes, Nat.mod_eq_of_lt hn]

theorem ofNat_toNat (b : Block 32) : Block.ofNat 32 b.toNat = b := by
  apply Block.ext
  have h := leBytes_ofLE b.bytes
  rwa [b.length_eq] at h

theorem represents : ProofGroup.Represents (Stands rename) where
  identity := stands_ofNat_of_eq Nat.cast_zero
  generator := ⟨_, stands_ofNat 1⟩
  ofUniform _ _ := ⟨_, stands_ofNat _⟩
  add ha hb := stands_ofNat_of_eq (by rw [Nat.cast_add, ha.2, hb.2])
  neg ha := stands_ofNat_of_eq (by rw [Nat.cast_sub ha.1.le, ZMod.natCast_self, zero_sub, ha.2])
  smul n ha := stands_ofNat_of_eq (by rw [Nat.cast_mul, ha.2, nsmul_eq_mul])
  order_smul a := by
    change Ristretto.order • a = 0
    rw [nsmul_eq_mul, ZMod.natCast_self, zero_mul]
  encode_eq_iff {g h a b} ha hb := by
    constructor
    · intro hencode
      have hblock : Block.ofNat 32 g.factor = Block.ofNat 32 h.factor := rename.injective hencode
      have hfactor := congrArg Block.toNat hblock
      rw [toNat_ofNat (ha.1.trans order_lt), toNat_ofNat (hb.1.trans order_lt)] at hfactor
      rw [← ha.2, ← hb.2, hfactor]
    · rintro rfl
      have hfactor : g.factor = h.factor := by
        have hmod := (ZMod.natCast_eq_natCast_iff' _ _ _).1 (ha.2.trans hb.2.symm)
        rwa [Nat.mod_eq_of_lt ha.1, Nat.mod_eq_of_lt hb.1] at hmod
      exact congrArg (fun n => rename (.ofNat 32 n)) hfactor
  decode_encode {g a} ha := by
    refine ⟨g, ?_, ha⟩
    simp only [ProofGroup.decode?, ProofGroup.encode, Equiv.symm_apply_apply,
      toNat_ofNat (ha.1.trans order_lt), ha.1, if_true]

theorem primeOrder : ProofGroup.PrimeOrder (Stands rename) where
  toRepresents := represents
  prime := Ristretto.prime_order
  le_order := by
    change 256 ^ 16 ≤ Ristretto.order
    decide
  order_le := order_lt.le
  generator_ne h := by
    have hone : ((1 : ℕ) : ZMod Ristretto.order) = 0 := represents.unique (stands_ofNat 1) h
    have hdvd := (ZMod.natCast_eq_zero_iff 1 Ristretto.order).1 hone
    exact Ristretto.prime_order.one_lt.not_ge (Nat.le_of_dvd Nat.one_pos hdvd)
  encode_of_decode {b g} h := by
    simp only [ProofGroup.decode?] at h
    split at h
    · next hlt =>
      have hg : (⟨(rename.symm b).toNat⟩ : Multiple rename) = g := Option.some.inj h
      rw [← hg]
      refine ⟨?_, _, hlt, rfl⟩
      change rename (Block.ofNat 32 (rename.symm b).toNat) = b
      rw [ofNat_toNat, Equiv.apply_symm_apply]
    · contradiction

end Multiple

end AuthDict
