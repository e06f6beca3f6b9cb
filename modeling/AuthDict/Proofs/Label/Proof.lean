import AuthDict.Label.Secret
import AuthDict.Proofs.Bytes
import Mathlib.Algebra.Group.Basic
import Mathlib.Tactic.Abel

/-!
# Label proofs are accepted

What label proofs rely on is that the elements of a `ProofGroup` stand for those of a commutative
group, in which the order of the group annihilates everything, and that encodings stand for the
same. Then the proof that goes with a label is accepted under the public key, unless that is the
identity.
-/
namespace AuthDict

namespace ProofGroup

variable {G A : Type} [ProofGroup G] [AddCommGroup A]

/-- The relation tells which element each value stands for, if it stands for any. -/
structure Represents (R : G → A → Prop) : Prop where
  identity : R identity 0
  generator : ∃ a, R generator a
  ofUniform : ∀ lo hi, ∃ a, R (ofUniform lo hi) a
  add : ∀ {g h a b}, R g a → R h b → R (add g h) (a + b)
  neg : ∀ {g a}, R g a → R (neg g) (-a)
  smul : ∀ {g a} (n : Nat), R g a → R (smul n g) (n • a)
  order_smul : ∀ a : A, order G • a = 0
  encode_eq_iff : ∀ {g h a b}, R g a → R h b → (encode g = encode h ↔ a = b)
  decode_encode : ∀ {g a}, R g a → ∃ h, decode? (encode g) = some h ∧ R h a

/-- The group laws, up to the choice of representatives. -/
def Lawful (G : Type) [ProofGroup G] : Prop :=
  ∃ (A : Type) (_ : AddCommGroup A) (R : G → A → Prop), Represents R

theorem Represents.sub {R : G → A → Prop} (hR : Represents R) {g h : G} {a b : A} (hg : R g a)
    (hh : R h b) : R (sub g h) (a - b) := by
  rw [sub_eq_add_neg]
  exact hR.add hg (hR.neg hh)

end ProofGroup

namespace LabelProof

open ProofGroup

theorem gammaPart_assemble (gamma : Block 32) (c s : Nat) : gammaPart (assemble gamma c s) = gamma := by
  apply Block.ext
  simp [gammaPart, assemble, gamma.length_eq]

theorem challengePart_assemble (gamma : Block 32) {c : Nat} (s : Nat) (hc : c < 256 ^ 16) :
    challengePart (assemble gamma c s) = c := by
  have hdrop : (assemble gamma c s).bytes.drop 32 = leBytes 16 c ++ leBytes 32 s := by
    simp [assemble, gamma.length_eq]
  have htake : (leBytes 16 c ++ leBytes 32 s).take 16 = leBytes 16 c := by
    simp
  rw [challengePart, hdrop, htake, ofLE_leBytes, Nat.mod_eq_of_lt hc]

theorem responsePart_assemble (gamma : Block 32) (c : Nat) {s : Nat} (hs : s < 256 ^ 32) :
    responsePart (assemble gamma c s) = s := by
  have hdrop : (assemble gamma c s).bytes.drop 48 = leBytes 32 s := by
    simp [assemble, List.drop_append, gamma.length_eq]
  rw [responsePart, hdrop, ofLE_leBytes, Nat.mod_eq_of_lt hs]

variable {G A : Type} [ProofGroup G] [AddCommGroup A] {R : G → A → Prop}

theorem challenge_lt (pk : PublicKey) (h gamma u v : G) : challenge pk h gamma u v < 256 ^ 16 := by
  have hlt := ofLE_lt ((Preimage.challenge pk (encode h) (encode gamma) (encode u)
    (encode v)).digest.bytes.take 16)
  refine Nat.lt_of_lt_of_le hlt (Nat.pow_le_pow_right (by decide) ?_)
  exact List.length_take_le ..

/-- What the prover answers cancels what the verifier subtracts. -/
theorem response_smul (hR : Represents R) (b : A) (nonce c x : Nat) :
    ((nonce + c * x) % order G) • b - c • (x • b) = nonce • b := by
  rw [← nsmul_eq_mod_nsmul (nonce + c * x) (hR.order_smul b), add_nsmul, mul_nsmul']
  abel

/-- So the verifier finds the prover's multiple of a base, from any representative of the public
multiple. -/
theorem encode_response (hR : Represents R) {base point : G} {b : A} {x : Nat} (hbase : R base b)
    (hpoint : R point (x • b)) (nonce c : Nat) :
    encode (sub (smul ((nonce + c * x) % order G) base) (smul c point)) =
      encode (smul nonce base) := by
  apply (hR.encode_eq_iff (hR.sub (hR.smul _ hbase) (hR.smul c hpoint)) (hR.smul nonce hbase)).2
  exact response_smul hR b nonce c x

/-- A label is accepted with its proof, whatever the nonce. -/
theorem verify_proveWithNonce (hR : Represents R) (hpos : 0 < order G) (hle : order G ≤ 256 ^ 32)
    {k : ProofKey G} (hpoint : k.point = smul k.scalar generator)
    (hproper : isIdentity k.point = false) (key : Bytes) (nonce : Nat) :
    verify G k.publicKey key (proveWithNonce k key nonce).1 (proveWithNonce k key nonce).2 =
      true := by
  obtain ⟨b, hb⟩ := hR.generator
  obtain ⟨p, hp⟩ : ∃ p, R (keyPoint G k.publicKey key) p := hR.ofUniform _ _
  have hk : R k.point (k.scalar • b) := hpoint ▸ hR.smul k.scalar hb
  have hgamma := hR.smul k.scalar hp
  obtain ⟨y, hdecodeY, hy⟩ := hR.decode_encode hk
  obtain ⟨g, hdecodeG, hg⟩ := hR.decode_encode hgamma
  let c := challenge k.publicKey (keyPoint G k.publicKey key)
    (smul k.scalar (keyPoint G k.publicKey key)) (smul nonce generator)
    (smul nonce (keyPoint G k.publicKey key))
  let s := (nonce + c * k.scalar) % order G
  have hc : c < 256 ^ 16 := challenge_lt ..
  have hs : s < order G := Nat.mod_lt _ hpos
  -- The verifier computes with other representatives of the same elements.
  have hencodeG : encode g = encode (smul k.scalar (keyPoint G k.publicKey key)) :=
    (hR.encode_eq_iff hg hgamma).2 rfl
  have hencodeU : encode (sub (smul s generator) (smul c y)) =
      encode (smul nonce generator : G) := encode_response hR hb hy nonce c
  have hencodeV : encode (sub (smul s (keyPoint G k.publicKey key)) (smul c g)) =
      encode (smul nonce (keyPoint G k.publicKey key)) := encode_response hR hp hg nonce c
  have hidentity : isIdentity y = false := by
    have hencodeY : encode y = encode k.point := (hR.encode_eq_iff hy hk).2 rfl
    rw [isIdentity, hencodeY]
    exact hproper
  have hparts : (proveWithNonce k key nonce).2 =
      assemble (encode (smul k.scalar (keyPoint G k.publicKey key))) c s := rfl
  have hdecode : decode? k.publicKey = some y := hdecodeY
  have hchallenge : challenge k.publicKey (keyPoint G k.publicKey key) g
      (sub (smul s generator) (smul c y))
      (sub (smul s (keyPoint G k.publicKey key)) (smul c g)) = c := by
    unfold challenge
    rw [hencodeG, hencodeU, hencodeV]
    rfl
  have hlabel : labelOf g = (proveWithNonce k key nonce).1 := by
    unfold labelOf
    rw [hencodeG]
    rfl
  unfold verify
  rw [hparts, gammaPart_assemble, challengePart_assemble _ _ hc,
    responsePart_assemble _ _ (Nat.lt_of_lt_of_le hs hle), hdecode, hdecodeG]
  simp [hidentity, hs, hchallenge, hlabel]

end LabelProof

end AuthDict
