import AuthDict.Proofs.Label.Acceptance
import Mathlib.Algebra.Field.ZMod
import Mathlib.Tactic.Module

/-!
# A wrong label needs the one challenge

A proof fixes the points `u = s·B - c·Y` and `v = s·H - c·gamma` that the challenge is a hash of. If
`gamma` is not the multiple `x·H` of the key's point that the holder of the public key `Y = x·B`
takes, then no challenge but `c` is ever answered for these points, by any response. So whoever
proves another label has found points whose hash is that one challenge
(`own_gamma_or_one_challenge`).

Two answers for the same points are two linear relations over the scalar field, one for the
generator, which settles the difference of the responses, and one for the key's point.
-/
namespace AuthDict.LabelProof

open ProofGroup

/-- Two answers for the same points have one challenge, unless `g` is the multiple of `p` that the
public key is of the generator `b`. -/
theorem eq_smul_or_eq_of_answers {F A : Type} [Field F] [AddCommGroup A] [Module F A] {b p g : A}
    {x c s c' s' : F} (hb : b ≠ 0) (hu : s' • b - c' • x • b = s • b - c • x • b)
    (hv : s' • p - c' • g = s • p - c • g) : g = x • p ∨ c' = c := by
  have hresponse : s' - s = (c' - c) * x := by
    have hzero : (s' - s - (c' - c) * x) • b = 0 := by
      calc (s' - s - (c' - c) * x) • b
          = (s' • b - c' • x • b) - (s • b - c • x • b) := by module
        _ = 0 := sub_eq_zero.2 hu
    exact sub_eq_zero.1 ((smul_eq_zero.1 hzero).resolve_right hb)
  have hkey : (c' - c) • (g - x • p) = 0 := by
    calc (c' - c) • (g - x • p)
        = (s • p - c • g) - (s' • p - c' • g) + (s' - s - (c' - c) * x) • p := by module
      _ = 0 := by rw [hv, hresponse, sub_self, sub_self, zero_smul, add_zero]
  rcases smul_eq_zero.1 hkey with hc | hg
  · exact .inr (sub_eq_zero.1 hc)
  · exact .inl (sub_eq_zero.1 hg)

variable {G A : Type} [ProofGroup G] [AddCommGroup A] {R : G → A → Prop}

/-- The points that the verifier recomputes from a challenge and a response are `u` and `v`. -/
def Answers (y h gamma u v : G) (c s : Nat) : Prop :=
  encode (sub (smul s generator) (smul c y)) = encode u ∧
    encode (sub (smul s h) (smul c gamma)) = encode v

theorem Answers.eq_smul_or_eq (hR : PrimeOrder R) {y h gamma u v : G} {b p g : A}
    {x c s c' s' : Nat} (hb : R generator b) (hy : R y (x • b)) (hh : R h p) (hgamma : R gamma g)
    (hc : c < order G) (hc' : c' < order G) (hanswers : Answers y h gamma u v c s)
    (hanswers' : Answers y h gamma u v c' s') : g = x • p ∨ c' = c := by
  have : Fact (order G).Prime := ⟨hR.prime⟩
  let _ : Module (ZMod (order G)) A := AddCommGroup.zmodModule hR.order_smul
  have hne : b ≠ 0 := by
    intro hzero
    exact hR.generator_ne (hzero ▸ hb)
  have hu : s' • b - c' • x • b = s • b - c • x • b := by
    refine (hR.encode_eq_iff (hR.sub (hR.smul s' hb) (hR.smul c' hy))
      (hR.sub (hR.smul s hb) (hR.smul c hy))).1 ?_
    exact hanswers'.1.trans hanswers.1.symm
  have hv : s' • p - c' • g = s • p - c • g := by
    refine (hR.encode_eq_iff (hR.sub (hR.smul s' hh) (hR.smul c' hgamma))
      (hR.sub (hR.smul s hh) (hR.smul c hgamma))).1 ?_
    exact hanswers'.2.trans hanswers.2.symm
  simp only [← Nat.cast_smul_eq_nsmul (ZMod (order G))] at hu hv ⊢
  refine (eq_smul_or_eq_of_answers hne hu hv).imp_right fun hcast => ?_
  have hmod := (ZMod.natCast_eq_natCast_iff' _ _ _).1 hcast
  rwa [Nat.mod_eq_of_lt hc', Nat.mod_eq_of_lt hc] at hmod

/-- An accepted proof is decoded to `y` and `gamma`, and its challenge and response lead the
verifier to `u` and `v`, which its challenge is a hash of. -/
structure Recomputed (pk : PublicKey) (key : Bytes) (proof : LabelProof) (y gamma u v : G) :
    Prop where
  decodePublic : decode? pk = some y
  decodeGamma : decode? proof.gammaPart = some gamma
  answers : Answers y (keyPoint G pk key) gamma u v proof.challengePart proof.responsePart
  hashed : challenge pk (keyPoint G pk key) gamma u v = proof.challengePart

theorem exists_recomputed {pk : PublicKey} {key : Bytes} {label : Label} {proof : LabelProof}
    (h : verify G pk key label proof = true) :
    ∃ y gamma u v : G, Recomputed pk key proof y gamma u v ∧ labelOf gamma = label := by
  unfold verify at h
  split at h
  · next y gamma hy hgamma =>
    simp only [Bool.and_eq_true, beq_iff_eq] at h
    exact ⟨y, gamma, _, _, ⟨hy, hgamma, ⟨rfl, rfl⟩, h.1.2⟩, h.2⟩
  · contradiction

theorem challengePart_lt (proof : LabelProof) : proof.challengePart < 256 ^ 16 := by
  refine (ofLE_lt _).trans_le (Nat.pow_le_pow_right (by decide) ?_)
  exact List.length_take_le ..

/-- Either the proof is for the label that the holder of the key derives, or its challenge is the
only one that can be answered for the points that the verifier recomputes. -/
theorem own_gamma_or_one_challenge (hR : PrimeOrder R) {k : ProofKey G}
    (hpoint : k.point = smul k.scalar generator) {key : Bytes} {label : Label} {proof : LabelProof}
    (hverify : verify G k.publicKey key label proof = true) :
    ∃ y gamma u v : G, Recomputed k.publicKey key proof y gamma u v ∧
      (proof.gammaPart = encode (smul k.scalar (keyPoint G k.publicKey key)) ∧
          label = labelOf (smul k.scalar (keyPoint G k.publicKey key)) ∧
          label = ((LabelSecret.verifiable k).derive key).label ∨
        ∀ c < order G, ∀ s, Answers y (keyPoint G k.publicKey key) gamma u v c s →
          c = proof.challengePart) := by
  obtain ⟨y, gamma, u, v, hrecomputed, hlabel⟩ := exists_recomputed hverify
  obtain ⟨b, hb⟩ := hR.generator
  obtain ⟨p, hp⟩ : ∃ p, R (keyPoint G k.publicKey key) p := hR.ofUniform _ _
  obtain ⟨hgammaPart, g, hg⟩ := hR.encode_of_decode hrecomputed.decodeGamma
  have hk : R k.point (k.scalar • b) := hpoint ▸ hR.smul k.scalar hb
  have hy : R y (k.scalar • b) := by
    obtain ⟨y', hdecode, hy'⟩ := hR.decode_encode hk
    have hsame : y' = y := Option.some.inj (hdecode.symm.trans hrecomputed.decodePublic)
    exact hsame ▸ hy'
  refine ⟨y, gamma, u, v, hrecomputed, ?_⟩
  by_cases hown : g = k.scalar • p
  · have hencode : encode gamma = encode (smul k.scalar (keyPoint G k.publicKey key)) :=
      (hR.encode_eq_iff hg (hR.smul k.scalar hp)).2 hown
    have hlabelOf : label = labelOf (smul k.scalar (keyPoint G k.publicKey key)) := by
      rw [← hlabel, labelOf, hencode, labelOf]
    exact .inl ⟨hgammaPart.symm.trans hencode, hlabelOf, hlabelOf⟩
  · refine .inr fun c hc s hanswers => ?_
    have hlt : proof.challengePart < order G := (challengePart_lt proof).trans_le hR.le_order
    exact (hrecomputed.answers.eq_smul_or_eq hR hb hy hp hg hlt hc hanswers).resolve_left hown

theorem own_gamma_or_one_challenge_sampleSeed :
    ∃ k : ProofKey (Multiple sampleRename), ∃ label proof,
      PrimeOrder (Multiple.Stands sampleRename) ∧ k.point = smul k.scalar generator ∧
      k.publicKey = (ProofKey.ofSeed Ristretto sampleSeed).publicKey ∧
      verify (Multiple sampleRename) k.publicKey sampleKey label proof = true ∧
      ∃ y gamma u v : Multiple sampleRename, Recomputed k.publicKey sampleKey proof y gamma u v ∧
        (proof.gammaPart =
              encode (smul k.scalar (keyPoint (Multiple sampleRename) k.publicKey sampleKey)) ∧
            label =
              labelOf (smul k.scalar (keyPoint (Multiple sampleRename) k.publicKey sampleKey)) ∧
            label = ((LabelSecret.verifiable k).derive sampleKey).label ∨
          ∀ c < order (Multiple sampleRename), ∀ s,
            Answers y (keyPoint (Multiple sampleRename) k.publicKey sampleKey) gamma u v c s →
              c = proof.challengePart) := by
  have hR : PrimeOrder (Multiple.Stands sampleRename) := Multiple.primeOrder
  let k : ProofKey (Multiple sampleRename) := .ofSeed _ sampleSeed
  have hproper : isIdentity k.point = false := by decide +kernel
  have hverify := verify_proveWithNonce hR.toRepresents hR.prime.pos hR.order_le (k := k) rfl
    hproper sampleKey (nonceFor k sampleKey)
  exact ⟨k, _, _, hR, rfl, prove_sampleRename.1, hverify,
    own_gamma_or_one_challenge hR rfl hverify⟩

end AuthDict.LabelProof
