import AuthDict.Label.Secret
import AuthDict.Proofs.Group.Multiples

/-!
# Honest labels are accepted

The holder of a secret seed whose scalar is not zero gives each key one label: the proofs made from
any nonces come with the same label, and each of them is accepted under the public key
(`accepted_with_one_label`). So the proof that goes with a derived label is accepted.

The sample is a group of multiples in which the elements of one proof have their encodings of
ristretto255.
-/
namespace AuthDict.LabelProof

open ProofGroup

variable {G A : Type} [ProofGroup G] [AddCommGroup A] {R : G → A → Prop}

theorem scalar_ofSeed_lt (hpos : 0 < order G) (seed : Seed) :
    (ProofKey.ofSeed G seed).scalar < order G :=
  Nat.mod_lt _ hpos

theorem accepted_with_one_label (hR : PrimeOrder R) {seed : Seed}
    (hscalar : (ProofKey.ofSeed G seed).scalar ≠ 0) (key : Bytes) :
    ∃ label,
      (∀ nonce, ∃ proof, proveWithNonce (.ofSeed G seed) key nonce = (label, proof) ∧
        verify G (ProofKey.ofSeed G seed).publicKey key label proof = true) ∧
      ∃ proof, (LabelSecret.verifiable (.ofSeed G seed)).derive key = ⟨label, some proof⟩ ∧
        verify G (ProofKey.ofSeed G seed).publicKey key label proof = true := by
  have hpos := hR.prime.pos
  have hproper : isIdentity (ProofKey.ofSeed G seed).point = false :=
    hR.isIdentity_smul_generator hscalar (scalar_ofSeed_lt hpos seed)
  have haccepted (nonce : Nat) := verify_proveWithNonce hR.toRepresents hpos hR.order_le
    (k := .ofSeed G seed) rfl hproper key nonce
  refine ⟨(LabelSecret.verifiable (.ofSeed G seed)).label key, fun nonce => ?_, ?_⟩
  · exact ⟨_, rfl, haccepted nonce⟩
  · exact ⟨_, rfl, haccepted (nonceFor (.ofSeed G seed) key)⟩

def sampleSeed : Seed := Block.zero 32

def sampleKey : Bytes := [107]

/-- Elements of the sample's proof as multiples of the generator, and their encodings in
ristretto255: the public key, the nonce's multiple of the generator, the key's point, and the
multiples of that by the scalar and the nonce. Of the last three only the ratios are known, so the
key's point is taken for the multiple that its hash gives. -/
def sampleEncodings : List (Nat × Nat) :=
  [(2497245319603387334878749966326354738475354565923085935205270075492982826749,
    57621045885069652920848835613402430655370629661702433684662866252842604975446),
   (5050050014142258803211077361154040345625686366828659570536896745561956272693,
    32068613583257907621916691892202220453119479348282175864533514191705034977540),
   (2956476553248512392696879565340669570426214704371431047572421267078625711635,
    46065267881942905595009303709597529022386406738561857023446890191951877892754),
   (3766080623863244235930725283001622479483222986581423565525376530672546194843,
    20200812947567545481088984231606982768159774417476747837472166606461871852822),
   (1370977701439269812609461544054496805161356813969729625840359890857602565246,
    54089112481777842475245241579166079037799302435078917154187163531151529573718)]

def sampleRename : Equiv.Perm (Block 32) :=
  (sampleEncodings.map fun e => Equiv.swap (.ofNat 32 e.1) (.ofNat 32 e.2)).prod

/-- On the sample the group of multiples behaves as ristretto255 does. -/
theorem prove_sampleRename :
    (ProofKey.ofSeed (Multiple sampleRename) sampleSeed).publicKey =
        (ProofKey.ofSeed Ristretto sampleSeed).publicKey ∧
      prove (.ofSeed (Multiple sampleRename) sampleSeed) sampleKey =
        prove (.ofSeed Ristretto sampleSeed) sampleKey := by
  decide +kernel

theorem accepted_with_one_label_sampleSeed :
    PrimeOrder (Multiple.Stands sampleRename) ∧
      (ProofKey.ofSeed (Multiple sampleRename) sampleSeed).scalar ≠ 0 ∧
      ∃ label proof,
        (LabelSecret.verifiable (.ofSeed (Multiple sampleRename) sampleSeed)).derive sampleKey =
          ⟨label, some proof⟩ ∧
        (LabelSecret.verifiable (.ofSeed Ristretto sampleSeed)).derive sampleKey =
          ⟨label, some proof⟩ ∧
        verify (Multiple sampleRename) (ProofKey.ofSeed Ristretto sampleSeed).publicKey sampleKey
          label proof = true := by
  have hR : PrimeOrder (Multiple.Stands sampleRename) := Multiple.primeOrder
  have hscalar : (ProofKey.ofSeed (Multiple sampleRename) sampleSeed).scalar ≠ 0 := by
    decide +kernel
  obtain ⟨hpublic, hprove⟩ := prove_sampleRename
  obtain ⟨label, -, proof, hderive, hverify⟩ := accepted_with_one_label hR hscalar sampleKey
  refine ⟨hR, hscalar, label, proof, hderive, ?_, hpublic ▸ hverify⟩
  rw [LabelSecret.derive, hprove] at hderive
  exact hderive

end AuthDict.LabelProof
