import AuthDict.Group.Ristretto
import AuthDict.Label.Proof

/-!
# Label secrets

Labels are derived from keys under a secret, in one of two ways: as a keyed hash, or together with
a proof that anyone who holds the public key can check.
-/
namespace AuthDict

inductive LabelScheme where
  | plain
  | verifiable
deriving DecidableEq, Repr

def LabelScheme.name : LabelScheme → String
  | .plain => "plain"
  | .verifiable => "verifiable"

/-- A label with its proof, where the scheme gives one. -/
structure DerivedLabel where
  label : Label
  proof : Option LabelProof
deriving DecidableEq, Repr

/-- What labels are derived under. -/
inductive LabelSecret (G : Type) where
  | plain (secret : Seed)
  | verifiable (key : ProofKey G)

namespace LabelSecret

variable {G : Type} [ProofGroup G]

/-- The secret of a scheme made of 32 secret bytes. -/
def ofBytes (scheme : LabelScheme) (bytes : Seed) : LabelSecret G :=
  match scheme with
  | .plain => plain bytes
  | .verifiable => verifiable (.ofSeed G bytes)

/-- The secret of a scheme that belongs to a configured seed. -/
def ofSeed (scheme : LabelScheme) (seed : Seed) : LabelSecret G :=
  ofBytes scheme (Preimage.secretSeed seed).digest

def scheme : LabelSecret G → LabelScheme
  | plain _ => .plain
  | verifiable _ => .verifiable

/-- The secret key that a snapshot carries. A plain secret follows from the configuration's seed
and has none. -/
def secretKey : LabelSecret G → Option Seed
  | plain _ => none
  | verifiable key => some key.seed

def publicKey : LabelSecret G → Option PublicKey
  | plain _ => none
  | verifiable key => some key.publicKey

def derive (secret : LabelSecret G) (key : Bytes) : DerivedLabel :=
  match secret with
  | plain s => ⟨(Preimage.plainLabel s key).digest, none⟩
  | verifiable k =>
    let (label, proof) := LabelProof.prove k key
    ⟨label, some proof⟩

def label (secret : LabelSecret G) (key : Bytes) : Label :=
  match secret with
  | plain s => (Preimage.plainLabel s key).digest
  | verifiable k =>
    LabelProof.labelOf (ProofGroup.smul k.scalar (LabelProof.keyPoint G k.publicKey key))

theorem label_derive (secret : LabelSecret G) (key : Bytes) :
    (secret.derive key).label = secret.label key := by
  cases secret <;> rfl

/-- A text that names the scheme and keeps the secret. -/
def redacted (secret : LabelSecret G) : String :=
  "LabelSecret(" ++ secret.scheme.name ++ ", <redacted>)"

end LabelSecret

/-- A text that identifies a proof by its first eight bytes. -/
def LabelProof.abbreviated (proof : LabelProof) : String :=
  "LabelProof(" ++ Hex.encode (proof.bytes.take 8) ++ "..)"

end AuthDict
