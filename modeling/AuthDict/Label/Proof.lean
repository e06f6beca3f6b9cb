import AuthDict.Group.Basic
import AuthDict.Preimage

/-!
# Label proofs

A verifiable random function over a prime-order group. The holder of a scalar `x` with public key
`x·B` derives the label of a key from `gamma = x·H`, where `H` is the key's point, and proves with
a challenge `c` and a response `s` that `gamma` and the public key have the same scalar. All
accepted proofs of a key that carry the same `gamma` carry the same label.
-/
namespace AuthDict

/-- `gamma`, 16 challenge bytes and the response. -/
abbrev LabelProof := Block 80

/-- A key pair, derived from a seed. -/
structure ProofKey (G : Type) where
  seed : Seed
  scalar : Nat
  point : G

namespace ProofKey

variable {G : Type} [ProofGroup G]

open ProofGroup

def ofSeed (G : Type) [ProofGroup G] (seed : Seed) : ProofKey G :=
  let x := scalarOfUniform G (Preimage.scalar .first seed).digest
    (Preimage.scalar .second seed).digest
  ⟨seed, x, smul x generator⟩

def publicKey (k : ProofKey G) : PublicKey := encode k.point

end ProofKey

namespace LabelProof

variable {G : Type} [ProofGroup G]

open ProofGroup

/-- The point of a key under a public key. -/
def keyPoint (G : Type) [ProofGroup G] (pk : PublicKey) (key : Bytes) : G :=
  ofUniform (Preimage.keyPoint .first pk key).digest (Preimage.keyPoint .second pk key).digest

/-- The first 16 bytes of the transcript's hash, as a number. -/
def challenge (pk : PublicKey) (h gamma u v : G) : Nat :=
  ofLE ((Preimage.challenge pk (encode h) (encode gamma) (encode u) (encode v)).digest.bytes.take 16)

def labelOf (gamma : G) : Label := (Preimage.provedLabel (encode gamma)).digest

/-- `gamma`, challenge and response in 32, 16 and 32 bytes. -/
def assemble (gamma : Block 32) (c s : Nat) : LabelProof :=
  ⟨gamma.bytes ++ (leBytes 16 c ++ leBytes 32 s), by simp [gamma.length_eq]⟩

def gammaPart (proof : LabelProof) : Block 32 :=
  ⟨proof.bytes.take 32, by simp [proof.length_eq]⟩

def challengePart (proof : LabelProof) : Nat := ofLE ((proof.bytes.drop 32).take 16)

def responsePart (proof : LabelProof) : Nat := ofLE (proof.bytes.drop 48)

/-- The label of a key with the proof made from a given nonce. -/
def proveWithNonce (k : ProofKey G) (key : Bytes) (nonce : Nat) : Label × LabelProof :=
  let pk := k.publicKey
  let h : G := keyPoint G pk key
  let gamma := smul k.scalar h
  let c := challenge pk h gamma (smul nonce generator) (smul nonce h)
  let s := (nonce + c * k.scalar) % order G
  (labelOf gamma, assemble (encode gamma) c s)

/-- The nonce is a hash of the scalar and the key's point, so proofs are deterministic. -/
def nonceFor (k : ProofKey G) (key : Bytes) : Nat :=
  let x := Block.ofNat 32 k.scalar
  let h := encode (keyPoint G k.publicKey key)
  scalarOfUniform G (Preimage.nonce .first x h).digest (Preimage.nonce .second x h).digest

def prove (k : ProofKey G) (key : Bytes) : Label × LabelProof :=
  proveWithNonce k key (nonceFor k key)

/-- Checks that `label` is the label of `key` under a public key. The identity is no public key,
and a response has to be a reduced scalar. -/
def verify (G : Type) [ProofGroup G] (pk : PublicKey) (key : Bytes) (label : Label)
    (proof : LabelProof) : Bool :=
  match decode? pk, decode? proof.gammaPart with
  | some (y : G), some (gamma : G) =>
    let c := proof.challengePart
    let s := proof.responsePart
    let h : G := keyPoint G pk key
    let u := sub (smul s generator) (smul c y)
    let v := sub (smul s h) (smul c gamma)
    !isIdentity y && decide (s < order G) && challenge pk h gamma u v == c
      && labelOf gamma == label
  | _, _ => false

end LabelProof

end AuthDict
