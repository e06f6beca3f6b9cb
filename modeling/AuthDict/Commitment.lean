import AuthDict.Preimage

/-!
# Payload commitments

The trie holds commitments in place of payloads. A commitment hashes the payload under 32 random
bytes, so it hides the payload until both are shown.
-/
namespace AuthDict

/-- The hash function that binds a payload to its randomness. -/
inductive CommitmentScheme where
  | keccak256
  | sha3
deriving DecidableEq, Repr

namespace CommitmentScheme

def name : CommitmentScheme → String
  | .keccak256 => "keccak256"
  | .sha3 => "sha3_256"

def hash : CommitmentScheme → Bytes → Digest
  | .keccak256 => AuthDict.keccak256
  | .sha3 => AuthDict.sha3

def commit (scheme : CommitmentScheme) (payload : Bytes) (r : Randomness) : Commitment :=
  scheme.hash (Preimage.commitment r payload).encode

end CommitmentScheme

end AuthDict
