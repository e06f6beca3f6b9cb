import AuthDict.Commitment
import AuthDict.Element
import AuthDict.Label.Secret

/-!
# Answers

The answer to a query of a key, and its check by a client who knows a root. A member's answer shows
the payload and opens the commitment in the trie. Both kinds carry the path of the key's label,
and the proof of that label under the verifiable scheme.
-/
namespace AuthDict

inductive Answer where
  | member (payload : Bytes) (randomness : Randomness) (path : LookupPath)
      (proof : Option LabelProof)
  | absent (path : LookupPath) (proof : Option LabelProof)
deriving DecidableEq, Repr

namespace Answer

def isMember : Answer → Bool
  | member .. => true
  | absent .. => false

def payload? : Answer → Option Bytes
  | member payload .. => some payload
  | absent .. => none

def randomness? : Answer → Option Randomness
  | member _ randomness .. => some randomness
  | absent .. => none

def path : Answer → LookupPath
  | member _ _ path _ => path
  | absent path _ => path

def proof? : Answer → Option LabelProof
  | member _ _ _ proof => proof
  | absent _ proof => proof

def epoch (a : Answer) : Epoch := a.path.epoch

/-- With a public key, the label has to be proved; without one it is taken as given. -/
def labelHolds (a : Answer) (key : Bytes) : Option PublicKey → Bool
  | none => true
  | some pk =>
    match a.proof? with
    | some proof => LabelProof.verify Ristretto pk key a.path.label proof
    | none => false

/-- Whether the commitment in the path is the one that the answer opens. -/
def opens (a : Answer) (scheme : CommitmentScheme) : Bool :=
  match a with
  | member payload r path _ => path.leaf == some (scheme.commit payload r)
  | absent path _ => path.leaf.isNone

/-- Checks an answer for a key against a root. -/
def verify (a : Answer) (key : Bytes) (root : Digest) (pk : Option PublicKey)
    (scheme : CommitmentScheme) : Bool :=
  a.labelHolds key pk && LookupPath.verify root a.path && a.opens scheme

end Answer

end AuthDict
