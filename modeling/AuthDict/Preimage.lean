import AuthDict.Keccak

/-!
# What is hashed

Every hash of the dictionary is taken of a `Preimage`: a role together with its arguments. Its
encoding starts with a text or a byte that names the role, and wide hashes carry the number of
their half, so that two roles do not share an input. A leaf and a node of the trie are told apart
by their first byte.

The all-zero digest stands for the empty trie; it is the digest of no preimage by convention only.
-/
namespace AuthDict

/-- A path of the trie, derived from a key. -/
abbrev Label := Block 32

/-- What the trie stores for a label: a hiding commitment to a payload. -/
abbrev Commitment := Block 32

abbrev Randomness := Block 32

abbrev Seed := Block 32

abbrev PublicKey := Block 32

instance : Std.TransOrd Label := inferInstance

instance : Std.LawfulEqOrd Label := inferInstance

/-- The first or the second 32 bytes of a 64-byte hash. -/
inductive Half where
  | first
  | second
deriving DecidableEq, Repr

def Half.byte : Half → UInt8
  | .first => 0
  | .second => 1

/-- A role and its arguments. -/
inductive Preimage where
  | plainLabel (secret : Seed) (key : Bytes)
  | provedLabel (gamma : Block 32)
  | secretSeed (seed : Seed)
  | scalar (half : Half) (seed : Seed)
  | keyPoint (half : Half) (publicKey : PublicKey) (key : Bytes)
  | nonce (half : Half) (scalar : Block 32) (keyPoint : Block 32)
  | challenge (publicKey keyPoint gamma u v : Block 32)
  | commitment (randomness : Randomness) (payload : Bytes)
  | leaf (label : Label) (commitment : Commitment)
  | node (left right : Digest)
deriving DecidableEq, Repr

namespace Preimage

def ascii (text : List Char) : Bytes := text.map fun c => UInt8.ofNat c.toNat

def labelDomain : Bytes := ascii ['v', 'e', 'r', 'i', 'k', 'v', '/', 'l', 'a', 'b', 'e', 'l']

def seedDomain : Bytes := ascii ['v', 'e', 'r', 'i', 'k', 'v', '/', 's', 'e', 'e', 'd']

def commitDomain : Bytes :=
  ascii ['v', 'e', 'r', 'i', 'k', 'v', '/', 'c', 'o', 'm', 'm', 'i', 't']

/-- The common start of the label proof's domains. -/
def proofDomain : Bytes := ascii ['v', 'e', 'r', 'i', 'k', 'v', '/', 'v', 'r', 'f', '/']

def scalarDomain : Bytes := proofDomain ++ ascii ['s', 'c', 'a', 'l', 'a', 'r']

def keyPointDomain : Bytes := proofDomain ++ ascii ['h', '2', 'g']

def nonceDomain : Bytes := proofDomain ++ ascii ['n', 'o', 'n', 'c', 'e']

def challengeDomain : Bytes :=
  proofDomain ++ ascii ['c', 'h', 'a', 'l', 'l', 'e', 'n', 'g', 'e']

/-- The hashed bytes. A payload is preceded by its length in eight bytes. -/
def encode : Preimage → Bytes
  | plainLabel secret key => labelDomain ++ (secret.bytes ++ key)
  | provedLabel gamma => labelDomain ++ gamma.bytes
  | secretSeed seed => seedDomain ++ seed.bytes
  | scalar half seed => scalarDomain ++ half.byte :: seed.bytes
  | keyPoint half pk key => keyPointDomain ++ half.byte :: (pk.bytes ++ key)
  | nonce half x h => nonceDomain ++ half.byte :: (x.bytes ++ h.bytes)
  | challenge pk h gamma u v =>
    challengeDomain ++ (pk.bytes ++ (h.bytes ++ (gamma.bytes ++ (u.bytes ++ v.bytes))))
  | commitment r payload => commitDomain ++ (r.bytes ++ (leBytes 8 payload.length ++ payload))
  | leaf label c => 0 :: (label.bytes ++ c.bytes)
  | node l r => 1 :: (l.bytes ++ r.bytes)

def digest (p : Preimage) : Digest := keccak256 p.encode

end Preimage

/-- The digest of a trie without leaves. -/
def emptyDigest : Digest := Block.zero 32

end AuthDict
