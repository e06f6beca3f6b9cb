import AuthDict.Keccak

/-!
# Groups for label proofs

What a label proof asks of a group: its operations, an encoding of elements and of scalars in 32
bytes, and a map from 64 uniform bytes to elements. Scalars are natural numbers below `order`.
-/
namespace AuthDict

/-- A group of order `order` whose elements have 32-byte encodings. -/
class ProofGroup (G : Type) where
  order : Nat
  identity : G
  generator : G
  add : G → G → G
  neg : G → G
  smul : Nat → G → G
  encode : G → Block 32
  decode? : Block 32 → Option G
  /-- The element that two uniform halves stand for. -/
  ofUniform : Digest → Digest → G

namespace ProofGroup

variable {G : Type} [ProofGroup G]

def sub (a b : G) : G := add a (neg b)

/-- Elements are told apart by their encodings. -/
def isIdentity (a : G) : Bool := encode a == encode (identity : G)

/-- The scalar that 64 uniform bytes stand for: their little-endian number modulo the order. -/
def scalarOfUniform (G : Type) [ProofGroup G] (lo hi : Digest) : Nat :=
  ofLE (lo.bytes ++ hi.bytes) % order G

end ProofGroup

end AuthDict
