import AuthDict.Dictionary.Build

/-!
# Entropy

Random blocks drawn one after the other from a seed, each the hash of the seed and of its number.
-/
namespace AuthDict

structure Entropy where
  seed : Seed
  drawn : Nat := 0

namespace Entropy

def block (e : Entropy) (n : Nat) : Block 32 := keccak256 (e.seed.bytes ++ leBytes 8 n)

def next (e : Entropy) : Block 32 × Entropy := (e.block e.drawn, { e with drawn := e.drawn + 1 })

def half (b : Block 32) : Block 16 := ⟨b.bytes.take 16, by simp [b.length_eq]⟩

/-- What a new dictionary draws. -/
def draws (e : Entropy) : Draws × Entropy :=
  ({ labelSeed := e.block e.drawn
     secret := e.block (e.drawn + 1)
     id := half (e.block (e.drawn + 2)) },
   { e with drawn := e.drawn + 3 })

def pick (e : Entropy) : UInt8 × Entropy :=
  let (b, e) := e.next
  (b.bytes.headD 0, e)

/-- The entries of some keys and payloads, each with randomness of its own. -/
def entries (e : Entropy) : List (Bytes × Bytes) → List Entry × Entropy
  | [] => ([], e)
  | (key, payload) :: rest =>
    let (randomness, e) := e.next
    let (es, e) := e.entries rest
    (⟨key, payload, randomness⟩ :: es, e)

end Entropy

end AuthDict
