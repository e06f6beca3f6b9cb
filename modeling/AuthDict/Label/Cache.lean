import AuthDict.Label.Secret

/-!
# The label cache

Derived labels of the keys asked last, the most recent first, at most `capacity` of them. A cache
of capacity zero stays empty.
-/
namespace AuthDict

structure LabelCache where
  capacity : Nat
  entries : List (Bytes × DerivedLabel)
deriving DecidableEq, Repr

namespace LabelCache

/-- The bytes that room is made for when a cache is made. Its table has a power of two of slots, of
which at most seven eighths are filled, and takes seventeen bytes for each. -/
def tableSize (capacity : Nat) : Nat :=
  if capacity = 0 then 0 else 17 * Nat.nextPowerOfTwo (capacity * 8 / 7)

def empty (capacity : Nat) : LabelCache := ⟨capacity, []⟩

def size (c : LabelCache) : Nat := c.entries.length

def find? (c : LabelCache) (key : Bytes) : Option DerivedLabel :=
  (c.entries.find? fun e => e.1 == key).map (·.2)

/-- Puts a key in front and drops what the capacity does not hold. -/
def touch (c : LabelCache) (key : Bytes) (d : DerivedLabel) : LabelCache :=
  { c with entries := ((key, d) :: c.entries.filter fun e => e.1 != key).take c.capacity }

def derive {G : Type} [ProofGroup G] (c : LabelCache) (secret : LabelSecret G) (key : Bytes) :
    DerivedLabel × LabelCache :=
  let d := (c.find? key).getD (secret.derive key)
  (d, c.touch key d)

end LabelCache

end AuthDict
