import AuthDict.Trie.LabelBits

/-!
# Lookup paths

The answer of a trie for one label, which is also its proof. The walk from the root towards the
label stops at a subtree that holds at most one leaf, the `terminal`; `siblings` holds the digests
of the subtrees beside the walk, from the root downwards. A path proves membership if the terminal
leaf is the label's own, and absence if there is none or it is another label's.
-/
namespace AuthDict

abbrev Epoch := UInt64

structure LookupPath where
  label : Label
  /-- The commitment of the label, if it is present. -/
  leaf : Option Commitment
  terminal : Option (Label × Commitment)
  siblings : List Digest
  /-- Epoch and root of the trie that answered. -/
  epoch : Epoch
  root : Digest
deriving DecidableEq, Repr

namespace LookupPath

def empty (label : Label) : LookupPath := ⟨label, none, none, [], 0, emptyDigest⟩

def isMember (path : LookupPath) : Bool := path.leaf.isSome

/-- The digest of the subtree at `depth` on the way to `label`, from the siblings below it and the
digest where the walk stopped. -/
def climb (label : Label) (start : Digest) : Nat → List Digest → Digest
  | _, [] => start
  | depth, sibling :: rest =>
    let below := climb label start (depth + 1) rest
    if label.bit depth then (Preimage.node sibling below).digest
    else (Preimage.node below sibling).digest

/-- The digest where the walk stopped. There is none if leaf and terminal contradict each other or
the terminal does not lie on the walk. -/
def start? (path : LookupPath) : Option Digest :=
  match path.terminal with
  | none => if path.leaf.isSome then none else some emptyDigest
  | some (label, commitment) =>
    if label = path.label ∧ path.leaf ≠ some commitment ∨
        label ≠ path.label ∧ path.leaf.isSome then none
    else if (List.range path.siblings.length).any fun d => label.bit d != path.label.bit d then none
    else some (Preimage.leaf label commitment).digest

/-- Checks a path against a root. The epoch and the root named in the path play no part. -/
def verify (root : Digest) (path : LookupPath) : Bool :=
  if 256 < path.siblings.length then false else
  match path.start? with
  | none => false
  | some start => climb path.label start 0 path.siblings == root

end LookupPath

end AuthDict
