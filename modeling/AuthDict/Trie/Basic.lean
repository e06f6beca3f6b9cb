import AuthDict.OrderedMap
import AuthDict.Trie.Path

/-!
# The authenticated trie

A sparse Merkle tree over labels. A subtree without leaves has the empty digest, one with a single
leaf has the digest of that leaf wherever it stands, and one with more has the digest of its two
halves, which the bit at its depth tells apart.

A subtree is named by its depth and the least label in it. The digests of the subtrees with two or
more leaves are kept, and a batch of updates recomputes only those on the paths of its labels.
-/
namespace AuthDict

/-- One label with its new commitment. -/
structure Update where
  label : Label
  commitment : Commitment
deriving DecidableEq, Repr

/-- The name of a subtree. -/
structure NodeKey where
  depth : Nat
  floor : Label
deriving DecidableEq, Repr

namespace NodeKey

instance : Ord NodeKey where
  compare := compareLex (compareOn depth) (compareOn floor)

instance : Std.TransOrd NodeKey :=
  inferInstanceAs (Std.TransCmp (compareLex (compareOn depth) (compareOn floor)))

instance : Std.LawfulEqOrd NodeKey where
  compare_self := Std.ReflOrd.compare_self
  eq_of_compare {a b} h := by
    have h' : (compare a.depth b.depth).then (compare a.floor b.floor) = .eq := h
    rw [Ordering.then_eq_eq] at h'
    cases a; cases b
    simp_all

end NodeKey

/-- The subtree at a depth on the way to a label. -/
def NodeKey.of (label : Label) (depth : Nat) : NodeKey := ⟨depth, label.floor depth⟩

/-- How many leaves a subtree has, as far as its digest tells them apart. -/
inductive Subtree where
  | empty
  | leaf (label : Label) (commitment : Commitment)
  | branch
deriving DecidableEq, Repr

/-- The evidence that an update was applied at an epoch. -/
structure AppendProof where
  update : Update
  epoch : Epoch
  path : LookupPath
deriving DecidableEq, Repr

structure Trie where
  epoch : Epoch := 0
  root : Digest := emptyDigest
  leaves : OrderedMap Label Commitment := ∅
  /-- The digests of the subtrees with two or more leaves. -/
  nodes : OrderedMap NodeKey Digest := ∅
deriving DecidableEq

namespace Trie

instance : Inhabited Trie := ⟨{}⟩

def size (t : Trie) : Nat := t.leaves.size

def isEmpty (t : Trie) : Bool := t.leaves.isEmpty

def get? (t : Trie) (label : Label) : Option Commitment := t.leaves.get? label

/-- The subtree that shares the first `depth` bits of `label`. -/
def subtree (leaves : OrderedMap Label Commitment) (label : Label) (depth : Nat) : Subtree :=
  match leaves.firstWithin 2 (label.floor depth) (label.ceil depth) with
  | [] => .empty
  | [(l, c)] => .leaf l c
  | _ => .branch

/-- The digest of the subtree `levels` above the bottom on the way to `label`. A kept digest is
used where there is one. -/
def digestAbove (leaves : OrderedMap Label Commitment) (nodes : OrderedMap NodeKey Digest) :
    Nat → Label → Digest
  | 0, label =>
    match subtree leaves label 256 with
    | .leaf l c => (Preimage.leaf l c).digest
    | _ => emptyDigest
  | levels + 1, label =>
    let depth := 255 - levels
    match subtree leaves label depth with
    | .empty => emptyDigest
    | .leaf l c => (Preimage.leaf l c).digest
    | .branch =>
      match nodes.get? (.of label depth) with
      | some digest => digest
      | none =>
        let left := label.clear depth
        (Preimage.node (digestAbove leaves nodes levels left)
          (digestAbove leaves nodes levels (left.flip depth))).digest

def subtreeDigest (leaves : OrderedMap Label Commitment) (nodes : OrderedMap NodeKey Digest)
    (label : Label) (depth : Nat) : Digest :=
  digestAbove leaves nodes (256 - depth) label

/-- The subtrees with two or more leaves on the way to a label, from `levels` above the bottom
downwards. -/
def branchesAbove (leaves : OrderedMap Label Commitment) (label : Label) : Nat → List NodeKey
  | 0 => []
  | levels + 1 =>
    match subtree leaves label (255 - levels) with
    | .branch => .of label (255 - levels) :: branchesAbove leaves label levels
    | _ => []

/-- The digest of a subtree from those of its halves. -/
def halvesDigest (leaves : OrderedMap Label Commitment) (nodes : OrderedMap NodeKey Digest)
    (key : NodeKey) : Digest :=
  (Preimage.node (subtreeDigest leaves nodes key.floor (key.depth + 1))
    (subtreeDigest leaves nodes (key.floor.flip key.depth) (key.depth + 1))).digest

/-- The subtrees with two or more leaves on the way to some of the labels. -/
def dirtyKeys (leaves : OrderedMap Label Commitment) (labels : List Label) :
    OrderedMap NodeKey Unit :=
  labels.foldl
    (fun keys label => (branchesAbove leaves label 256).foldl (fun ks k => ks.insert k ()) keys) ∅

/-- Recomputes the kept digests on the paths of the labels, deepest first, and then the root. -/
def rehash (t : Trie) (labels : List Label) : Trie :=
  let nodes := (dirtyKeys t.leaves labels).keys.reverse.foldl
    (fun nodes key => nodes.insert key (halvesDigest t.leaves nodes key)) t.nodes
  { t with nodes := nodes, root := subtreeDigest t.leaves nodes (Block.zero 32) 0 }

/-- The trie of given leaves, of which the last of a label counts. -/
def ofLeaves (epoch : Epoch) (leaves : List (Label × Commitment)) : Trie :=
  let leaves := OrderedMap.ofList leaves
  rehash { epoch, leaves } leaves.keys

/-- The siblings and the terminal leaf of the walk to a label, from `levels` above the bottom
downwards. -/
def walk (t : Trie) (label : Label) : Nat → List Digest × Option (Label × Commitment)
  | 0 =>
    match subtree t.leaves label 256 with
    | .leaf l c => ([], some (l, c))
    | _ => ([], none)
  | levels + 1 =>
    let depth := 255 - levels
    match subtree t.leaves label depth with
    | .empty => ([], none)
    | .leaf l c => ([], some (l, c))
    | .branch =>
      let (siblings, terminal) := walk t label levels
      (subtreeDigest t.leaves t.nodes (label.flip depth) (depth + 1) :: siblings, terminal)

def lookup (t : Trie) (label : Label) : LookupPath :=
  let (siblings, terminal) := t.walk label 256
  { label
    leaf := (terminal.filter fun e => e.1 = label).map (·.2)
    terminal
    siblings
    epoch := t.epoch
    root := t.root }

/-- Applies a batch as one epoch, with a proof of each update. An empty batch changes nothing. -/
def applyBatch (t : Trie) (updates : List Update) : Trie × List AppendProof :=
  if updates.isEmpty then (t, []) else
  let leaves := updates.foldl (fun m u => m.insert u.label u.commitment) t.leaves
  let next := rehash { t with leaves, epoch := t.epoch + 1 } (updates.map (·.label))
  (next, updates.map fun u => ⟨u, next.epoch, next.lookup u.label⟩)

end Trie

end AuthDict
