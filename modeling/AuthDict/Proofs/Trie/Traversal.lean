import AuthDict.Proofs.Trie.Access
import AuthDict.Proofs.Trie.Rehash

/-!
# Walks end within the label

A walk goes down from the root as long as it meets a subtree with two or more leaves. Here nothing
but what it meets stops a walk: its depth is not bounded, and access to labels is checked. It is
given a number of rounds to go on for, and it has a result only if it ends by then, reads no bit
past the end of a label and asks for no range or key that there is not. With more rounds than levels
below its start each walk has a result, and it is that of the walk which counts the levels that are
left. What bounds them is that the leaves of a subtree at depth 256 have the same label, so that
there is one at most; the kept digests play no part in it, whatever they are.
-/
namespace AuthDict

namespace Checked

def subtree (leaves : OrderedMap Label Commitment) (label : Label) (depth : Nat) :
    Checked Subtree := do
  let (lo, hi) ← range label depth
  return match leaves.firstWithin 2 lo hi with
    | [] => .empty
    | [(l, c)] => .leaf l c
    | _ => .branch

/-- The digest of a subtree, from a kept digest or from the digests of its halves. -/
def digest (leaves : OrderedMap Label Commitment) (nodes : OrderedMap NodeKey Digest) :
    (rounds : Nat) → (label : Label) → (depth : Nat) → Checked Digest
  | 0, _, _ => none
  | rounds + 1, label, depth => do
    match ← subtree leaves label depth with
    | .empty => return emptyDigest
    | .leaf l c => return (Preimage.leaf l c).digest
    | .branch =>
      match nodes.get? (← key label depth) with
      | some kept => return kept
      | none =>
        let left ← digest leaves nodes rounds (← clear label depth) (depth + 1)
        let right ← digest leaves nodes rounds (← flip (← clear label depth) depth) (depth + 1)
        return (Preimage.node left right).digest

/-- The walk to a label from a depth on, after the siblings above. -/
def walk (t : Trie) (label : Label) :
    (rounds : Nat) → (depth : Nat) → (siblings : List Digest) →
      Checked (List Digest × Option (Label × Commitment))
  | 0, _, _ => none
  | rounds + 1, depth, siblings => do
    match ← subtree t.leaves label depth with
    | .empty => return (siblings, none)
    | .leaf l c => return (siblings, some (l, c))
    | .branch =>
      let sibling ← digest t.leaves t.nodes rounds (← flip label depth) (depth + 1)
      walk t label rounds (depth + 1) (siblings ++ [sibling])

def lookup (t : Trie) (rounds : Nat) (label : Label) : Checked LookupPath := do
  let (siblings, terminal) ← walk t label rounds 0 []
  return {
    label
    leaf := (terminal.filter fun e => e.1 = label).map (·.2)
    terminal
    siblings
    epoch := t.epoch
    root := t.root }

/-- Adds the subtrees with two or more leaves on the way to a label, from a depth on. -/
def branches (leaves : OrderedMap Label Commitment) (label : Label) :
    (rounds : Nat) → (depth : Nat) → (dirty : OrderedMap NodeKey Unit) →
      Checked (OrderedMap NodeKey Unit)
  | 0, _, _ => none
  | rounds + 1, depth, dirty => do
    match ← subtree leaves label depth with
    | .branch =>
      branches leaves label rounds (depth + 1) (dirty.insert (← key label depth) ())
    | _ => return dirty

/-- Computes and keeps the digest of a subtree. -/
def recompute (leaves : OrderedMap Label Commitment) (rounds : Nat)
    (nodes : OrderedMap NodeKey Digest) (dirty : NodeKey) :
    Checked (OrderedMap NodeKey Digest) := do
  let left ← digest leaves nodes rounds dirty.floor (dirty.depth + 1)
  let right ← digest leaves nodes rounds (← flip dirty.floor dirty.depth) (dirty.depth + 1)
  return nodes.insert (← key dirty.floor dirty.depth) (Preimage.node left right).digest

def rehash (t : Trie) (rounds : Nat) (labels : List Label) : Checked Trie := do
  let dirty ← labels.foldlM (fun dirty label => branches t.leaves label rounds 0 dirty) ∅
  let nodes ← dirty.keys.reverse.foldlM (recompute t.leaves rounds) t.nodes
  return { t with nodes, root := ← digest t.leaves nodes rounds (Block.zero 32) 0 }

def climb (label : Label) (start : Digest) : Nat → List Digest → Checked Digest
  | _, [] => return start
  | depth, sibling :: rest => do
    let below ← climb label start (depth + 1) rest
    if ← bit label depth then return (Preimage.node sibling below).digest
    else return (Preimage.node below sibling).digest

/-- Whether labels differ in one of the first `depth` bits. -/
def differ (a b : Label) (depth : Nat) : Checked Bool :=
  (List.range depth).anyM fun d => do return (← bit a d) != (← bit b d)

/-- The digest where the walk stopped, if the path does not contradict itself. -/
def start (path : LookupPath) : Checked (Option Digest) := do
  match path.terminal with
  | none => return if path.leaf.isSome then none else some emptyDigest
  | some (label, commitment) =>
    if label = path.label ∧ path.leaf ≠ some commitment ∨
        label ≠ path.label ∧ path.leaf.isSome then return none
    else if ← differ label path.label path.siblings.length then return none
    else return some (Preimage.leaf label commitment).digest

def verify (root : Digest) (path : LookupPath) : Checked Bool := do
  if 256 < path.siblings.length then return false else
  match ← start path with
  | none => return false
  | some start => return (← climb path.label start 0 path.siblings) == root

variable {leaves : OrderedMap Label Commitment} {nodes : OrderedMap NodeKey Digest} {t : Trie}
  {label : Label} {depth levels rounds : Nat}

theorem subtree_eq (hd : depth ≤ 256) :
    subtree leaves label depth = some (Trie.subtree leaves label depth) := by
  rw [subtree, range_eq hd]
  rfl

theorem le_of_branch (h : Trie.subtree leaves label depth = .branch) : depth ≤ 255 :=
  Nat.le_of_lt_succ (Trie.lt_of_two_le (Trie.subtree_eq_branch.1 h))

/-- Below all bits of a label there is one leaf at most. -/
theorem bottom_ne_branch : Trie.subtree leaves label 256 ≠ .branch := by
  intro h
  exact absurd (le_of_branch h) (by decide)

theorem digest_branch (h : Trie.subtree leaves label depth = .branch) :
    digest leaves nodes (rounds + 1) label depth =
      match nodes.get? (.of label depth) with
      | some kept => some kept
      | none => do
        let left ← digest leaves nodes rounds (label.clear depth) (depth + 1)
        let right ← digest leaves nodes rounds ((label.clear depth).flip depth) (depth + 1)
        return (Preimage.node left right).digest := by
  have hd := le_of_branch h
  rw [digest, subtree_eq (by omega)]
  simp only [h, key_eq (show depth ≤ 256 by omega), clear_eq hd, flip_eq hd, Option.bind_eq_bind,
    Option.bind_some]
  rfl

theorem walk_branch {siblings : List Digest} (h : Trie.subtree t.leaves label depth = .branch) :
    walk t label (rounds + 1) depth siblings =
      (digest t.leaves t.nodes rounds (label.flip depth) (depth + 1)).bind
        fun sibling => walk t label rounds (depth + 1) (siblings ++ [sibling]) := by
  have hd := le_of_branch h
  rw [walk, subtree_eq (by omega)]
  simp only [h, flip_eq hd, Option.bind_eq_bind, Option.bind_some]

theorem branches_branch {dirty : OrderedMap NodeKey Unit}
    (h : Trie.subtree leaves label depth = .branch) :
    branches leaves label (rounds + 1) depth dirty =
      branches leaves label rounds (depth + 1) (dirty.insert (.of label depth) ()) := by
  have hd := le_of_branch h
  rw [branches, subtree_eq (by omega)]
  simp only [h, key_eq (show depth ≤ 256 by omega), Option.bind_eq_bind, Option.bind_some]

/-- Induction on the levels that are left, for all labels, as the halves are on the way to others,
and for all rounds, of which each level takes one. -/
theorem digest_eq_digestAbove (hlevels : levels ≤ 256) (hrounds : levels < rounds) :
    digest leaves nodes rounds label (256 - levels) =
      some (Trie.digestAbove leaves nodes levels label) := by
  obtain ⟨rounds, rfl⟩ := Nat.exists_eq_add_one_of_ne_zero (Nat.ne_zero_of_lt hrounds)
  induction levels generalizing label rounds with
  | zero =>
    have hbottom := @bottom_ne_branch leaves label
    rw [Nat.sub_zero, digest, subtree_eq (Nat.le_refl 256), Trie.digestAbove]
    cases hsubtree : Trie.subtree leaves label 256 with
    | empty | leaf => rfl
    | branch => exact absurd hsubtree hbottom
  | succ levels ih =>
    obtain ⟨rounds, rfl⟩ := Nat.exists_eq_add_one_of_ne_zero (show rounds ≠ 0 by omega)
    have hdepth : 256 - (levels + 1) = 255 - levels := by omega
    have hnext : 255 - levels + 1 = 256 - levels := by omega
    have hbelow (other : Label) := @ih other (by omega) rounds (by omega)
    rw [hdepth, Trie.digestAbove]
    cases hsubtree : Trie.subtree leaves label (255 - levels) with
    | empty | leaf =>
      rw [digest, subtree_eq (by omega), hsubtree]
      rfl
    | branch =>
      rw [digest_branch hsubtree, hnext, hbelow, hbelow]
      cases nodes.get? (.of label (255 - levels)) with
      | some kept => rfl
      | none => rfl

theorem digest_eq (hd : depth ≤ 256) (hrounds : 256 - depth < rounds) :
    digest leaves nodes rounds label depth =
      some (Trie.subtreeDigest leaves nodes label depth) := by
  have hdepth : 256 - (256 - depth) = depth := by omega
  have h := @digest_eq_digestAbove leaves nodes label (256 - depth) rounds (by omega) hrounds
  rwa [hdepth] at h

theorem walk_eq (hlevels : levels ≤ 256) (hrounds : levels < rounds) (siblings : List Digest) :
    walk t label rounds (256 - levels) siblings =
      some (siblings ++ (t.walk label levels).1, (t.walk label levels).2) := by
  obtain ⟨rounds, rfl⟩ := Nat.exists_eq_add_one_of_ne_zero (Nat.ne_zero_of_lt hrounds)
  induction levels generalizing rounds siblings with
  | zero =>
    have hbottom := @bottom_ne_branch t.leaves label
    rw [Nat.sub_zero, walk, subtree_eq (Nat.le_refl 256), Trie.walk]
    cases hsubtree : Trie.subtree t.leaves label 256 with
    | empty | leaf => simp
    | branch => exact absurd hsubtree hbottom
  | succ levels ih =>
    obtain ⟨rounds, rfl⟩ := Nat.exists_eq_add_one_of_ne_zero (show rounds ≠ 0 by omega)
    have hdepth : 256 - (levels + 1) = 255 - levels := by omega
    have hnext : 255 - levels + 1 = 256 - levels := by omega
    rw [hdepth, Trie.walk]
    cases hsubtree : Trie.subtree t.leaves label (255 - levels) with
    | empty | leaf =>
      rw [walk, subtree_eq (by omega), hsubtree]
      simp
    | branch =>
      rw [walk_branch hsubtree, digest_eq (by omega) (by omega), Option.bind_some, hnext,
        ih (by omega) _ rounds (by omega)]
      simp

theorem lookup_eq (hrounds : 256 < rounds) (t : Trie) (label : Label) :
    lookup t rounds label = some (t.lookup label) := by
  have hwalk := @walk_eq t label 256 rounds (Nat.le_refl 256) hrounds []
  rw [Nat.sub_self] at hwalk
  rw [lookup, hwalk]
  rfl

theorem branches_eq (hlevels : levels ≤ 256) (hrounds : levels < rounds)
    (dirty : OrderedMap NodeKey Unit) :
    branches leaves label rounds (256 - levels) dirty =
      some ((Trie.branchesAbove leaves label levels).foldl (fun ks k => ks.insert k ()) dirty) := by
  obtain ⟨rounds, rfl⟩ := Nat.exists_eq_add_one_of_ne_zero (Nat.ne_zero_of_lt hrounds)
  induction levels generalizing rounds dirty with
  | zero =>
    have hbottom := @bottom_ne_branch leaves label
    rw [Nat.sub_zero, branches, subtree_eq (Nat.le_refl 256), Trie.branchesAbove]
    cases hsubtree : Trie.subtree leaves label 256 with
    | empty | leaf => rfl
    | branch => exact absurd hsubtree hbottom
  | succ levels ih =>
    obtain ⟨rounds, rfl⟩ := Nat.exists_eq_add_one_of_ne_zero (show rounds ≠ 0 by omega)
    have hdepth : 256 - (levels + 1) = 255 - levels := by omega
    have hnext : 255 - levels + 1 = 256 - levels := by omega
    rw [hdepth, Trie.branchesAbove]
    cases hsubtree : Trie.subtree leaves label (255 - levels) with
    | empty | leaf =>
      rw [branches, subtree_eq (by omega), hsubtree]
      rfl
    | branch =>
      rw [branches_branch hsubtree, hnext, ih (by omega) _ rounds (by omega), List.foldl_cons]

/-- A fold has a result if each of its steps has one. -/
theorem foldlM_eq {α β : Type} {f : β → α → Checked β} {g : β → α → β} {xs : List α}
    (h : ∀ b, ∀ x ∈ xs, f b x = some (g b x)) (b : β) : xs.foldlM f b = some (xs.foldl g b) := by
  induction xs generalizing b with
  | nil => rfl
  | cons x xs ih =>
    obtain ⟨hfirst, hrest⟩ : f b x = some (g b x) ∧ ∀ b, ∀ y ∈ xs, f b y = some (g b y) :=
      ⟨h b x List.mem_cons_self, fun b y hy => h b y (List.mem_cons_of_mem x hy)⟩
    rw [List.foldlM_cons, hfirst, List.foldl_cons]
    exact ih hrest (g b x)

theorem recompute_eq (hrounds : 256 < rounds) {dirty : NodeKey}
    (h : Trie.IsBranch leaves dirty) :
    recompute leaves rounds nodes dirty =
      some (nodes.insert dirty (Trie.halvesDigest leaves nodes dirty)) := by
  have hd : dirty.depth ≤ 255 := Nat.le_of_lt_succ (Trie.lt_of_two_le h.two_le)
  have hkey : NodeKey.of dirty.floor dirty.depth = dirty := by
    rw [NodeKey.of, h.canonical]
  have hdigest (label : Label) := @digest_eq leaves nodes label (dirty.depth + 1) rounds
    (by omega) (by omega)
  simp only [recompute, hdigest, flip_eq hd, key_eq (show dirty.depth ≤ 256 by omega), hkey,
    Option.bind_eq_bind, Option.bind_some]
  rfl

theorem rehash_eq (hrounds : 256 < rounds) (t : Trie) (labels : List Label) :
    rehash t rounds labels = some (t.rehash labels) := by
  have hdirty : labels.foldlM (fun dirty label => branches t.leaves label rounds 0 dirty) ∅ =
      some (Trie.dirtyKeys t.leaves labels) := by
    refine foldlM_eq ?_ ∅
    intro dirty label _
    exact branches_eq (Nat.le_refl 256) hrounds dirty
  have hnodes : (Trie.dirtyKeys t.leaves labels).keys.reverse.foldlM
      (recompute t.leaves rounds) t.nodes =
      some ((Trie.dirtyKeys t.leaves labels).keys.reverse.foldl
        (fun nodes key => nodes.insert key (Trie.halvesDigest t.leaves nodes key)) t.nodes) := by
    refine foldlM_eq ?_ t.nodes
    intro nodes key hkey
    exact recompute_eq hrounds (Trie.mem_dirtyKeys.1 (List.mem_reverse.1 hkey)).1
  simp only [rehash, hdirty, hnodes, digest_eq (Nat.zero_le 256) hrounds, Option.bind_eq_bind,
    Option.bind_some]
  rfl

theorem anyM_eq {α : Type} {p : α → Checked Bool} {q : α → Bool} {xs : List α}
    (h : ∀ x ∈ xs, p x = some (q x)) : xs.anyM p = some (xs.any q) := by
  induction xs with
  | nil => rfl
  | cons x xs ih =>
    obtain ⟨hfirst, hrest⟩ := List.forall_mem_cons.1 h
    rw [List.anyM_cons, hfirst, List.any_cons]
    cases q x with
    | true => rfl
    | false => exact ih hrest

theorem differ_eq {a b : Label} (hd : depth ≤ 256) :
    differ a b depth = some ((List.range depth).any fun d => a.bit d != b.bit d) := by
  refine anyM_eq ?_
  intro d hmem
  have hlt : d ≤ 255 := by
    have hrange := List.mem_range.1 hmem
    omega
  simp only [bit_eq hlt, Option.bind_eq_bind, Option.bind_some]
  rfl

theorem climb_eq {start : Digest} {siblings : List Digest} (hd : depth + siblings.length ≤ 256) :
    climb label start depth siblings = some (LookupPath.climb label start depth siblings) := by
  induction siblings generalizing depth with
  | nil => rfl
  | cons sibling rest ih =>
    rw [List.length_cons] at hd
    have hbit : bit label depth = some (label.bit depth) := bit_eq (by omega)
    rw [climb, ih (by omega), LookupPath.climb]
    simp only [hbit, Option.bind_eq_bind, Option.bind_some]
    cases label.bit depth with
    | true => rfl
    | false => rfl

theorem start_eq {path : LookupPath} (h : path.siblings.length ≤ 256) :
    start path = some path.start? := by
  unfold start LookupPath.start?
  cases path.terminal with
  | none => rfl
  | some e =>
    obtain ⟨l, c⟩ := e
    simp only [differ_eq h, Option.bind_eq_bind, Option.bind_some]
    split
    · rfl
    · split
      · rfl
      · rfl

/-- A check of a path, whoever made the path, looks at no more bits than a label has. -/
theorem verify_eq (root : Digest) (path : LookupPath) :
    verify root path = some (path.verify root) := by
  unfold verify LookupPath.verify
  split
  · rfl
  · next hlength =>
    have hle : path.siblings.length ≤ 256 := Nat.not_lt.1 hlength
    have hclimb (start : Digest) := @climb_eq path.label 0 start path.siblings (by omega)
    rw [start_eq hle]
    cases path.start? with
    | none => rfl
    | some start =>
      simp only [hclimb, Option.bind_eq_bind, Option.bind_some]
      rfl

theorem length_walk_le (t : Trie) (label : Label) (levels : Nat) :
    (t.walk label levels).1.length ≤ levels := by
  induction levels with
  | zero =>
    rw [Trie.walk]
    cases Trie.subtree t.leaves label 256 <;> simp
  | succ levels ih =>
    rw [Trie.walk]
    cases Trie.subtree t.leaves label (255 - levels) with
    | empty | leaf => simp
    | branch => simpa using ih

theorem lt_of_isSome_key (h : (key label depth).isSome) : depth < 2 ^ 16 := by
  have hrange : (range label depth).isSome := by
    cases hresult : range label depth with
    | none => simp [key, hresult] at h
    | some bounds => rfl
  have hd := isSome_range.1 hrange
  omega

/-- Whatever leaves and kept digests a trie has, its walks end, after one round more than the levels
below their start at the latest, and they stay within the label: bits are read, turned over and
cleared at depths up to 255 only, ranges and keys are asked for at depths up to 256 only, and no
subtree with two or more leaves is met at depth 256. So no path has more than 256 siblings, and
checking a path, whoever made it, stays within the label too. -/
theorem walks_within_label (t : Trie) :
    (∀ label depth, ((bit label depth).isSome ↔ depth ≤ 255) ∧
        ((flip label depth).isSome ↔ depth ≤ 255) ∧ ((clear label depth).isSome ↔ depth ≤ 255) ∧
        ((range label depth).isSome ↔ depth ≤ 256) ∧
        ((key label depth).isSome → depth < 2 ^ 16)) ∧
      (∀ label, Trie.subtree t.leaves label 256 ≠ .branch) ∧
      (∀ label depth rounds, depth ≤ 256 → 256 - depth < rounds →
        digest t.leaves t.nodes rounds label depth =
          some (Trie.subtreeDigest t.leaves t.nodes label depth)) ∧
      (∀ label rounds, 256 < rounds → lookup t rounds label = some (t.lookup label)) ∧
      (∀ labels rounds, 256 < rounds → rehash t rounds labels = some (t.rehash labels)) ∧
      (∀ label, (t.lookup label).siblings.length ≤ 256) ∧
      ∀ root path, verify root path = some (path.verify root) := by
  refine ⟨?_, ?_, ?_, ?_, ?_, ?_, verify_eq⟩
  · intro label depth
    exact ⟨isSome_bit, isSome_flip, isSome_clear, isSome_range, lt_of_isSome_key⟩
  · intro label
    exact bottom_ne_branch
  · intro label depth rounds hd hrounds
    exact digest_eq hd hrounds
  · intro label rounds hrounds
    exact lookup_eq hrounds t label
  · intro labels rounds hrounds
    exact rehash_eq hrounds t labels
  · intro label
    exact length_walk_le t label 256

/-- Two labels that differ in the last bit only, and no kept digest. -/
def sampleNeighbours : Trie :=
  { leaves := .ofList
      [(Block.zero 32, Block.zero 32), (Label.flip (Block.zero 32) 255, Block.zero 32)] }

theorem walks_within_label_sampleNeighbours :
    256 < 257 ∧
      lookup sampleNeighbours 257 (Block.zero 32) =
        some (sampleNeighbours.lookup (Block.zero 32)) ∧
      (sampleNeighbours.lookup (Block.zero 32)).siblings.length = 256 ∧
      rehash sampleNeighbours 257 [Block.zero 32] =
        some (sampleNeighbours.rehash [Block.zero 32]) ∧
      digest sampleNeighbours.leaves sampleNeighbours.nodes 1 (Block.zero 32) 256 =
        some (Trie.subtreeDigest sampleNeighbours.leaves sampleNeighbours.nodes
          (Block.zero 32) 256) := by
  have hlength : (sampleNeighbours.lookup (Block.zero 32)).siblings.length = 256 := by
    decide +kernel
  obtain ⟨-, -, hdigest, hlookup, hrehash, -⟩ := walks_within_label sampleNeighbours
  exact ⟨by decide, hlookup _ 257 (by decide), hlength, hrehash _ 257 (by decide),
    hdigest _ 256 1 (Nat.le_refl 256) (by decide)⟩

end Checked

end AuthDict
