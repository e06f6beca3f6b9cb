import AuthDict.Proofs.OrderedMap
import AuthDict.Proofs.Trie.LabelBits
import AuthDict.Trie.Basic

/-!
# The digest from scratch

The reference for the digests of a trie: a recursion over the list of leaves, which splits it at
the bit of each depth until one leaf is left. It looks at nothing that the trie keeps. The digest
that the trie computes for a subtree is the reference of the leaves in it, as long as the kept
digests below it are.
-/
namespace AuthDict

/-- The digest of leaves that share their bits down to `levels` above the bottom. -/
def leavesDigest : Nat → List (Label × Commitment) → Digest
  | _, [] => emptyDigest
  | _, [(label, commitment)] => (Preimage.leaf label commitment).digest
  | 0, _ => emptyDigest
  | levels + 1, es =>
    let depth := 255 - levels
    (Preimage.node (leavesDigest levels (es.filter fun e => !e.1.bit depth))
      (leavesDigest levels (es.filter fun e => e.1.bit depth))).digest

@[simp] theorem leavesDigest_nil (levels : Nat) : leavesDigest levels [] = emptyDigest := by
  cases levels <;> rfl

@[simp] theorem leavesDigest_singleton (levels : Nat) (e : Label × Commitment) :
    leavesDigest levels [e] = (Preimage.leaf e.1 e.2).digest := by
  cases levels <;> rfl

namespace Trie

/-- The leaves of the subtree on the way to a label, in order. -/
def under (leaves : OrderedMap Label Commitment) (label : Label) (depth : Nat) :
    List (Label × Commitment) :=
  leaves.entries.filter fun e => e.1.floor depth = label.floor depth

/-- The reference for the digest of the subtree on the way to a label. -/
def reference (leaves : OrderedMap Label Commitment) (label : Label) (depth : Nat) : Digest :=
  leavesDigest (256 - depth) (under leaves label depth)

variable {leaves : OrderedMap Label Commitment} {nodes : OrderedMap NodeKey Digest}
  {label other : Label} {depth : Nat}

theorem mem_under {e : Label × Commitment} :
    e ∈ under leaves label depth ↔ e ∈ leaves.entries ∧ e.1.floor depth = label.floor depth := by
  simp [under]

theorem under_congr (h : label.floor depth = other.floor depth) :
    under leaves label depth = under leaves other depth := by
  simp only [under, h]

@[simp] theorem under_floor : under leaves (label.floor depth) depth = under leaves label depth :=
  under_congr (label.floor_floor depth)

theorem under_zero : under leaves label 0 = leaves.entries := by
  simp [under, Label.floor_zero]

/-- The subtree one level down holds the leaves with the same next bit. -/
theorem under_succ (hd : depth < 256) :
    under leaves label (depth + 1) =
      (under leaves label depth).filter fun e => e.1.bit depth = label.bit depth := by
  simp only [under, List.filter_filter, Label.floor_succ_eq_iff hd, Bool.decide_and, Bool.and_comm]

theorem length_under_le {shorter : Nat} (h : shorter ≤ depth) :
    (under leaves label depth).length ≤ (under leaves label shorter).length := by
  refine (List.monotone_filter_right _ ?_).length_le
  intro e he
  simp only [decide_eq_true_eq] at he ⊢
  exact Label.floor_eq_of_le h he

theorem length_under_bottom (leaves : OrderedMap Label Commitment) (label : Label)
    (h : 256 ≤ depth) : (under leaves label depth).length ≤ 1 := by
  have hnodup : (under leaves label depth).map (·.1) |>.Nodup :=
    leaves.nodup_keys.sublist (List.filter_sublist.map _)
  have hall : ∀ l ∈ (under leaves label depth).map (·.1), l = label := by
    intro l hl
    obtain ⟨e, he, rfl⟩ := List.mem_map.1 hl
    have hfloor := (mem_under.1 he).2
    rwa [Label.floor_of_le _ h, Label.floor_of_le _ h] at hfloor
  rw [← List.length_map (·.1)]
  rw [List.eq_replicate_of_mem hall] at hnodup ⊢
  simpa [List.nodup_replicate] using hnodup

theorem lt_of_two_le (h : 2 ≤ (under leaves label depth).length) : depth < 256 := by
  by_contra hd
  have hle := length_under_bottom leaves label (Nat.not_lt.1 hd)
  omega

/-- What the trie sees of a subtree. -/
theorem subtree_eq (leaves : OrderedMap Label Commitment) (label : Label) (depth : Nat) :
    subtree leaves label depth = match under leaves label depth with
      | [] => .empty
      | [(l, c)] => .leaf l c
      | _ => .branch := by
  have hrange : leaves.firstWithin 2 (label.floor depth) (label.ceil depth) =
      (under leaves label depth).take 2 := by
    rw [OrderedMap.firstWithin_eq_filter, under]
    congr 2
    funext e
    rw [Bool.eq_iff_iff, Bool.and_eq_true, bne_iff_ne, bne_iff_ne, decide_eq_true_iff]
    exact Label.within_iff label e.1 depth
  rw [subtree, hrange]
  match under leaves label depth with
  | [] => rfl
  | [e] => rfl
  | e :: f :: rest => rfl

theorem subtree_eq_branch :
    subtree leaves label depth = .branch ↔ 2 ≤ (under leaves label depth).length := by
  rw [subtree_eq]
  match under leaves label depth with
  | [] => simp
  | [e] => simp
  | e :: f :: rest => simp

/-- The kept digests from a depth downwards are those of the reference. -/
def SoundFrom (leaves : OrderedMap Label Commitment) (nodes : OrderedMap NodeKey Digest)
    (depth : Nat) : Prop :=
  ∀ label deeper digest, depth ≤ deeper → nodes.get? (.of label deeper) = some digest →
    digest = reference leaves label deeper

theorem SoundFrom.mono {deeper : Nat} (h : SoundFrom leaves nodes depth) (hle : depth ≤ deeper) :
    SoundFrom leaves nodes deeper := by
  intro label below digest hbelow
  exact h label below digest (Nat.le_trans hle hbelow)

/-- The reference of a subtree with two or more leaves, from those of its halves. -/
theorem reference_branch (hd : depth < 256) (h : 2 ≤ (under leaves label depth).length)
    {left right : Label} (hleft : left.floor depth = label.floor depth)
    (hleftBit : left.bit depth = false) (hright : right.floor depth = label.floor depth)
    (hrightBit : right.bit depth = true) :
    reference leaves label depth = (Preimage.node (reference leaves left (depth + 1))
      (reference leaves right (depth + 1))).digest := by
  have hlevels : 256 - depth = 256 - (depth + 1) + 1 := by omega
  have hdepth : 255 - (256 - (depth + 1)) = depth := by omega
  unfold reference
  rw [under_succ hd, under_succ hd, under_congr hleft, under_congr hright, hleftBit, hrightBit, hlevels]
  match under leaves label depth, h with
  | e :: f :: rest, _ =>
    simp only [leavesDigest, hdepth]
    simp

/-- With sound digests below it, the digest of a subtree is that of the reference. -/
theorem digestAbove_eq {levels : Nat} (hlevels : levels ≤ 256)
    (hsound : SoundFrom leaves nodes (256 - levels)) (label : Label) :
    digestAbove leaves nodes levels label = reference leaves label (256 - levels) := by
  induction levels generalizing label with
  | zero =>
    have hle := length_under_bottom leaves label (Nat.le_refl 256)
    rw [digestAbove, subtree_eq, reference]
    match under leaves label 256, hle with
    | [], _ => rfl
    | [e], _ => rfl
  | succ levels ih =>
    have hdepth : 256 - (levels + 1) = 255 - levels := by omega
    have hnext : 256 - levels = 255 - levels + 1 := by omega
    have hd : 255 - levels < 256 := by omega
    rw [hdepth] at hsound ⊢
    have hbelow := ih (by omega) (hsound.mono (by omega))
    rw [digestAbove]
    match hunder : under leaves label (255 - levels) with
    | [] => simp [subtree_eq, reference, hunder]
    | [e] => simp [subtree_eq, reference, hunder]
    | e :: f :: rest =>
      simp only [subtree_eq, hunder]
      split
      · next digest hget => exact hsound label _ digest (Nat.le_refl _) hget
      · have hbranch : 2 ≤ (under leaves label (255 - levels)).length := by simp [hunder]
        rw [hbelow, hbelow, hnext, reference_branch hd hbranch (label.floor_clear _)
          (label.bit_clear _)]
        · simp
        · simp [Label.bit_flip _ hd]

theorem subtreeDigest_eq (hd : depth ≤ 256) (hsound : SoundFrom leaves nodes depth)
    (label : Label) : subtreeDigest leaves nodes label depth = reference leaves label depth := by
  have hdepth : 256 - (256 - depth) = depth := by omega
  have h := @digestAbove_eq leaves nodes (256 - depth) (by omega) (by rwa [hdepth]) label
  rwa [hdepth] at h

end Trie

end AuthDict
