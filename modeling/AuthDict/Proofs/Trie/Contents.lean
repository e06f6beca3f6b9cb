import AuthDict.Proofs.Trie.History
import AuthDict.Proofs.Trie.Binding

/-!
# The root is bound to the contents

A coherent trie is a function of its leaves, up to the epoch. In the other direction two tries are
compared from the root downwards. Where their digests of a subtree agree, what was hashed for it
agrees: nothing, one leaf, or the digests of its two halves. A single leaf is hashed as high up as
it stands alone, so a leaf of one trie may face a node or nothing in the other; that the inputs are
told apart rules this out.
-/
namespace AuthDict.Trie

open Binary LookupPath

/-- What is hashed for the subtree on the way to a label, unless it has no leaf. -/
def hashed? (leaves : OrderedMap Label Commitment) (label : Label) (depth : Nat) :
    Option Preimage :=
  match under leaves label depth with
  | [] => none
  | [(l, c)] => some (.leaf l c)
  | _ => some (.node (reference leaves (label.floor depth) (depth + 1))
      (reference leaves ((label.floor depth).flip depth) (depth + 1)))

/-- The node of a kept digest. -/
def nodeInput (t : Trie) (key : NodeKey) : Preimage :=
  .node (subtreeDigest t.leaves t.nodes key.floor (key.depth + 1))
    (subtreeDigest t.leaves t.nodes (key.floor.flip key.depth) (key.depth + 1))

/-- What is hashed in a trie: its leaves, and the node of each kept digest. -/
def inputs (t : Trie) : List Preimage :=
  (t.leaves.entries.map fun e => .leaf e.1 e.2) ++ t.nodes.keys.map t.nodeInput

variable {s t : Trie} {leaves : OrderedMap Label Commitment} {label : Label} {depth : Nat}

theorem reference_eq_hashed? (leaves : OrderedMap Label Commitment) (label : Label) (depth : Nat) :
    reference leaves label depth =
      ((hashed? leaves label depth).map Preimage.digest).getD emptyDigest := by
  unfold hashed?
  match hunder : under leaves label depth with
  | [] => simp [reference, hunder]
  | [e] => simp [reference, hunder]
  | e :: f :: rest =>
    have hbranch : 2 ≤ (under leaves label depth).length := by simp [hunder]
    have hlt := lt_of_two_le hbranch
    have hfloor : ((label.floor depth).flip depth).floor depth = label.floor depth := by simp
    have hbit : ((label.floor depth).flip depth).bit depth = true := by
      simp [Label.bit_flip _ hlt]
    rw [reference_branch hlt hbranch (label.floor_floor depth) (label.bit_floor depth) hfloor hbit]
    rfl

theorem Coherent.nodeInput_of (h : Coherent t) (hd : depth < 256) :
    t.nodeInput (.of label depth) =
      .node (reference t.leaves (label.floor depth) (depth + 1))
        (reference t.leaves ((label.floor depth).flip depth) (depth + 1)) := by
  have hsound : SoundFrom t.leaves t.nodes (depth + 1) :=
    soundFrom_of_keepsAt fun key _ => h.keeps key
  simp only [nodeInput, NodeKey.of, subtreeDigest_eq hd hsound]

/-- A trie has hashed what belongs to each of its subtrees. -/
theorem Coherent.hashed?_subset (h : Coherent t) {a : Preimage}
    (ha : hashed? t.leaves label depth = some a) : a ∈ t.inputs := by
  unfold hashed? at ha
  split at ha
  · contradiction
  · next l c hunder =>
    have hmem : (l, c) ∈ t.leaves.entries := (mem_under.1 (hunder ▸ List.mem_singleton_self _)).1
    cases ha
    exact List.mem_append_left _ (List.mem_map_of_mem hmem)
  · next hnil hsingle =>
    have hbranch : 2 ≤ (under t.leaves label depth).length := by
      match hunder : under t.leaves label depth with
      | [] => exact absurd hunder hnil
      | [(l, c)] => exact absurd hunder (hsingle l c)
      | e :: f :: rest => simp
    have hkey : NodeKey.of label depth ∈ t.nodes.keys :=
      OrderedMap.mem_keys.2 ⟨_, (h.keeps _ _).2 ⟨isBranch_of.2 hbranch, rfl⟩⟩
    cases ha
    rw [← h.nodeInput_of (lt_of_two_le hbranch)]
    exact List.mem_append_right _ (List.mem_map_of_mem hkey)

theorem hashed?_cases (leaves : OrderedMap Label Commitment) (label : Label) (depth : Nat) :
    (under leaves label depth = [] ∧ hashed? leaves label depth = none) ∨
      (∃ e, under leaves label depth = [e] ∧ hashed? leaves label depth = some (.leaf e.1 e.2)) ∨
        (depth < 256 ∧ hashed? leaves label depth =
          some (.node (reference leaves (label.floor depth) (depth + 1))
            (reference leaves ((label.floor depth).flip depth) (depth + 1)))) := by
  unfold hashed?
  match hunder : under leaves label depth with
  | [] => exact .inl ⟨rfl, rfl⟩
  | [e] => exact .inr (.inl ⟨e, rfl, rfl⟩)
  | e :: f :: rest =>
    have hbranch : 2 ≤ (under leaves label depth).length := by simp [hunder]
    have hlt := lt_of_two_le hbranch
    exact .inr (.inr ⟨hlt, rfl⟩)

/-- Among inputs that are told apart, equal digests come from equal inputs or from none. -/
theorem encode_eq_of_digest_eq {inputs : List Preimage} (hapart : Apart inputs)
    {a b : Option Preimage} (ha : ∀ p, a = some p → p ∈ inputs) (hb : ∀ p, b = some p → p ∈ inputs)
    (h : (a.map Preimage.digest).getD emptyDigest = (b.map Preimage.digest).getD emptyDigest) :
    a.map Preimage.encode = b.map Preimage.encode := by
  cases a with
  | none =>
    cases b with
    | none => rfl
    | some q => exact absurd h.symm (hapart.nonempty q (hb q rfl))
  | some p =>
    cases b with
    | none => exact absurd h (hapart.nonempty p (ha p rfl))
    | some q => exact congrArg some (hapart.hashes p (ha p rfl) q (hb q rfl) h)

/-- The leaves of a subtree are those of its halves. -/
theorem mem_under_iff_halves (hd : depth < 256) {e : Label × Commitment} :
    e ∈ under leaves label depth ↔
      e ∈ under leaves (label.floor depth) (depth + 1) ∨
        e ∈ under leaves ((label.floor depth).flip depth) (depth + 1) := by
  have hflip := (label.floor depth).bit_flip hd
  rw [label.bit_floor] at hflip
  simp only [mem_under, Label.floor_succ_eq_iff hd, Label.floor_floor, Label.floor_flip,
    Label.bit_floor, hflip]
  cases e.1.bit depth <;> simp

/-- Subtrees with the same digest have the same leaves, if that is so one level down. -/
theorem mem_under_iff_step (hs : Coherent s) (ht : Coherent t)
    (hapart : Apart (s.inputs ++ t.inputs))
    (hbelow : depth < 256 → ∀ other,
      reference s.leaves other (depth + 1) = reference t.leaves other (depth + 1) →
        ∀ e, e ∈ under s.leaves other (depth + 1) ↔ e ∈ under t.leaves other (depth + 1))
    (h : reference s.leaves label depth = reference t.leaves label depth)
    (e : Label × Commitment) :
    e ∈ under s.leaves label depth ↔ e ∈ under t.leaves label depth := by
  have hencode : (hashed? s.leaves label depth).map Preimage.encode =
      (hashed? t.leaves label depth).map Preimage.encode := by
    apply encode_eq_of_digest_eq hapart
    · intro a ha
      exact List.mem_append_left _ (hs.hashed?_subset ha)
    · intro a ha
      exact List.mem_append_right _ (ht.hashed?_subset ha)
    · rw [← reference_eq_hashed?, ← reference_eq_hashed?, h]
  rcases hashed?_cases s.leaves label depth with ⟨hunder, hs'⟩ | ⟨d, hunder, hs'⟩ | ⟨hlt, hs'⟩
  · rcases hashed?_cases t.leaves label depth with ⟨hunder', ht'⟩ | ⟨d', -, ht'⟩ | ⟨-, ht'⟩
    · rw [hunder, hunder']
    · simp [hs', ht'] at hencode
    · simp [hs', ht'] at hencode
  · rcases hashed?_cases t.leaves label depth with ⟨-, ht'⟩ | ⟨d', hunder', ht'⟩ | ⟨-, ht'⟩
    · simp [hs', ht'] at hencode
    · rw [hs', ht'] at hencode
      obtain ⟨hl, hc⟩ := Preimage.encode_leaf_inj (Option.some.inj hencode)
      rw [hunder, hunder', Prod.ext hl hc]
    · rw [hs', ht'] at hencode
      exact absurd (Option.some.inj hencode) (Preimage.encode_leaf_ne_node _ _ _ _)
  · rcases hashed?_cases t.leaves label depth with ⟨-, ht'⟩ | ⟨d', -, ht'⟩ | ⟨-, ht'⟩
    · simp [hs', ht'] at hencode
    · rw [hs', ht'] at hencode
      exact absurd (Option.some.inj hencode).symm (Preimage.encode_leaf_ne_node _ _ _ _)
    · rw [hs', ht'] at hencode
      obtain ⟨hleft, hright⟩ := Preimage.encode_node_inj (Option.some.inj hencode)
      rw [mem_under_iff_halves hlt, mem_under_iff_halves hlt, hbelow hlt _ hleft,
        hbelow hlt _ hright]

theorem mem_under_iff_of_reference_eq (hs : Coherent s) (ht : Coherent t)
    (hapart : Apart (s.inputs ++ t.inputs)) {levels : Nat} (hlevels : levels ≤ 256)
    (h : reference s.leaves label (256 - levels) = reference t.leaves label (256 - levels))
    (e : Label × Commitment) :
    e ∈ under s.leaves label (256 - levels) ↔ e ∈ under t.leaves label (256 - levels) := by
  -- For every label, because the two halves of a subtree are on the way to different ones.
  induction levels generalizing label e with
  | zero =>
    refine mem_under_iff_step hs ht hapart ?_ h e
    intro hlt
    omega
  | succ levels ih =>
    have hnext : 256 - (levels + 1) + 1 = 256 - levels := by omega
    refine mem_under_iff_step hs ht hapart ?_ h e
    intro _ other hother
    rw [hnext] at hother ⊢
    exact ih (by omega) hother

theorem Coherent.leaves_eq_of_root_eq (hs : Coherent s) (ht : Coherent t)
    (hapart : Apart (s.inputs ++ t.inputs)) (h : s.root = t.root) : s.leaves = t.leaves := by
  have hreference : reference s.leaves (Block.zero 32) 0 = reference t.leaves (Block.zero 32) 0 := by
    rw [reference, reference, under_zero, under_zero]
    exact hs.root.symm.trans (h.trans ht.root)
  have hmem := mem_under_iff_of_reference_eq hs ht hapart (Nat.le_refl 256) hreference
  apply OrderedMap.ext_get?
  intro label
  apply Option.ext
  intro c
  have hentry := hmem (label, c)
  rw [Nat.sub_self, under_zero, under_zero] at hentry
  rw [OrderedMap.get?_eq_some_iff, OrderedMap.get?_eq_some_iff, hentry]

theorem Coherent.withEpoch (h : Coherent t) (epoch : Epoch) : Coherent { t with epoch } := by
  constructor
  · exact h.keeps
  · exact h.root

theorem walk_withEpoch (t : Trie) (epoch : Epoch) (label : Label) (levels : Nat) :
    walk { t with epoch } label levels = t.walk label levels := by
  induction levels with
  | zero => rfl
  | succ levels ih => simp only [walk, ih]

theorem lookup_withEpoch (t : Trie) (epoch : Epoch) (label : Label) :
    lookup { t with epoch } label = { t.lookup label with epoch } := by
  simp only [lookup, walk_withEpoch]

namespace Obtained

variable {ws ws' : List (Label × Commitment)}

/-- Two tries, however they came about, have the same root if and only if they have the same leaves,
and then they agree in all but the epoch. Only the way from the root to the leaves rests on the hash
function. -/
theorem root_eq_iff_leaves_eq (hs : Obtained ws s) (ht : Obtained ws' t) :
    (Apart (s.inputs ++ t.inputs) → (s.root = t.root ↔ s.leaves = t.leaves)) ∧
      (s.leaves = t.leaves → s.root = t.root ∧ s.nodes = t.nodes ∧
        ∀ label, { s.lookup label with epoch := t.epoch } = t.lookup label) := by
  have hsame (h : s.leaves = t.leaves) : { s with epoch := t.epoch } = t :=
    (hs.coherent.withEpoch t.epoch).ext ht.coherent rfl h
  constructor
  · intro hapart
    constructor
    · exact hs.coherent.leaves_eq_of_root_eq ht.coherent hapart
    · intro h
      rw [← hsame h]
  · intro h
    refine ⟨?_, ?_, ?_⟩
    · rw [← hsame h]
    · rw [← hsame h]
    · intro label
      rw [← lookup_withEpoch, hsame h]

/-- A batch whose first update the second batch overwrites. -/
def sampleFirst : List Update :=
  [⟨Label.flip (Block.zero 32) 0, Block.zero 32⟩, ⟨Block.zero 32, Label.flip (Block.zero 32) 3⟩]

def sampleSecond : List Update := [⟨Label.flip (Block.zero 32) 0, Label.flip (Block.zero 32) 2⟩]

def sampleBatches : Trie :=
  ((({} : Trie).applyBatch sampleFirst).1.applyBatch sampleSecond).1

theorem root_eq_iff_leaves_eq_sampleBatches :
    Apart ((sampleRead.applyBatch sampleBatch).1.inputs ++ sampleBatches.inputs) ∧
      (sampleRead.applyBatch sampleBatch).1.root = sampleBatches.root ∧
      (sampleRead.applyBatch sampleBatch).1.epoch ≠ sampleBatches.epoch ∧
      (sampleRead.applyBatch sampleBatch).1.leaves = sampleBatches.leaves ∧
      (sampleRead.applyBatch sampleBatch).1.nodes = sampleBatches.nodes := by
  have hread : decode sampleBytes = .ok sampleRead := by decide +kernel
  have hapart : Apart ((sampleRead.applyBatch sampleBatch).1.inputs ++ sampleBatches.inputs) :=
    ⟨by decide +kernel, by decide +kernel⟩
  have hroot : (sampleRead.applyBatch sampleBatch).1.root = sampleBatches.root := by decide +kernel
  obtain ⟨hiff, hequal⟩ := root_eq_iff_leaves_eq ((Obtained.read hread).batch sampleBatch)
    ((Obtained.new.batch sampleFirst).batch sampleSecond)
  have hleaves := (hiff hapart).1 hroot
  exact ⟨hapart, hroot, by decide +kernel, hleaves, (hequal hleaves).2.1⟩

end Obtained

end AuthDict.Trie
