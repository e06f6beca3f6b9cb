import AuthDict.Proofs.Trie.History
import AuthDict.Proofs.Trie.Lookup

/-!
# What a root accepts

A root accepts at most one path of a label, apart from the epoch and the root that the path names,
which the check passes over. The root need not be that of a trie. If it is, the lookup of the label
is the one path, so every accepted path shows what the trie has for the label.
-/
namespace AuthDict.LookupPath

/-- The root of a trie accepts no leaf but the trie's own. -/
theorem leaf_eq_get? {ws : List (Label × Commitment)} {t : Trie} {p : LookupPath}
    (ht : Trie.Obtained ws t) (hp : verify t.root p = true)
    (hapart : Apart (p.inputs ++ (t.lookup p.label).inputs)) : p.leaf = t.get? p.label := by
  have hlabel : p.label = (t.lookup p.label).label := rfl
  have hlookup := Trie.verify_lookup ht.coherent p.label
  obtain ⟨hleaf, -⟩ := accepted_unique hlabel hp hlookup hapart
  rw [hleaf]
  exact Trie.leaf_lookup ht.coherent p.label

/-- An accepted path is settled by the root and the label: any other path that the root accepts for
the label has the same leaf, terminal and siblings, and if the root is that of a trie, the leaf is
the one in the trie. -/
theorem accepted_determined {root : Digest} {p : LookupPath} (hp : verify root p = true) :
    (∀ q : LookupPath, q.label = p.label → verify root q = true → Apart (p.inputs ++ q.inputs) →
        p.leaf = q.leaf ∧ p.terminal = q.terminal ∧ p.siblings = q.siblings) ∧
      ∀ ws t, Trie.Obtained ws t → t.root = root → Apart (p.inputs ++ (t.lookup p.label).inputs) →
        p.leaf = t.get? p.label := by
  constructor
  · intro q hlabel hq hapart
    exact accepted_unique hlabel.symm hp hq hapart
  · rintro ws t ht rfl hapart
    exact leaf_eq_get? ht hp hapart

def sampleUpdates : List Update :=
  [⟨Block.zero 32, Label.flip (Block.zero 32) 1⟩, ⟨Label.flip (Block.zero 32) 0, Block.zero 32⟩]

def sampleTrie : Trie := (({} : Trie).applyBatch sampleUpdates).1

/-- The path of a label that is absent, where the walk ends at the leaf of another label. -/
def samplePath (epoch : Epoch) : LookupPath :=
  { sampleTrie.lookup (Label.flip (Block.zero 32) 5) with epoch }

theorem accepted_determined_samplePath :
    verify sampleTrie.root (samplePath 0) = true ∧ verify sampleTrie.root (samplePath 7) = true ∧
      Apart ((samplePath 0).inputs ++ (samplePath 7).inputs) ∧
      (samplePath 0).siblings = (samplePath 7).siblings ∧
      (samplePath 0).leaf = sampleTrie.get? (samplePath 0).label := by
  have hzero : verify sampleTrie.root (samplePath 0) = true := by decide +kernel
  have hseven : verify sampleTrie.root (samplePath 7) = true := by decide +kernel
  have hapart : Apart ((samplePath 0).inputs ++ (samplePath 7).inputs) :=
    ⟨by decide +kernel, by decide +kernel⟩
  have hlookup : Apart ((samplePath 0).inputs ++
      (sampleTrie.lookup (samplePath 0).label).inputs) :=
    ⟨by decide +kernel, by decide +kernel⟩
  have hlabel : (samplePath 7).label = (samplePath 0).label := by decide +kernel
  have hobtained := Trie.Obtained.new.batch sampleUpdates
  obtain ⟨hpaths, htries⟩ := accepted_determined hzero
  obtain ⟨-, -, hsiblings⟩ := hpaths _ hlabel hseven hapart
  exact ⟨hzero, hseven, hapart, hsiblings, htries _ _ hobtained rfl hlookup⟩

end AuthDict.LookupPath
