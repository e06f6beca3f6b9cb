import AuthDict.Answer
import AuthDict.Proofs.Trie.Binding
import AuthDict.Trie.Basic

/-!
# Answers are bound to a root

Two answers that pass the check against one root and name the same label say the same: both are
absences, or both are members with one payload and one randomness. The answers may come from
anywhere and the root need not be that of a trie; what the two checks hash is assumed to be told
apart by the hash functions.
-/
namespace AuthDict.Answer

/-- The commitment that is hashed when an answer is checked. -/
def openings : Answer → List Preimage
  | member payload r _ _ => [.commitment r payload]
  | absent _ _ => []

theorem verify_eq_true {a : Answer} {key : Bytes} {root : Digest} {pk : Option PublicKey}
    {scheme : CommitmentScheme} (h : a.verify key root pk scheme = true) :
    LookupPath.verify root a.path = true ∧ a.opens scheme = true := by
  unfold verify at h
  simp only [Bool.and_eq_true] at h
  exact ⟨h.1.2, h.2⟩

theorem opens_member {payload : Bytes} {r : Randomness} {path : LookupPath}
    {proof : Option LabelProof} {scheme : CommitmentScheme} :
    (member payload r path proof).opens scheme = true ↔
      path.leaf = some (scheme.commit payload r) := by
  simp [opens]

theorem opens_absent {path : LookupPath} {proof : Option LabelProof} {scheme : CommitmentScheme} :
    (absent path proof).opens scheme = true ↔ path.leaf = none := by
  simp [opens]

/-- Answers that open one leaf say the same. -/
theorem opens_unique {a b : Answer} {scheme : CommitmentScheme} (hleaf : a.path.leaf = b.path.leaf)
    (ha : a.opens scheme = true) (hb : b.opens scheme = true)
    (hapart : Preimage.HashesApart scheme.hash (a.openings ++ b.openings)) :
    a.isMember = b.isMember ∧ a.payload? = b.payload? ∧ a.randomness? = b.randomness? := by
  cases a with
  | member payload r path proof =>
    rw [opens_member] at ha
    cases b with
    | member payload' r' path' proof' =>
      rw [opens_member] at hb
      have hcommit : scheme.commit payload r = scheme.commit payload' r' := by
        have h : some (scheme.commit payload r) = some (scheme.commit payload' r') := by
          rw [← ha, ← hb]
          exact hleaf
        exact Option.some.inj h
      have hencode := hapart (.commitment r payload) (by simp [openings])
        (.commitment r' payload') (by simp [openings]) hcommit
      obtain ⟨rfl, rfl⟩ := Preimage.encode_commitment_inj hencode
      exact ⟨rfl, rfl, rfl⟩
    | absent path' proof' =>
      rw [opens_absent] at hb
      have h : some (scheme.commit payload r) = none := by
        rw [← ha, ← hb]
        exact hleaf
      contradiction
  | absent path proof =>
    rw [opens_absent] at ha
    cases b with
    | member payload' r' path' proof' =>
      rw [opens_member] at hb
      have h : none = some (scheme.commit payload' r') := by
        rw [← ha, ← hb]
        exact hleaf
      contradiction
    | absent path' proof' => exact ⟨rfl, rfl, rfl⟩

/-- A root does not admit two different answers for one label, whoever made them, and whether or not
the label is proved. -/
theorem verified_unique {root : Digest} {scheme : CommitmentScheme} {key key' : Bytes}
    {pk pk' : Option PublicKey} {a b : Answer} (hlabel : a.path.label = b.path.label)
    (ha : a.verify key root pk scheme = true) (hb : b.verify key' root pk' scheme = true)
    (htrie : LookupPath.Apart (a.path.inputs ++ b.path.inputs))
    (hcommit : Preimage.HashesApart scheme.hash (a.openings ++ b.openings)) :
    a.isMember = b.isMember ∧ a.payload? = b.payload? ∧ a.randomness? = b.randomness? := by
  obtain ⟨hapath, haopens⟩ := verify_eq_true ha
  obtain ⟨hbpath, hbopens⟩ := verify_eq_true hb
  obtain ⟨hleaf, -⟩ := LookupPath.accepted_unique hlabel hapath hbpath htrie
  exact opens_unique hleaf haopens hbopens hcommit

/-- A trie in which the label of zeros has a sibling. -/
def sampleTrie : Trie :=
  (({} : Trie).applyBatch
    [⟨Block.zero 32, CommitmentScheme.sha3.commit [7] (Block.zero 32)⟩,
      ⟨Label.flip (Block.zero 32) 0, Block.zero 32⟩]).1

def sampleAnswer (epoch : Epoch) : Answer :=
  .member [7] (Block.zero 32) { sampleTrie.lookup (Block.zero 32) with epoch } none

theorem verified_unique_sampleAnswer :
    (sampleAnswer 0).path.label = (sampleAnswer 1).path.label ∧
      (sampleAnswer 0).verify [] sampleTrie.root none .sha3 = true ∧
      (sampleAnswer 1).verify [] sampleTrie.root none .sha3 = true ∧
      LookupPath.Apart ((sampleAnswer 0).path.inputs ++ (sampleAnswer 1).path.inputs) ∧
      Preimage.HashesApart CommitmentScheme.sha3.hash
        ((sampleAnswer 0).openings ++ (sampleAnswer 1).openings) ∧
      (sampleAnswer 0).payload? = (sampleAnswer 1).payload? := by
  have hlabel : (sampleAnswer 0).path.label = (sampleAnswer 1).path.label := by
    unfold sampleAnswer path Trie.lookup
    rfl
  have ha : (sampleAnswer 0).verify [] sampleTrie.root none .sha3 = true := by decide +kernel
  have hb : (sampleAnswer 1).verify [] sampleTrie.root none .sha3 = true := by decide +kernel
  have htrie : LookupPath.Apart ((sampleAnswer 0).path.inputs ++ (sampleAnswer 1).path.inputs) :=
    ⟨by decide +kernel, by decide +kernel⟩
  have hcommit : Preimage.HashesApart CommitmentScheme.sha3.hash
      ((sampleAnswer 0).openings ++ (sampleAnswer 1).openings) := by decide +kernel
  exact ⟨hlabel, ha, hb, htrie, hcommit, (verified_unique hlabel ha hb htrie hcommit).2.1⟩

end AuthDict.Answer
