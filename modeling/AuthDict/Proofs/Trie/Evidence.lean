import AuthDict.Proofs.Trie.History
import AuthDict.Proofs.Trie.Lookup
import Mathlib.Data.List.Forall2

/-!
# The evidence that a trie gives

A lookup names the commitment that the trie has for a label, and the root accepts its path. A batch
returns one proof for each of its updates, in order. All of them are taken in the trie after the
whole batch, so the proof of an update shows the last commitment that the batch has for its label:
its own, unless a later update of the batch has the same label.

Both hold however the trie came about, and for every label and every batch.
-/
namespace AuthDict.Trie

/-- What the proof of an update shows about the trie after the batch. -/
structure Proves (us : List Update) (next : Trie) (u : Update) (p : AppendProof) : Prop where
  update : p.update = u
  epoch : p.epoch = next.epoch
  label : p.path.label = u.label
  accepted : LookupPath.verify next.root p.path = true
  isMember : p.path.isMember = true
  leaf : p.path.leaf = lastCommitment? us u.label

variable {us : List Update} {u : Update} {t : Trie}

/-- The proofs of a batch are lookups in the trie after it. -/
theorem proofs_applyBatch (t : Trie) (us : List Update) :
    (t.applyBatch us).2 = us.map fun u =>
      ⟨u, (t.applyBatch us).1.epoch, (t.applyBatch us).1.lookup u.label⟩ := by
  unfold applyBatch
  split
  · next hempty =>
    rw [List.isEmpty_iff.1 hempty]
    rfl
  · rfl

theorem updates_proofs_applyBatch (t : Trie) (us : List Update) :
    (t.applyBatch us).2.map (·.update) = us := by
  rw [proofs_applyBatch, List.map_map]
  exact List.map_id us

/-- The proof of an update holds in the trie after the whole batch. -/
theorem Coherent.proves_lookup (h : Coherent t) (hu : u ∈ us) :
    Proves us (t.applyBatch us).1 u
      ⟨u, (t.applyBatch us).1.epoch, (t.applyBatch us).1.lookup u.label⟩ := by
  have hnext := h.applyBatch us
  obtain ⟨v, -, -, hlast⟩ := exists_lastCommitment? hu
  have hleaf : ((t.applyBatch us).1.lookup u.label).leaf = lastCommitment? us u.label := by
    rw [leaf_lookup hnext, get?_applyBatch, hlast, Option.some_or]
  constructor
  · rfl
  · rfl
  · rfl
  · exact verify_lookup hnext u.label
  · rw [LookupPath.isMember, hleaf, hlast]
    rfl
  · exact hleaf

theorem Coherent.proves_applyBatch (h : Coherent t) (us : List Update) :
    List.Forall₂ (Proves us (t.applyBatch us).1) us (t.applyBatch us).2 := by
  rw [proofs_applyBatch, List.forall₂_map_right_iff, List.forall₂_same]
  intro u hu
  exact h.proves_lookup hu

namespace Obtained

variable {ws : List (Label × Commitment)}

/-- A lookup shows what the trie has for the label, under the epoch and the root of the trie, and
the root accepts it. -/
theorem lookup_accepted (h : Obtained ws t) (label : Label) :
    (t.lookup label).label = label ∧ (t.lookup label).leaf = t.get? label ∧
      (t.lookup label).epoch = t.epoch ∧ (t.lookup label).root = t.root ∧
      LookupPath.verify t.root (t.lookup label) = true := by
  have hleaf := leaf_lookup h.coherent label
  have haccepted := verify_lookup h.coherent label
  exact ⟨rfl, hleaf, rfl, rfl, haccepted⟩

/-- A label that is absent, next to one that differs from it in the last bit only. -/
def sampleAbsent : Label := Label.flip (Block.zero 32) 255

theorem lookup_accepted_sampleAbsent :
    Obtained (writtenLeaves sampleBytes ++ sampleBatch.map fun u => (u.label, u.commitment))
        (sampleRead.applyBatch sampleBatch).1 ∧
      ((sampleRead.applyBatch sampleBatch).1.lookup sampleAbsent).leaf = none ∧
      LookupPath.verify (sampleRead.applyBatch sampleBatch).1.root
        ((sampleRead.applyBatch sampleBatch).1.lookup sampleAbsent) = true := by
  have hobtained := obtained_sampleRead.batch sampleBatch
  obtain ⟨-, hleaf, -, -, haccepted⟩ := lookup_accepted hobtained sampleAbsent
  refine ⟨hobtained, ?_, haccepted⟩
  rw [hleaf]
  decide +kernel

/-- A batch is one epoch and returns a proof for each update in order, which shows the last
commitment that the batch has for the label. Other labels keep what they had. -/
theorem proofs_accepted (h : Obtained ws t) (hepoch : t.epoch.toNat < 2 ^ 64 - 1) (hne : us ≠ []) :
    (t.applyBatch us).1.epoch.toNat = t.epoch.toNat + 1 ∧
      (t.applyBatch us).2.length = us.length ∧
      List.Forall₂ (Proves us (t.applyBatch us).1) us (t.applyBatch us).2 ∧
      ((us.map (·.label)).Nodup →
        ∀ p ∈ (t.applyBatch us).2, p.path.leaf = some p.update.commitment) ∧
      ∀ label, label ∉ us.map (·.label) → (t.applyBatch us).1.get? label = t.get? label := by
  have hproves := h.coherent.proves_applyBatch us
  refine ⟨toNat_epoch_applyBatch hepoch hne, hproves.length_eq.symm, hproves, ?_, ?_⟩
  · intro hlabels p hp
    rw [proofs_applyBatch] at hp
    obtain ⟨u, hu, rfl⟩ := List.mem_map.1 hp
    have hleaf := (h.coherent.proves_lookup hu).leaf
    exact hleaf.trans (lastCommitment?_of_nodup hlabels hu)
  · intro label hlabel
    rw [get?_applyBatch, lastCommitment?_eq_none hlabel, Option.none_or]

/-- A batch with a label that is there, a new one, and the first one again. -/
def sampleRepeated : List Update :=
  [⟨Block.zero 32, Label.flip (Block.zero 32) 3⟩,
    ⟨Label.flip (Block.zero 32) 255, Label.flip (Block.zero 32) 4⟩,
    ⟨Block.zero 32, Label.flip (Block.zero 32) 5⟩]

theorem proofs_accepted_sampleRepeated :
    Obtained (writtenLeaves sampleBytes) sampleRead ∧ sampleRead.epoch.toNat < 2 ^ 64 - 1 ∧
      sampleRepeated ≠ [] ∧ (sampleRead.applyBatch sampleRepeated).1.epoch.toNat = 4 ∧
      List.Forall₂ (Proves sampleRepeated (sampleRead.applyBatch sampleRepeated).1) sampleRepeated
        (sampleRead.applyBatch sampleRepeated).2 ∧
      lastCommitment? sampleRepeated (Block.zero 32) = some (Label.flip (Block.zero 32) 5) := by
  have hepoch : sampleRead.epoch.toNat = 3 := by decide +kernel
  have hbelow : sampleRead.epoch.toNat < 2 ^ 64 - 1 := by omega
  have hne : sampleRepeated ≠ [] := by simp [sampleRepeated]
  obtain ⟨hnext, -, hproves, -, -⟩ := proofs_accepted obtained_sampleRead hbelow hne
  refine ⟨obtained_sampleRead, hbelow, hne, ?_, hproves, by decide +kernel⟩
  rw [hnext, hepoch]

end Obtained

end AuthDict.Trie
