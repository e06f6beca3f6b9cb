import AuthDict.Element
import AuthDict.Proofs.Binary.RoundTrip
import AuthDict.Proofs.Trie.Rehash

/-!
# How a trie comes about

A trie starts out empty or is read from bytes, and then takes batches and is stored and read again,
in any order. Whatever the way, its leaves are the last ones written under their labels, and it is
coherent: the root and the kept digests are those that the reference gives for these leaves.
-/
namespace AuthDict.Trie

open Binary

/-- The reader of a trie up to the rehash. -/
def leavesReader : Reader (Epoch × List (Label × Commitment)) := do
  let epoch : Epoch ← BinaryForm.reader
  let _ : Digest ← BinaryForm.reader
  let leaves : List (Label × Commitment) ← .list BinaryForm.reader
  return (epoch, leaves)

/-- The leaves that bytes list for a trie, as they stand there. -/
def writtenLeaves (bs : Bytes) : List (Label × Commitment) :=
  match leavesReader bs with
  | .ok ((_, leaves), _) => leaves
  | .error _ => []

/-- The tries that come about, each with all leaves ever written to it. -/
inductive Obtained : List (Label × Commitment) → Trie → Prop
  | new : Obtained [] {}
  | read {bs : Bytes} {t : Trie} : decode bs = .ok t → Obtained (writtenLeaves bs) t
  | batch {ws : List (Label × Commitment)} {t : Trie} (us : List Update) : Obtained ws t →
      Obtained (ws ++ us.map fun u => (u.label, u.commitment)) (t.applyBatch us).1
  /-- The leaves are counted in eight bytes. -/
  | reload {ws : List (Label × Commitment)} {t t' : Trie} : Obtained ws t → t.size < 2 ^ 64 →
      decode (encode t) = .ok t' → Obtained ws t'

theorem decode_eq_ok {bs : Bytes} {t : Trie} (h : decode bs = .ok t) :
    ∃ epoch, t = ofLeaves epoch (writtenLeaves bs) := by
  obtain ⟨⟨t', rest⟩, hread, rfl⟩ : ∃ out, BinaryForm.reader bs = .ok out ∧ out.1 = t := by
    unfold decode at h
    cases hr : (BinaryForm.reader : Reader Trie) bs with
    | error e =>
      rw [hr] at h
      contradiction
    | ok out =>
      rw [hr] at h
      exact ⟨out, rfl, Except.ok.inj h⟩
  obtain ⟨epoch, afterEpoch, hepoch, hread⟩ := Reader.bind_eq_ok.1 hread
  obtain ⟨root, afterRoot, hroot, hread⟩ := Reader.bind_eq_ok.1 hread
  obtain ⟨leaves, afterLeaves, hleaves, hread⟩ := Reader.bind_eq_ok.1 hread
  have hwritten : leavesReader bs = .ok ((epoch, leaves), afterLeaves) := by
    refine Reader.bind_eq_ok.2 ⟨epoch, afterEpoch, hepoch, ?_⟩
    refine Reader.bind_eq_ok.2 ⟨root, afterRoot, hroot, ?_⟩
    exact Reader.bind_eq_ok.2 ⟨leaves, afterLeaves, hleaves, rfl⟩
  refine ⟨epoch, ?_⟩
  rw [writtenLeaves, hwritten]
  cases hread
  rfl

/-- A stored trie is read as the trie of its leaves, whatever comes after it. -/
theorem decode_encode_append {t : Trie} (h : t.size < 2 ^ 64) (rest : Bytes) :
    decode (encode t ++ rest) = .ok (ofLeaves t.epoch t.leaves.entries) := by
  have hlen : t.leaves.entries.length < 256 ^ 8 := by
    rw [OrderedMap.length_entries]
    exact Nat.lt_of_lt_of_eq h (by decide)
  have hentries : (Reader.list BinaryForm.reader).Reads (encodeList t.leaves.entries)
      t.leaves.entries := Reader.reads_list (fun e _ => LawfulBinaryForm.reads e) hlen
  have hread : (BinaryForm.reader : Reader Trie).Reads (encode t)
      (ofLeaves t.epoch t.leaves.entries) := by
    have hencode : encode t =
        encode t.epoch ++ (encode t.root ++ encodeList t.leaves.entries) := List.append_assoc ..
    rw [hencode]
    apply (LawfulBinaryForm.reads t.epoch).bind
    apply (LawfulBinaryForm.reads t.root).bind
    exact hentries.map
  rw [decode, hread rest]
  rfl

theorem Coherent.ext {s t : Trie} (hs : Coherent s) (ht : Coherent t) (hepoch : s.epoch = t.epoch)
    (hleaves : s.leaves = t.leaves) : s = t := by
  have hroot : s.root = t.root := by rw [hs.root, ht.root, hleaves]
  have hnodes : s.nodes = t.nodes := by
    apply OrderedMap.ext_get?
    intro key
    apply Option.ext
    intro digest
    rw [hs.keeps key digest, ht.keeps key digest, hleaves]
  cases s
  cases t
  simp_all

theorem leaves_ofLeaves (epoch : Epoch) (es : List (Label × Commitment)) :
    (ofLeaves epoch es).leaves = OrderedMap.ofList es := rfl

theorem ofLeaves_entries {t : Trie} (h : Coherent t) : ofLeaves t.epoch t.leaves.entries = t := by
  apply (coherent_ofLeaves _ _).ext h rfl
  rw [leaves_ofLeaves, OrderedMap.ofList_entries]

/-- A coherent trie is read back as it was, in all four parts. -/
theorem Coherent.decode_append {t : Trie} (h : Coherent t) (hsize : t.size < 2 ^ 64)
    (rest : Bytes) : decode (encode t ++ rest) = .ok t := by
  rw [decode_encode_append hsize, ofLeaves_entries h]

theorem decode_encode {t t' : Trie} (h : Coherent t) (hsize : t.size < 2 ^ 64)
    (hread : decode (encode t) = .ok t') : t' = t := by
  have hdecode := h.decode_append hsize []
  rw [List.append_nil, hread] at hdecode
  exact Except.ok.inj hdecode

namespace Obtained

variable {ws : List (Label × Commitment)} {t : Trie}

theorem coherent (h : Obtained ws t) : Coherent t := by
  induction h with
  | new => exact coherent_empty
  | read hread =>
    obtain ⟨epoch, rfl⟩ := decode_eq_ok hread
    exact coherent_ofLeaves epoch _
  | batch us _ ih => exact ih.applyBatch us
  | reload _ hsize hread ih =>
    rw [decode_encode ih hsize hread]
    exact ih

theorem leaves_eq (h : Obtained ws t) : t.leaves = OrderedMap.ofList ws := by
  induction h with
  | new => rfl
  | read hread =>
    obtain ⟨epoch, rfl⟩ := decode_eq_ok hread
    exact leaves_ofLeaves epoch _
  | batch us _ ih =>
    rw [leaves_applyBatch, ih]
    exact List.foldl_append.symm
  | reload hobtained hsize hread ih => rw [decode_encode hobtained.coherent hsize hread, ih]

/-- However a trie came about, it is what the reference makes of the updates written to it: the
last commitment of each label, the root of the sorted leaves, and under the name of each subtree
with two or more leaves, and under no other name, the digest of that subtree. -/
theorem eq_reference (h : Obtained ws t) :
    (∀ label, t.get? label = (ws.reverse.find? fun w => w.1 = label).map (·.2)) ∧
      t.root = leavesDigest 256 t.leaves.entries ∧
      ∀ key digest, t.nodes.get? key = some digest ↔
        IsBranch t.leaves key ∧ digest = reference t.leaves key.floor key.depth := by
  refine ⟨?_, h.coherent.root, h.coherent.keeps⟩
  intro label
  have hget := OrderedMap.get?_insertAll OrderedMap.empty ws label
  rw [get?, h.leaves_eq]
  apply hget.trans
  cases ws.reverse.find? fun w => w.1 = label with
  | none => exact OrderedMap.get?_empty label
  | some w => rfl

/-- Bytes with another root, labels out of order and one label twice. -/
def sampleBytes : Bytes :=
  encode (3 : Epoch) ++ encode (Label.flip (Block.zero 32) 9) ++
    encodeList [(Label.flip (Block.zero 32) 0, Label.flip (Block.zero 32) 1),
      (Block.zero 32, Block.zero 32), (Label.flip (Block.zero 32) 0, Label.flip (Block.zero 32) 2)]

def sampleRead : Trie := ofLeaves 3 (writtenLeaves sampleBytes)

theorem obtained_sampleRead : Obtained (writtenLeaves sampleBytes) sampleRead := by
  have hread : decode sampleBytes = .ok sampleRead := by decide +kernel
  exact .read hread

def sampleBatch : List Update := [⟨Block.zero 32, Label.flip (Block.zero 32) 3⟩]

theorem eq_reference_sampleRead :
    Obtained (writtenLeaves sampleBytes ++ sampleBatch.map fun u => (u.label, u.commitment))
        (sampleRead.applyBatch sampleBatch).1 ∧
      (sampleRead.applyBatch sampleBatch).1.get? (Block.zero 32) =
        some (Label.flip (Block.zero 32) 3) := by
  have hread : decode sampleBytes = .ok sampleRead := by decide +kernel
  have hobtained := (Obtained.read hread).batch sampleBatch
  refine ⟨hobtained, ?_⟩
  rw [(eq_reference hobtained).1]
  decide +kernel

end Obtained

end AuthDict.Trie
