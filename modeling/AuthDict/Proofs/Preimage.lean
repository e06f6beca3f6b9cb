import AuthDict.Preimage

/-!
# Framing of hashed inputs

The arguments of a leaf, a node or a commitment can be read back from the bytes that are hashed,
and no leaf is framed as a node. Theorems that rest on a hash function assume `HashesApart` of the
inputs they compare, and nothing of any other input.
-/
namespace AuthDict

theorem Block.append_inj {n : Nat} {a b : Block n} {s t : Bytes}
    (h : a.bytes ++ s = b.bytes ++ t) : a = b ∧ s = t := by
  have hlen : a.bytes.length = b.bytes.length := by rw [a.length_eq, b.length_eq]
  obtain ⟨hbytes, hrest⟩ := List.append_inj h hlen
  constructor
  · exact Block.ext hbytes
  · exact hrest

namespace Preimage

/-- Inputs with the same hash are the same bytes. -/
def HashesApart (hash : Bytes → Digest) (inputs : List Preimage) : Prop :=
  ∀ a ∈ inputs, ∀ b ∈ inputs, hash a.encode = hash b.encode → a.encode = b.encode

instance (hash : Bytes → Digest) (inputs : List Preimage) : Decidable (HashesApart hash inputs) :=
  inferInstanceAs (Decidable (∀ a ∈ inputs, ∀ b ∈ inputs, _))

theorem encode_leaf_inj {l l' : Label} {c c' : Commitment}
    (h : (leaf l c).encode = (leaf l' c').encode) : l = l' ∧ c = c' := by
  simp only [encode, List.cons.injEq, true_and] at h
  obtain ⟨hl, hc⟩ := Block.append_inj h
  constructor
  · exact hl
  · exact Block.ext hc

theorem encode_node_inj {l l' r r' : Digest} (h : (node l r).encode = (node l' r').encode) :
    l = l' ∧ r = r' := by
  simp only [encode, List.cons.injEq, true_and] at h
  obtain ⟨hl, hr⟩ := Block.append_inj h
  constructor
  · exact hl
  · exact Block.ext hr

/-- The first byte tells leaves and nodes apart. -/
theorem encode_leaf_ne_node (label : Label) (c : Commitment) (l r : Digest) :
    (leaf label c).encode ≠ (node l r).encode := by
  intro h
  simp [encode] at h

/-- The length in front of a payload does not matter here: the payload ends the input. -/
theorem encode_commitment_inj {r r' : Randomness} {payload payload' : Bytes}
    (h : (commitment r payload).encode = (commitment r' payload').encode) :
    r = r' ∧ payload = payload' := by
  simp only [encode, List.append_cancel_left_eq] at h
  obtain ⟨hr, hrest⟩ := Block.append_inj h
  have hlen : (leBytes 8 payload.length).length = (leBytes 8 payload'.length).length := by
    rw [length_leBytes, length_leBytes]
  obtain ⟨-, hpayload⟩ := List.append_inj hrest hlen
  constructor
  · exact hr
  · exact hpayload

end Preimage

end AuthDict
