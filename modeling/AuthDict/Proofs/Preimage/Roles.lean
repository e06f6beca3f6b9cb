import AuthDict.Proofs.Preimage
import Mathlib.Data.List.Infix

/-!
# Hashed inputs tell their role

The bytes that are hashed determine the role they are hashed in and all its arguments, whatever the
length of a key or a payload (`encode_eq_encode_iff`). An input starts with the text or the byte of
its domain, and no domain is the beginning of another; what follows is made of blocks and at most
one part of any length, which ends the input.

The two kinds of labels share a domain. Their inputs coincide in one case: a secret hashed with the
empty key, and the same 32 bytes hashed as `gamma`.
-/
namespace AuthDict.Preimage

/-- What an input starts with. -/
inductive Domain where
  | label
  | seed
  | scalar
  | keyPoint
  | nonce
  | challenge
  | commitment
  | leaf
  | node
deriving DecidableEq

def Domain.bytes : Domain → Bytes
  | label => labelDomain
  | seed => seedDomain
  | scalar => scalarDomain
  | keyPoint => keyPointDomain
  | nonce => nonceDomain
  | challenge => challengeDomain
  | commitment => commitDomain
  | leaf => [0]
  | node => [1]

theorem Domain.eq_of_starts {d e : Domain} (h : d.bytes <+: e.bytes) : d = e := by
  revert h
  cases d <;> cases e <;> decide

def domain : Preimage → Domain
  | plainLabel .. | provedLabel .. => .label
  | secretSeed .. => .seed
  | scalar .. => .scalar
  | keyPoint .. => .keyPoint
  | nonce .. => .nonce
  | challenge .. => .challenge
  | commitment .. => .commitment
  | leaf .. => .leaf
  | node .. => .node

theorem encode_starts (p : Preimage) : p.domain.bytes <+: p.encode := by
  cases p with
  | leaf label c => exact ⟨_, rfl⟩
  | node l r => exact ⟨_, rfl⟩
  | _ => exact List.prefix_append ..

theorem domain_eq_of_encode_eq {p q : Preimage} (h : p.encode = q.encode) :
    p.domain = q.domain := by
  have hp := encode_starts p
  rw [h] at hp
  rcases List.prefix_or_prefix_of_prefix hp (encode_starts q) with hpq | hqp
  · exact Domain.eq_of_starts hpq
  · exact (Domain.eq_of_starts hqp).symm

theorem half_eq_of_byte_eq : {a b : Half} → a.byte = b.byte → a = b
  | .first, .first, _ => rfl
  | .first, .second, h => absurd h (by decide)
  | .second, .first, h => absurd h (by decide)
  | .second, .second, _ => rfl

theorem encode_plainLabel_inj {s s' : Seed} {key key' : Bytes}
    (h : (plainLabel s key).encode = (plainLabel s' key').encode) : s = s' ∧ key = key' := by
  simp only [encode, List.append_cancel_left_eq] at h
  exact Block.append_inj h

theorem encode_provedLabel_inj {gamma gamma' : Block 32}
    (h : (provedLabel gamma).encode = (provedLabel gamma').encode) : gamma = gamma' := by
  simp only [encode, List.append_cancel_left_eq] at h
  exact Block.ext h

/-- The one input with two roles. -/
theorem encode_plainLabel_eq_provedLabel_iff {s : Seed} {key : Bytes} {gamma : Block 32} :
    (plainLabel s key).encode = (provedLabel gamma).encode ↔ s = gamma ∧ key = [] := by
  simp only [encode, List.append_cancel_left_eq]
  constructor
  · intro h
    rw [← List.append_nil gamma.bytes] at h
    exact Block.append_inj h
  · rintro ⟨rfl, rfl⟩
    exact List.append_nil _

theorem encode_secretSeed_inj {s s' : Seed} (h : (secretSeed s).encode = (secretSeed s').encode) :
    s = s' := by
  simp only [encode, List.append_cancel_left_eq] at h
  exact Block.ext h

theorem encode_scalar_inj {half half' : Half} {s s' : Seed}
    (h : (scalar half s).encode = (scalar half' s').encode) : half = half' ∧ s = s' := by
  simp only [encode, List.append_cancel_left_eq, List.cons.injEq] at h
  exact ⟨half_eq_of_byte_eq h.1, Block.ext h.2⟩

theorem encode_keyPoint_inj {half half' : Half} {pk pk' : PublicKey} {key key' : Bytes}
    (h : (keyPoint half pk key).encode = (keyPoint half' pk' key').encode) :
    half = half' ∧ pk = pk' ∧ key = key' := by
  simp only [encode, List.append_cancel_left_eq, List.cons.injEq] at h
  exact ⟨half_eq_of_byte_eq h.1, Block.append_inj h.2⟩

theorem encode_nonce_inj {half half' : Half} {x x' k k' : Block 32}
    (h : (nonce half x k).encode = (nonce half' x' k').encode) :
    half = half' ∧ x = x' ∧ k = k' := by
  simp only [encode, List.append_cancel_left_eq, List.cons.injEq] at h
  obtain ⟨hx, hk⟩ := Block.append_inj h.2
  exact ⟨half_eq_of_byte_eq h.1, hx, Block.ext hk⟩

theorem encode_challenge_inj {pk pk' k k' gamma gamma' u u' v v' : Block 32}
    (h : (challenge pk k gamma u v).encode = (challenge pk' k' gamma' u' v').encode) :
    pk = pk' ∧ k = k' ∧ gamma = gamma' ∧ u = u' ∧ v = v' := by
  simp only [encode, List.append_cancel_left_eq] at h
  obtain ⟨hpk, h⟩ := Block.append_inj h
  obtain ⟨hk, h⟩ := Block.append_inj h
  obtain ⟨hgamma, h⟩ := Block.append_inj h
  obtain ⟨hu, hv⟩ := Block.append_inj h
  exact ⟨hpk, hk, hgamma, hu, Block.ext hv⟩

/-- The label of the empty key under a plain secret has the input of the label of a `gamma` with the
same bytes. -/
inductive Overlaps : Preimage → Preimage → Prop
  | emptyKey (s : Seed) : Overlaps (plainLabel s []) (provedLabel s)

theorem Overlaps.encode_eq {p q : Preimage} (h : Overlaps p q) : p.encode = q.encode := by
  cases h with
  | emptyKey s => exact encode_plainLabel_eq_provedLabel_iff.2 ⟨rfl, rfl⟩

/-- Equal inputs have one role and the same arguments, but for the one case of overlap. -/
theorem encode_eq_encode_iff (p q : Preimage) :
    p.encode = q.encode ↔ p = q ∨ Overlaps p q ∨ Overlaps q p := by
  constructor
  · intro h
    have hdomain := domain_eq_of_encode_eq h
    cases p with
    | plainLabel s key =>
      cases q with
      | plainLabel s' key' =>
        obtain ⟨rfl, rfl⟩ := encode_plainLabel_inj h
        exact .inl rfl
      | provedLabel gamma =>
        obtain ⟨rfl, rfl⟩ := encode_plainLabel_eq_provedLabel_iff.1 h
        exact .inr (.inl (.emptyKey s))
      | _ => contradiction
    | provedLabel gamma =>
      cases q with
      | plainLabel s key =>
        obtain ⟨rfl, rfl⟩ := encode_plainLabel_eq_provedLabel_iff.1 h.symm
        exact .inr (.inr (.emptyKey s))
      | provedLabel gamma' => exact .inl (congrArg provedLabel (encode_provedLabel_inj h))
      | _ => contradiction
    | secretSeed s =>
      cases q with
      | secretSeed s' => exact .inl (congrArg secretSeed (encode_secretSeed_inj h))
      | _ => contradiction
    | scalar half s =>
      cases q with
      | scalar half' s' =>
        obtain ⟨rfl, rfl⟩ := encode_scalar_inj h
        exact .inl rfl
      | _ => contradiction
    | keyPoint half pk key =>
      cases q with
      | keyPoint half' pk' key' =>
        obtain ⟨rfl, rfl, rfl⟩ := encode_keyPoint_inj h
        exact .inl rfl
      | _ => contradiction
    | nonce half x k =>
      cases q with
      | nonce half' x' k' =>
        obtain ⟨rfl, rfl, rfl⟩ := encode_nonce_inj h
        exact .inl rfl
      | _ => contradiction
    | challenge pk k gamma u v =>
      cases q with
      | challenge pk' k' gamma' u' v' =>
        obtain ⟨rfl, rfl, rfl, rfl, rfl⟩ := encode_challenge_inj h
        exact .inl rfl
      | _ => contradiction
    | commitment r payload =>
      cases q with
      | commitment r' payload' =>
        obtain ⟨rfl, rfl⟩ := encode_commitment_inj h
        exact .inl rfl
      | _ => contradiction
    | leaf label c =>
      cases q with
      | leaf label' c' =>
        obtain ⟨rfl, rfl⟩ := encode_leaf_inj h
        exact .inl rfl
      | _ => contradiction
    | node l r =>
      cases q with
      | node l' r' =>
        obtain ⟨rfl, rfl⟩ := encode_node_inj h
        exact .inl rfl
      | _ => contradiction
  · rintro (rfl | hpq | hqp)
    · rfl
    · exact hpq.encode_eq
    · exact hqp.encode_eq.symm

end AuthDict.Preimage
