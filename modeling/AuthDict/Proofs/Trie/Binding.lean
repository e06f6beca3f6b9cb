import AuthDict.Proofs.Preimage
import AuthDict.Trie.Path

/-!
# Paths are bound to a root

The check of a path hashes its terminal leaf and one node for each sibling. Two paths of one label
that climb to the same digest are compared level by level from the root downwards: equal nodes have
equal halves, so the siblings agree and the walks go on to equal digests, and where one walk stops
the other stops as well, because a leaf is never hashed as a node and no digest is the empty one.
-/
namespace AuthDict

namespace LookupPath

/-- The node over a digest on the way to a label and the digest beside it. -/
def nodeOver (label : Label) (depth : Nat) (below sibling : Digest) : Preimage :=
  if label.bit depth then .node sibling below else .node below sibling

/-- The nodes that are hashed on a climb. -/
def climbInputs (label : Label) (start : Digest) : Nat → List Digest → List Preimage
  | _, [] => []
  | depth, sibling :: rest =>
    nodeOver label depth (climb label start (depth + 1) rest) sibling
      :: climbInputs label start (depth + 1) rest

/-- The digest that belongs to a terminal. -/
def terminalDigest : Option (Label × Commitment) → Digest
  | none => emptyDigest
  | some (label, commitment) => (Preimage.leaf label commitment).digest

def terminalInputs : Option (Label × Commitment) → List Preimage
  | none => []
  | some (label, commitment) => [.leaf label commitment]

/-- What is hashed when a path is checked. -/
def inputs (path : LookupPath) : List Preimage :=
  terminalInputs path.terminal ++
    climbInputs path.label (terminalDigest path.terminal) 0 path.siblings

/-- What is assumed of the hash function: it tells the inputs apart, and none has the digest that
stands for no leaves. -/
structure Apart (inputs : List Preimage) : Prop where
  hashes : Preimage.HashesApart keccak256 inputs
  nonempty : ∀ a ∈ inputs, a.digest ≠ emptyDigest

theorem Apart.mono {inputs more : List Preimage} (h : Apart more) (hsub : inputs ⊆ more) :
    Apart inputs := by
  constructor
  · intro a ha b hb
    exact h.hashes a (hsub ha) b (hsub hb)
  · intro a ha
    exact h.nonempty a (hsub ha)

theorem terminalDigest_inj {s t : Option (Label × Commitment)}
    (hapart : Apart (terminalInputs s ++ terminalInputs t))
    (h : terminalDigest s = terminalDigest t) : s = t := by
  cases s with
  | none =>
    cases t with
    | none => rfl
    | some e =>
      have hne := hapart.nonempty (.leaf e.1 e.2) (by simp [terminalInputs])
      exact absurd h.symm hne
  | some d =>
    cases t with
    | none =>
      have hne := hapart.nonempty (.leaf d.1 d.2) (by simp [terminalInputs])
      exact absurd h hne
    | some e =>
      have hencode := hapart.hashes (.leaf d.1 d.2) (by simp [terminalInputs])
        (.leaf e.1 e.2) (by simp [terminalInputs]) h
      obtain ⟨hl, hc⟩ := Preimage.encode_leaf_inj hencode
      rw [Prod.ext hl hc]

theorem climb_cons (label : Label) (start : Digest) (depth : Nat) (sibling : Digest)
    (rest : List Digest) :
    climb label start depth (sibling :: rest) =
      (nodeOver label depth (climb label start (depth + 1) rest) sibling).digest := by
  simp only [climb, nodeOver]
  split <;> rfl

theorem nodeOver_inj {label : Label} {depth : Nat} {below below' sibling sibling' : Digest}
    (h : (nodeOver label depth below sibling).encode =
      (nodeOver label depth below' sibling').encode) : below = below' ∧ sibling = sibling' := by
  unfold nodeOver at h
  split at h
  · exact (Preimage.encode_node_inj h).symm
  · exact Preimage.encode_node_inj h

theorem terminalDigest_ne_nodeOver {label : Label} {depth : Nat} {below sibling : Digest}
    {t : Option (Label × Commitment)} {inputs : List Preimage} (hapart : Apart inputs)
    (ht : terminalInputs t ⊆ inputs) (hnode : nodeOver label depth below sibling ∈ inputs) :
    terminalDigest t ≠ (nodeOver label depth below sibling).digest := by
  intro h
  cases t with
  | none => exact hapart.nonempty _ hnode h.symm
  | some e =>
    have hleaf : .leaf e.1 e.2 ∈ inputs := ht List.mem_cons_self
    have hencode := hapart.hashes _ hleaf _ hnode h
    unfold nodeOver at hencode
    split at hencode
    · exact Preimage.encode_leaf_ne_node _ _ _ _ hencode
    · exact Preimage.encode_leaf_ne_node _ _ _ _ hencode

/-- Climbs of one label to the same digest have the same siblings and the same terminal. -/
theorem climb_unique {label : Label} {s t : Option (Label × Commitment)} {depth : Nat}
    {siblings siblings' : List Digest}
    (hapart : Apart (terminalInputs s ++ climbInputs label (terminalDigest s) depth siblings ++
      (terminalInputs t ++ climbInputs label (terminalDigest t) depth siblings')))
    (h : climb label (terminalDigest s) depth siblings =
      climb label (terminalDigest t) depth siblings') : siblings = siblings' ∧ s = t := by
  induction siblings generalizing depth siblings' with
  | nil =>
    cases siblings' with
    | nil =>
      have hterminals : Apart (terminalInputs s ++ terminalInputs t) := by
        simpa [climbInputs] using hapart
      exact ⟨rfl, terminalDigest_inj hterminals h⟩
    | cons sibling' rest' =>
      rw [climb_cons] at h
      exact absurd h (terminalDigest_ne_nodeOver hapart (by simp) (by simp [climbInputs]))
  | cons sibling rest ih =>
    cases siblings' with
    | nil =>
      rw [climb_cons] at h
      have hsub : terminalInputs t ⊆ terminalInputs s ++
          climbInputs label (terminalDigest s) depth (sibling :: rest) ++
            (terminalInputs t ++ climbInputs label (terminalDigest t) depth []) := by
        intro a ha
        simp [ha]
      exact absurd h.symm (terminalDigest_ne_nodeOver hapart hsub (by simp [climbInputs]))
    | cons sibling' rest' =>
      -- Equal nodes have equal halves: the siblings, and the digests one level down.
      rw [climb_cons, climb_cons] at h
      have hencode := hapart.hashes _ (by simp [climbInputs]) _ (by simp [climbInputs]) h
      obtain ⟨hbelow, hsibling⟩ := nodeOver_inj hencode
      have hrest := ih (hapart.mono ?_) hbelow
      · rw [hsibling, hrest.1]
        exact ⟨rfl, hrest.2⟩
      · intro a ha
        simp only [climbInputs, List.mem_append, List.mem_cons] at ha ⊢
        rcases ha with (ha | ha) | ha | ha
        · exact .inl (.inl ha)
        · exact .inl (.inr (.inr ha))
        · exact .inr (.inl ha)
        · exact .inr (.inr (.inr ha))

theorem start?_eq_some {path : LookupPath} {start : Digest} (h : path.start? = some start) :
    start = terminalDigest path.terminal ∧
      path.leaf = (path.terminal.filter fun e => e.1 = path.label).map (·.2) := by
  unfold start? at h
  cases hterminal : path.terminal with
  | none =>
    simp only [hterminal] at h
    split at h
    · contradiction
    · next hleaf =>
      constructor
      · exact (Option.some.inj h).symm
      · simpa using hleaf
  | some e =>
    obtain ⟨l, c⟩ := e
    simp only [hterminal] at h
    split at h
    · contradiction
    · next hleaf =>
      split at h
      · contradiction
      · constructor
        · exact (Option.some.inj h).symm
        · by_cases hl : l = path.label
          · simp_all [Option.filter]
          · simp_all [Option.filter]

theorem verify_eq_true {root : Digest} {path : LookupPath} (h : verify root path = true) :
    path.start? = some (terminalDigest path.terminal) ∧
      climb path.label (terminalDigest path.terminal) 0 path.siblings = root := by
  unfold verify at h
  split at h
  · contradiction
  · split at h
    · contradiction
    · next start hstart =>
      obtain ⟨rfl, -⟩ := start?_eq_some hstart
      exact ⟨hstart, by simpa using h⟩

/-- Accepted paths of one label have the same siblings, terminal and leaf. -/
theorem accepted_unique {root : Digest} {p q : LookupPath} (hlabel : p.label = q.label)
    (hp : verify root p = true) (hq : verify root q = true)
    (hapart : Apart (p.inputs ++ q.inputs)) :
    p.leaf = q.leaf ∧ p.terminal = q.terminal ∧ p.siblings = q.siblings := by
  obtain ⟨hpstart, hpclimb⟩ := verify_eq_true hp
  obtain ⟨hqstart, hqclimb⟩ := verify_eq_true hq
  unfold inputs at hapart
  rw [← hlabel] at hapart hqclimb
  obtain ⟨hsiblings, hterminal⟩ := climb_unique hapart (hpclimb.trans hqclimb.symm)
  have hleaf : p.leaf = q.leaf := by
    rw [(start?_eq_some hpstart).2, (start?_eq_some hqstart).2, hlabel, hterminal]
  exact ⟨hleaf, hterminal, hsiblings⟩

end LookupPath

end AuthDict
