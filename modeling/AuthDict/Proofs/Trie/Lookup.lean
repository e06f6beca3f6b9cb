import AuthDict.Proofs.Trie.Binding
import AuthDict.Proofs.Trie.Rehash

/-!
# Lookups are right and accepted

The path of a lookup names the commitment that the trie has for the label, and it passes the check
against the root if the trie is coherent. The walk goes down until a subtree has one leaf at most;
climbing back along its siblings gives, at each level, the reference of the leaves there.
-/
namespace AuthDict.Trie

open LookupPath

variable {t : Trie} {label : Label}

/-- How a walk that began at a depth ended: with all that is left, and with the siblings that lead
back up. -/
structure WalkEnds (t : Trie) (label : Label) (depth : Nat) (siblings : List Digest)
    (terminal : Option (Label × Commitment)) : Prop where
  length_le : depth + siblings.length ≤ 256
  under_eq : under t.leaves label (depth + siblings.length) = terminal.toList
  climb_eq : climb label (terminalDigest terminal) depth siblings = reference t.leaves label depth

theorem walkEnds_none {depth : Nat} (hd : depth ≤ 256) (h : under t.leaves label depth = []) :
    WalkEnds t label depth [] none := by
  constructor
  · exact hd
  · exact h
  · rw [reference, h, leavesDigest_nil]
    rfl

theorem walkEnds_some {depth : Nat} {e : Label × Commitment} (hd : depth ≤ 256)
    (h : under t.leaves label depth = [e]) : WalkEnds t label depth [] (some e) := by
  constructor
  · exact hd
  · exact h
  · rw [reference, h, leavesDigest_singleton]
    rfl

theorem WalkEnds.cons {depth : Nat} {siblings : List Digest}
    {terminal : Option (Label × Commitment)} (h : WalkEnds t label (depth + 1) siblings terminal)
    (hbranch : 2 ≤ (under t.leaves label depth).length) :
    WalkEnds t label depth (reference t.leaves (label.flip depth) (depth + 1) :: siblings)
      terminal := by
  have hd := lt_of_two_le hbranch
  have hflip := label.bit_flip hd
  have hlength : depth + (siblings.length + 1) = depth + 1 + siblings.length := by omega
  constructor
  · rw [List.length_cons, hlength]
    exact h.length_le
  · rw [List.length_cons, hlength]
    exact h.under_eq
  · rw [climb_cons, h.climb_eq, nodeOver]
    cases hbit : label.bit depth with
    | false =>
      rw [hbit] at hflip
      exact (reference_branch hd hbranch rfl hbit (label.floor_flip depth) hflip).symm
    | true =>
      rw [hbit] at hflip
      exact (reference_branch hd hbranch (label.floor_flip depth) hflip rfl hbit).symm

theorem walk_ends {levels : Nat} (hlevels : levels ≤ 256)
    (hsound : SoundFrom t.leaves t.nodes (256 - levels)) :
    WalkEnds t label (256 - levels) (t.walk label levels).1 (t.walk label levels).2 := by
  induction levels with
  | zero =>
    have hle := length_under_bottom t.leaves label (Nat.le_refl 256)
    rw [walk, subtree_eq]
    match hunder : under t.leaves label 256, hle with
    | [], _ => exact walkEnds_none (Nat.le_refl 256) hunder
    | [e], _ => exact walkEnds_some (Nat.le_refl 256) hunder
  | succ levels ih =>
    have hdepth : 256 - (levels + 1) = 255 - levels := by omega
    have hnext : 256 - levels = 255 - levels + 1 := by omega
    rw [hdepth] at hsound ⊢
    have hbelow : SoundFrom t.leaves t.nodes (255 - levels + 1) := hsound.mono (by omega)
    rw [hnext] at ih
    rw [walk, subtree_eq]
    match hunder : under t.leaves label (255 - levels) with
    | [] => exact walkEnds_none (by omega) hunder
    | [e] => exact walkEnds_some (by omega) hunder
    | e :: f :: rest =>
      have hbranch : 2 ≤ (under t.leaves label (255 - levels)).length := by simp [hunder]
      have hends := (ih (by omega) hbelow).cons hbranch
      rw [← subtreeDigest_eq (by omega) hbelow] at hends
      exact hends

theorem lookup_ends (h : Coherent t) (label : Label) :
    WalkEnds t label 0 (t.walk label 256).1 (t.walk label 256).2 := by
  have hsound := soundFrom_of_keepsAt fun key (_ : 0 ≤ key.depth) => h.keeps key
  exact walk_ends (Nat.le_refl 256) hsound

/-- The check of a path starts at its terminal if that lies on the walk. -/
theorem start?_eq {path : LookupPath}
    (hleaf : path.leaf = (path.terminal.filter fun e => e.1 = path.label).map (·.2))
    (hbits : ∀ e, path.terminal = some e →
      ∀ i < path.siblings.length, e.1.bit i = path.label.bit i) :
    path.start? = some (terminalDigest path.terminal) := by
  unfold start?
  cases hterminal : path.terminal with
  | none =>
    simp [hleaf, hterminal, terminalDigest]
  | some e =>
    have hany : ((List.range path.siblings.length).any
        fun d => e.1.bit d != path.label.bit d) = false := by
      simpa using hbits e hterminal
    by_cases hlabel : e.1 = path.label
    · simp_all [terminalDigest, Option.filter]
    · simp_all [terminalDigest, Option.filter]

/-- The root accepts the lookup of every label. -/
theorem verify_lookup (h : Coherent t) (label : Label) :
    LookupPath.verify t.root (t.lookup label) = true := by
  have hends := lookup_ends h label
  have hlength := hends.length_le
  rw [Nat.zero_add] at hlength
  have hstart : (t.lookup label).start? = some (terminalDigest (t.walk label 256).2) := by
    refine start?_eq rfl ?_
    intro e he
    have hmem : e ∈ under t.leaves label (0 + (t.walk label 256).1.length) := by
      rw [hends.under_eq]
      exact Option.mem_toList.2 he
    rw [Nat.zero_add] at hmem
    exact (Label.floor_eq_iff_bit hlength).1 (mem_under.1 hmem).2
  have hclimb := hends.climb_eq
  rw [reference, under_zero, ← h.root] at hclimb
  have hsiblings : (t.lookup label).siblings = (t.walk label 256).1 := rfl
  unfold LookupPath.verify
  rw [hstart, hsiblings, if_neg (Nat.not_lt.2 hlength)]
  exact beq_iff_eq.2 hclimb

/-- A lookup tells what the trie has for the label. -/
theorem leaf_lookup (h : Coherent t) (label : Label) : (t.lookup label).leaf = t.get? label := by
  have hends := lookup_ends h label
  apply Option.ext
  intro c
  have hmem : t.get? label = some c ↔ (t.walk label 256).2 = some (label, c) := by
    rw [get?, OrderedMap.get?_eq_some_iff, ← Option.mem_toList, ← hends.under_eq, mem_under]
    simp
  rw [hmem]
  change ((t.walk label 256).2.filter fun e => e.1 = label).map (·.2) = some c ↔ _
  cases (t.walk label 256).2 with
  | none => simp
  | some e =>
    obtain ⟨l, c'⟩ := e
    by_cases hl : l = label
    · simp [Option.filter, hl]
    · simp [Option.filter, hl]

/-- The path that is given where no trie is stored is that of the empty trie. -/
theorem lookup_empty (label : Label) : ({} : Trie).lookup label = LookupPath.empty label := by
  have hentries : (∅ : OrderedMap Label Commitment).entries = [] := OrderedMap.entries_empty
  have hwalk : ({} : Trie).walk label 256 = ([], none) := by
    rw [walk, subtree_eq, under, hentries]
    rfl
  unfold lookup
  rw [hwalk]
  rfl

end AuthDict.Trie
