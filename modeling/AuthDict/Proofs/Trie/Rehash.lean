import AuthDict.Proofs.Trie.Reference
import Mathlib.Data.List.Induction
import Mathlib.Data.List.Perm.Subperm

/-!
# The kept digests are those of the reference

A trie is coherent if it keeps the digest of every subtree with two or more leaves, and no other,
each being the reference of its leaves, and its root is the reference of all of them. A rehash
restores coherence after any change that adds or replaces leaves at its labels: a subtree outside
their paths has the leaves it had, and the others are recomputed from the bottom upwards, so the
digests below one are right when its turn comes.
-/
namespace AuthDict.Trie

/-- The name of a subtree with two or more leaves. -/
structure IsBranch (leaves : OrderedMap Label Commitment) (key : NodeKey) : Prop where
  canonical : key.floor.floor key.depth = key.floor
  two_le : 2 ≤ (under leaves key.floor key.depth).length

/-- What is kept for a name is what should be. -/
def KeepsAt (leaves : OrderedMap Label Commitment) (nodes : OrderedMap NodeKey Digest)
    (key : NodeKey) : Prop :=
  ∀ digest, nodes.get? key = some digest ↔
    IsBranch leaves key ∧ digest = reference leaves key.floor key.depth

structure Coherent (t : Trie) : Prop where
  keeps : ∀ key, KeepsAt t.leaves t.nodes key
  root : t.root = leavesDigest 256 t.leaves.entries

variable {leaves old : OrderedMap Label Commitment} {nodes : OrderedMap NodeKey Digest}
  {label : Label} {depth : Nat} {key : NodeKey}

theorem isBranch_of : IsBranch leaves (.of label depth) ↔ 2 ≤ (under leaves label depth).length := by
  constructor
  · intro h
    have htwo := h.two_le
    simpa [NodeKey.of] using htwo
  · intro h
    constructor
    · exact label.floor_floor depth
    · simpa [NodeKey.of] using h

theorem reference_floor : reference leaves (label.floor depth) depth = reference leaves label depth := by
  simp [reference]

theorem soundFrom_of_keepsAt (h : ∀ key, depth ≤ key.depth → KeepsAt leaves nodes key) :
    SoundFrom leaves nodes depth := by
  intro label deeper digest hle hget
  obtain ⟨-, hdigest⟩ := (h (.of label deeper) hle digest).1 hget
  rw [hdigest]
  exact reference_floor

theorem mem_branchesAbove {levels : Nat} (hlevels : levels ≤ 256) :
    key ∈ branchesAbove leaves label levels ↔
      ∃ depth, 256 - levels ≤ depth ∧ key = .of label depth ∧
        2 ≤ (under leaves label depth).length := by
  induction levels with
  | zero =>
    simp only [branchesAbove, List.not_mem_nil, false_iff]
    rintro ⟨depth, hdepth, -, htwo⟩
    have hlt := lt_of_two_le htwo
    omega
  | succ levels ih =>
    have hrest := ih (by omega)
    rw [branchesAbove]
    split
    · next hsubtree =>
      have htwo := subtree_eq_branch.1 hsubtree
      rw [List.mem_cons, hrest]
      constructor
      · rintro (rfl | ⟨depth, hdepth, hkey, h⟩)
        · exact ⟨255 - levels, by omega, rfl, htwo⟩
        · exact ⟨depth, by omega, hkey, h⟩
      · rintro ⟨depth, hdepth, hkey, h⟩
        by_cases hd : depth = 255 - levels
        · subst hd
          exact .inl hkey
        · exact .inr ⟨depth, by omega, hkey, h⟩
    · next hsubtree =>
      -- Deeper subtrees have no more leaves than this one.
      simp only [List.not_mem_nil, false_iff]
      rintro ⟨depth, hdepth, -, htwo⟩
      have hle := @length_under_le leaves label depth (255 - levels) (by omega)
      exact hsubtree (subtree_eq_branch.2 (by omega))

theorem mem_keys_foldl_insert {keys : List NodeKey} {m : OrderedMap NodeKey Unit} :
    key ∈ (keys.foldl (fun m k => m.insert k ()) m).keys ↔ key ∈ keys ∨ key ∈ m.keys := by
  induction keys generalizing m with
  | nil => simp
  | cons k keys ih =>
    have hinsert : key ∈ (m.insert k ()).keys ↔ key = k ∨ key ∈ m.keys := by
      by_cases h : key = k
      · subst h
        simp [OrderedMap.mem_keys]
      · simp [OrderedMap.mem_keys, OrderedMap.get?_insert_of_ne m () h, h]
    rw [List.foldl_cons, ih, hinsert, List.mem_cons]
    exact or_left_comm.trans or_assoc.symm

/-- The subtrees to recompute are those with two or more leaves on the paths of the labels. -/
theorem mem_dirtyKeys {labels : List Label} :
    key ∈ (dirtyKeys leaves labels).keys ↔
      IsBranch leaves key ∧ ∃ l ∈ labels, l.floor key.depth = key.floor := by
  have hfold : ∀ m : OrderedMap NodeKey Unit,
      key ∈ (labels.foldl (fun keys label =>
        (branchesAbove leaves label 256).foldl (fun ks k => ks.insert k ()) keys) m).keys ↔
        (∃ l ∈ labels, key ∈ branchesAbove leaves l 256) ∨ key ∈ m.keys := by
    induction labels with
    | nil => simp
    | cons l labels ih =>
      intro m
      rw [List.foldl_cons, ih, mem_keys_foldl_insert]
      simp only [List.mem_cons, exists_eq_or_imp]
      exact or_left_comm.trans or_assoc.symm
  have hempty : key ∉ (∅ : OrderedMap NodeKey Unit).keys := by
    simp [OrderedMap.keys, show (∅ : OrderedMap NodeKey Unit).entries = [] from OrderedMap.entries_empty]
  rw [dirtyKeys, hfold ∅, or_iff_left hempty]
  constructor
  · rintro ⟨l, hl, hkey⟩
    obtain ⟨depth, -, rfl, htwo⟩ := (mem_branchesAbove (Nat.le_refl 256)).1 hkey
    exact ⟨isBranch_of.2 htwo, l, hl, rfl⟩
  · rintro ⟨hbranch, l, hl, hfloor⟩
    refine ⟨l, hl, (mem_branchesAbove (Nat.le_refl 256)).2 ⟨key.depth, by omega, ?_, ?_⟩⟩
    · rw [NodeKey.of, hfloor]
    · have htwo := hbranch.two_le
      rwa [← hfloor, under_floor] at htwo

theorem halvesDigest_eq (hbranch : IsBranch leaves key)
    (h : ∀ k, key.depth < k.depth → KeepsAt leaves nodes k) :
    halvesDigest leaves nodes key = reference leaves key.floor key.depth := by
  have hd := lt_of_two_le hbranch.two_le
  have hsound : SoundFrom leaves nodes (key.depth + 1) := by
    apply soundFrom_of_keepsAt
    intro k hk
    exact h k hk
  have hbit : key.floor.bit key.depth = false := by
    rw [← hbranch.canonical]
    exact Label.bit_floor _ _
  rw [halvesDigest, subtreeDigest_eq hd hsound, subtreeDigest_eq hd hsound,
    reference_branch hd hbranch.two_le rfl hbit (Label.floor_flip _ _)]
  rw [Label.bit_flip _ hd, hbit]
  rfl

theorem keepsAt_insert_self (h : IsBranch leaves key) :
    KeepsAt leaves (nodes.insert key (reference leaves key.floor key.depth)) key := by
  intro digest
  rw [OrderedMap.get?_insert_self, Option.some.injEq, and_iff_right h]
  exact eq_comm

theorem KeepsAt.insert_of_ne {k : NodeKey} {digest : Digest} (h : KeepsAt leaves nodes k)
    (hne : k ≠ key) : KeepsAt leaves (nodes.insert key digest) k := by
  intro kept
  rw [OrderedMap.get?_insert_of_ne _ _ hne]
  exact h kept

/-- What is pending is made right, deepest first. -/
theorem keepsAt_foldl {pending : List NodeKey}
    (hsorted : pending.Pairwise fun a b => b.depth ≤ a.depth)
    (hbranch : ∀ k ∈ pending, IsBranch leaves k) (h : ∀ k, k ∉ pending → KeepsAt leaves nodes k)
    (k : NodeKey) :
    KeepsAt leaves (pending.foldl
      (fun nodes key => nodes.insert key (halvesDigest leaves nodes key)) nodes) k := by
  induction pending generalizing nodes with
  | nil => exact h k (by simp)
  | cons key rest ih =>
    obtain ⟨hfirst, hrest⟩ := List.pairwise_cons.1 hsorted
    have hkey := hbranch key List.mem_cons_self
    -- Nothing below this subtree is pending any more.
    have hbelow : ∀ k, key.depth < k.depth → KeepsAt leaves nodes k := by
      intro k hk
      apply h k
      intro hmem
      rcases List.mem_cons.1 hmem with rfl | hmem
      · omega
      · have hle := hfirst k hmem
        omega
    have hnext : ∀ k, k ∉ rest →
        KeepsAt leaves (nodes.insert key (halvesDigest leaves nodes key)) k := by
      intro k hk
      rw [halvesDigest_eq hkey hbelow]
      by_cases hne : k = key
      · subst hne
        exact keepsAt_insert_self hkey
      · have hkeeps := h k (by simp [hne, hk])
        exact hkeeps.insert_of_ne hne
    rw [List.foldl_cons]
    exact ih hrest (fun k hk => hbranch k (List.mem_cons_of_mem _ hk)) hnext

theorem depth_le_of_lt {a b : NodeKey} (h : compare a b = .lt) : a.depth ≤ b.depth := by
  have hthen : (compare a.depth b.depth).then (compare a.floor b.floor) = .lt := h
  rcases Ordering.then_eq_lt.1 hthen with hlt | ⟨heq, -⟩
  · exact Nat.le_of_lt (Nat.compare_eq_lt.1 hlt)
  · exact Nat.le_of_eq (Nat.compare_eq_eq.1 heq)

theorem sorted_dirtyKeys (leaves : OrderedMap Label Commitment) (labels : List Label) :
    (dirtyKeys leaves labels).keys.reverse.Pairwise fun a b => b.depth ≤ a.depth := by
  rw [List.pairwise_reverse]
  exact (OrderedMap.sorted_keys _).imp depth_le_of_lt

/-- A subtree that is on the path of no changed label has the leaves it had. -/
theorem under_eq_of_untouched {labels : List Label}
    (hsame : ∀ l, l ∉ labels → leaves.get? l = old.get? l)
    (hpath : ∀ l ∈ labels, l.floor depth ≠ label.floor depth) :
    under leaves label depth = under old label depth := by
  let below (l : Label) : Bool := l.floor depth = label.floor depth
  apply OrderedMap.filter_entries_congr (p := below)
  intro l hl
  apply hsame l
  intro hmem
  exact hpath l hmem (of_decide_eq_true hl)

theorem length_under_mono (hgrow : ∀ l, (old.get? l).isSome = true → (leaves.get? l).isSome = true)
    (label : Label) (depth : Nat) :
    (under old label depth).length ≤ (under leaves label depth).length := by
  have hnodup : ((under old label depth).map (·.1)).Nodup :=
    old.nodup_keys.sublist (List.filter_sublist.map _)
  have hsub : (under old label depth).map (·.1) ⊆ (under leaves label depth).map (·.1) := by
    intro l hl
    obtain ⟨⟨l, c⟩, he, rfl⟩ := List.mem_map.1 hl
    obtain ⟨hentry, hfloor⟩ := mem_under.1 he
    have hsome := hgrow l (by rw [OrderedMap.get?_eq_some_iff.2 hentry]; rfl)
    obtain ⟨c', hc'⟩ := Option.isSome_iff_exists.1 hsome
    exact List.mem_map.2 ⟨(l, c'), mem_under.2 ⟨OrderedMap.get?_eq_some_iff.1 hc', hfloor⟩, rfl⟩
  have hle := (List.subperm_of_subset hnodup hsub).length_le
  simpa using hle

/-- What is kept for a subtree that is not recomputed stays right. -/
theorem keepsAt_of_not_dirty {labels : List Label} (hold : KeepsAt old nodes key)
    (hsame : ∀ l, l ∉ labels → leaves.get? l = old.get? l)
    (hgrow : ∀ l, (old.get? l).isSome = true → (leaves.get? l).isSome = true)
    (hclean : key ∉ (dirtyKeys leaves labels).keys) : KeepsAt leaves nodes key := by
  by_cases hpath : ∃ l ∈ labels, l.floor key.depth = key.floor
  · -- A clean subtree on a path has one leaf at most, and had no more before.
    have hnew : ¬IsBranch leaves key := fun h => hclean (mem_dirtyKeys.2 ⟨h, hpath⟩)
    have hbefore : ¬IsBranch old key := by
      intro h
      have hle := length_under_mono hgrow key.floor key.depth
      exact hnew ⟨h.canonical, Nat.le_trans h.two_le hle⟩
    intro digest
    rw [hold digest]
    simp [hnew, hbefore]
  · by_cases hcanonical : key.floor.floor key.depth = key.floor
    · have hunder : under leaves key.floor key.depth = under old key.floor key.depth := by
        apply under_eq_of_untouched hsame
        intro l hl hfloor
        exact hpath ⟨l, hl, hfloor.trans hcanonical⟩
      have hbranch : IsBranch leaves key ↔ IsBranch old key := by
        constructor
        · intro h
          exact ⟨hcanonical, hunder ▸ h.two_le⟩
        · intro h
          exact ⟨hcanonical, hunder ▸ h.two_le⟩
      intro digest
      rw [hold digest, hbranch, reference, reference, hunder]
    · intro digest
      rw [hold digest]
      constructor
      · intro h
        exact absurd h.1.canonical hcanonical
      · intro h
        exact absurd h.1.canonical hcanonical

theorem coherent_rehash {t : Trie} {labels : List Label} (hold : ∀ key, KeepsAt old t.nodes key)
    (hsame : ∀ l, l ∉ labels → t.leaves.get? l = old.get? l)
    (hgrow : ∀ l, (old.get? l).isSome = true → (t.leaves.get? l).isSome = true) :
    Coherent (t.rehash labels) := by
  have hkeeps : ∀ key, KeepsAt t.leaves (t.rehash labels).nodes key := by
    refine keepsAt_foldl (sorted_dirtyKeys t.leaves labels) ?_ ?_
    · intro k hk
      exact (mem_dirtyKeys.1 (List.mem_reverse.1 hk)).1
    · intro k hk
      exact keepsAt_of_not_dirty (hold k) hsame hgrow (mt List.mem_reverse.2 hk)
  constructor
  · exact hkeeps
  · have hsound := soundFrom_of_keepsAt fun key (_ : 0 ≤ key.depth) => hkeeps key
    have hroot := subtreeDigest_eq (Nat.zero_le 256) hsound (Block.zero 32)
    rwa [reference, under_zero] at hroot

theorem keepsAt_empty (key : NodeKey) : KeepsAt ∅ ∅ key := by
  intro digest
  have hentries : (∅ : OrderedMap Label Commitment).entries = [] := OrderedMap.entries_empty
  have hnone : (∅ : OrderedMap NodeKey Digest).get? key = none := OrderedMap.get?_empty key
  rw [hnone]
  constructor
  · intro h
    contradiction
  · rintro ⟨h, -⟩
    have htwo := h.two_le
    simp [under, hentries] at htwo

theorem coherent_empty : Coherent {} := by
  constructor
  · exact keepsAt_empty
  · have hentries : (∅ : OrderedMap Label Commitment).entries = [] := OrderedMap.entries_empty
    simp [hentries]

theorem coherent_ofLeaves (epoch : Epoch) (es : List (Label × Commitment)) :
    Coherent (ofLeaves epoch es) := by
  refine coherent_rehash keepsAt_empty ?_ ?_
  · intro l hl
    have hnone : (∅ : OrderedMap Label Commitment).get? l = none := OrderedMap.get?_empty l
    rw [hnone, Option.eq_none_iff_forall_ne_some]
    intro c hc
    exact hl (OrderedMap.mem_keys.2 ⟨c, hc⟩)
  · intro l hl
    have hnone : (∅ : OrderedMap Label Commitment).get? l = none := OrderedMap.get?_empty l
    rw [hnone] at hl
    contradiction

theorem epoch_applyBatch {us : List Update} (t : Trie) (hne : us ≠ []) :
    (t.applyBatch us).1.epoch = t.epoch + 1 := by
  rw [applyBatch, if_neg (by simpa using hne)]
  rfl

theorem toNat_epoch_applyBatch {us : List Update} {t : Trie}
    (hepoch : t.epoch.toNat < 2 ^ 64 - 1) (hne : us ≠ []) :
    (t.applyBatch us).1.epoch.toNat = t.epoch.toNat + 1 := by
  rw [epoch_applyBatch t hne, UInt64.toNat_add]
  exact Nat.mod_eq_of_lt (Nat.add_lt_of_lt_sub hepoch)

theorem leaves_applyBatch (t : Trie) (us : List Update) :
    (t.applyBatch us).1.leaves = t.leaves.insertAll (us.map fun u => (u.label, u.commitment)) := by
  unfold applyBatch
  split
  · next hempty =>
    rw [List.isEmpty_iff.1 hempty]
    rfl
  · simp only [rehash, OrderedMap.insertAll, List.foldl_map]

theorem Coherent.applyBatch {t : Trie} (h : Coherent t) (us : List Update) :
    Coherent (t.applyBatch us).1 := by
  have hleaves := leaves_applyBatch t us
  unfold Trie.applyBatch at hleaves ⊢
  split
  · exact h
  · next hus =>
    rw [if_neg hus] at hleaves
    have hlabels : (us.map fun u => (u.label, u.commitment)).map (·.1) = us.map (·.label) := by
      rw [List.map_map]
      rfl
    refine coherent_rehash h.keeps ?_ ?_
    · intro l hl
      rw [← hlabels] at hl
      exact (congrArg (OrderedMap.get? · l) hleaves).trans (OrderedMap.get?_insertAll_of_notMem hl)
    · intro l hl
      have hsome := OrderedMap.isSome_get?_insertAll hl (us.map fun u => (u.label, u.commitment))
      rw [← hleaves] at hsome
      exact hsome

/-- The commitment of the last update of a label in a batch. -/
def lastCommitment? (us : List Update) (label : Label) : Option Commitment :=
  (us.reverse.find? fun u => u.label = label).map (·.commitment)

theorem lastCommitment?_eq_none {us : List Update} (h : label ∉ us.map (·.label)) :
    lastCommitment? us label = none := by
  have hnone : (us.reverse.find? fun u => u.label = label) = none := by
    simp only [List.find?_eq_none, List.mem_reverse, decide_eq_true_eq]
    intro u hu hlabel
    exact h (List.mem_map.2 ⟨u, hu, hlabel⟩)
  rw [lastCommitment?, hnone]
  rfl

theorem exists_lastCommitment? {us : List Update} {u : Update} (hu : u ∈ us) :
    ∃ v ∈ us, v.label = u.label ∧ lastCommitment? us u.label = some v.commitment := by
  have hsome : (us.reverse.find? fun v => v.label = u.label).isSome = true :=
    List.find?_isSome.2 ⟨u, List.mem_reverse.2 hu, decide_eq_true rfl⟩
  obtain ⟨v, hfound⟩ := Option.isSome_iff_exists.1 hsome
  have hlabel : v.label = u.label := by simpa using List.find?_some hfound
  have hmem : v ∈ us := List.mem_reverse.1 (List.mem_of_find?_eq_some hfound)
  refine ⟨v, hmem, hlabel, ?_⟩
  rw [lastCommitment?, hfound]
  rfl

/-- Among distinct labels every update is the last one of its own. -/
theorem lastCommitment?_of_nodup {us : List Update} {u : Update}
    (hlabels : (us.map (·.label)).Nodup) (hu : u ∈ us) :
    lastCommitment? us u.label = some u.commitment := by
  obtain ⟨v, hv, hlabel, hlast⟩ := exists_lastCommitment? hu
  have hsame : v = u := List.inj_on_of_nodup_map hlabels hv hu hlabel
  rw [hlast, hsame]

/-- A batch decides on its own labels, by their last updates, and leaves all others alone. -/
theorem get?_applyBatch (t : Trie) (us : List Update) (label : Label) :
    (t.applyBatch us).1.get? label = (lastCommitment? us label).or (t.get? label) := by
  have hget := OrderedMap.get?_insertAll t.leaves (us.map fun u => (u.label, u.commitment)) label
  rw [get?, leaves_applyBatch, hget, ← List.map_reverse, List.find?_map, lastCommitment?]
  change (Option.map _ (us.reverse.find? fun u => u.label = label)).elim _ _ = _
  cases us.reverse.find? fun u => u.label = label with
  | none => rfl
  | some u => rfl

/-- Every update of a batch is in the trie, or a later one of the same label. -/
theorem exists_get?_applyBatch {us : List Update} {u : Update} (hu : u ∈ us) (t : Trie) :
    ∃ v ∈ us, v.label = u.label ∧ (t.applyBatch us).1.get? u.label = some v.commitment := by
  obtain ⟨v, hv, hlabel, hlast⟩ := exists_lastCommitment? hu
  refine ⟨v, hv, hlabel, ?_⟩
  rw [get?_applyBatch, hlast, Option.some_or]

/-- The trie that some batches lead to, each of them applied as one epoch. -/
def applyBatches (t : Trie) (batches : List (List Update)) : Trie :=
  batches.foldl (fun trie batch => (trie.applyBatch batch).1) t

theorem applyBatches_concat (t : Trie) (batches : List (List Update)) (batch : List Update) :
    t.applyBatches (batches ++ [batch]) = ((t.applyBatches batches).applyBatch batch).1 :=
  List.foldl_concat ..

theorem epoch_applyBatches (t : Trie) {batches : List (List Update)}
    (h : ∀ batch ∈ batches, batch ≠ []) :
    (t.applyBatches batches).epoch = t.epoch + UInt64.ofNat batches.length := by
  induction batches using List.reverseRecOn with
  | nil => exact (UInt64.add_zero t.epoch).symm
  | append_singleton batches batch ih =>
    obtain ⟨hbatches, hbatch⟩ := List.forall_mem_append.1 h
    have hne : batch ≠ [] := hbatch batch List.mem_cons_self
    rw [applyBatches_concat, epoch_applyBatch _ hne, ih hbatches, List.length_append,
      UInt64.ofNat_add, UInt64.add_assoc]
    rfl

/-- The updates of a batch are written one after the other. -/
theorem leaves_applyBatch_eq_foldl (t : Trie) (us : List Update) :
    (t.applyBatch us).1.leaves =
      us.foldl (fun leaves u => leaves.insert u.label u.commitment) t.leaves := by
  rw [leaves_applyBatch, OrderedMap.insertAll, List.foldl_map]

theorem leaves_applyBatches (t : Trie) (batches : List (List Update)) :
    (t.applyBatches batches).leaves =
      batches.flatten.foldl (fun leaves u => leaves.insert u.label u.commitment) t.leaves := by
  induction batches generalizing t with
  | nil => rfl
  | cons batch batches ih =>
    rw [List.flatten_cons, List.foldl_append, ← leaves_applyBatch_eq_foldl]
    exact ih _

end AuthDict.Trie
