import AuthDict.Proofs.Dictionary.Operations
import AuthDict.Proofs.OrderedMap
import AuthDict.Proofs.Trie.Rehash
import Mathlib.Data.List.Perm.Basic

/-!
# The balance of a dictionary

Seen from far enough, three things happen to the holdings of a dictionary: entries are stored and
their updates queued, a cycle runs, and queriers are opened, refreshed or forgotten. The log of a
run lists the entries stored so far. The invariant `Balanced` accounts for each of them: it is the
stored element of its key, and its update is a leaf of the stored trie, or waits, or was lost with a
discarded batch.

The updates are only told apart by their labels, so that part rests on distinct keys having
distinct labels.
-/
namespace AuthDict

/-- The leaves of a trie as updates. -/
def Trie.updates (t : Trie) : List Update := t.leaves.entries.map fun e => ⟨e.1, e.2⟩

theorem Trie.mem_updates {t : Trie} {label : Label} {c : Commitment} :
    (⟨label, c⟩ : Update) ∈ t.updates ↔ t.get? label = some c := by
  rw [Trie.get?, OrderedMap.get?_eq_some_iff, Trie.updates, List.mem_map]
  constructor
  · rintro ⟨⟨l, c'⟩, he, heq⟩
    cases heq
    exact he
  · intro he
    exact ⟨_, he, rfl⟩

namespace Holdings

/-- Entries with keys of their own, all free before, are added to the elements. -/
structure Stored (old : Bytes → Option StoredElement) (es : List Entry)
    (new : Bytes → Option StoredElement) : Prop where
  distinct : (es.map (·.key)).Nodup
  free : ∀ e ∈ es, old e.key = .none
  some_iff : ∀ {key element}, new key = some element ↔
    old key = some element ∨ ∃ e ∈ es, e.key = key ∧ e.element = element

/-- One thing that happens to what is held, with the entries that are newly stored. -/
inductive Step (updateOf : Entry → Update) (policy : FailurePolicy) :
    Holdings → List Entry → Holdings → Prop
  | store {h : Holdings} {es : List Entry} {elements : Bytes → Option StoredElement}
      {us : List Update} : Stored h.elements es elements → us.Perm (es.map updateOf) →
      Step updateOf policy h es { h with elements, queue := h.queue ++ us }
  | cycle {h h' : Holdings} {r : Except Error ApplyOutcome} : h.Cycle policy r h' →
      Step updateOf policy h [] h'
  | look {h : Holdings} (pool : Option QuerierPool) : Step updateOf policy h [] { h with pool }

/-- Some steps, one after the other, with the log of what they store. -/
inductive Steps (updateOf : Entry → Update) (policy : FailurePolicy) (h : Holdings) :
    List Entry → Holdings → Prop
  | refl : Steps updateOf policy h [] h
  | tail {es fs : List Entry} {h' h'' : Holdings} : Steps updateOf policy h es h' →
      Step updateOf policy h' fs h'' → Steps updateOf policy h (es ++ fs) h''

variable {updateOf : Entry → Update} {policy : FailurePolicy} {h h' : Holdings}
  {log es fs : List Entry} {a b c : Bytes → Option StoredElement}

theorem Step.steps (hs : Step updateOf policy h es h') : Steps updateOf policy h es h' :=
  .tail .refl hs

theorem Recorded.pool_eq {rs : List CycleRecord} (hc : Recorded policy h rs h') :
    h'.pool = h.pool := by
  induction hc with
  | refl => rfl
  | tail _ hcycle ih =>
    rw [← ih]
    cases hcycle <;> rfl

theorem Recorded.steps {rs : List CycleRecord} (hc : Recorded policy h rs h') :
    Steps updateOf policy h [] h' := by
  induction hc with
  | refl => exact .refl
  | tail _ hcycle ih => exact ih.tail (.cycle hcycle)

theorem Stored.nil (a : Bytes → Option StoredElement) : Stored a [] a :=
  ⟨List.nodup_nil, by simp, by simp⟩

theorem Stored.perm (hs : Stored a es b) (hp : es.Perm fs) : Stored a fs b where
  distinct := (hp.map _).nodup_iff.1 hs.distinct
  free e he := hs.free e (hp.mem_iff.2 he)
  some_iff {key element} := by
    rw [hs.some_iff]
    simp only [hp.mem_iff]

theorem Stored.append (hs : Stored a es b) (ht : Stored b fs c) : Stored a (es ++ fs) c where
  distinct := by
    rw [List.map_append]
    refine List.Nodup.append hs.distinct ht.distinct fun key he hf => ?_
    obtain ⟨e, hmem, rfl⟩ := List.mem_map.1 he
    obtain ⟨f, hmem', hkey⟩ := List.mem_map.1 hf
    have hfree := ht.free f hmem'
    rw [hkey, hs.some_iff.2 (.inr ⟨e, hmem, rfl, rfl⟩)] at hfree
    contradiction
  free e he := by
    rcases List.mem_append.1 he with he | he
    · exact hs.free e he
    · cases hold : a e.key with
      | none => rfl
      | some element =>
        have hfree := ht.free e he
        rw [hs.some_iff.2 (.inl hold)] at hfree
        contradiction
  some_iff {key element} := by
    rw [ht.some_iff, hs.some_iff]
    simp only [List.mem_append, or_and_right, exists_or, or_assoc]

theorem Stored.withElement {e : Entry} (hfree : h.elements e.key = .none) :
    Stored h.elements [e] (h.withElement e.key e.element).elements where
  distinct := List.nodup_singleton _
  free := by simpa using hfree
  some_iff {key element} := by
    by_cases hk : key = e.key
    · subst hk
      simp [Holdings.withElement, hfree]
    · simp [Holdings.withElement, hk, Ne.symm hk]

/-- The entries are told apart by their labels. -/
def LabelsApart (updateOf : Entry → Update) (log : List Entry) : Prop :=
  ∀ a ∈ log, ∀ b ∈ log, (updateOf a).label = (updateOf b).label → a = b

structure Balanced (updateOf : Entry → Update) (policy : FailurePolicy) (log : List Entry)
    (h : Holdings) : Prop where
  stored : Stored (fun _ => .none) log h.elements
  /-- Updates are lost only when failed batches are discarded. -/
  accounts : LabelsApart updateOf log → ∃ lost, (policy = .requeue → lost = []) ∧
    (h.current.updates ++ h.queue ++ lost).Perm (log.map updateOf)

theorem LabelsApart.left (hl : LabelsApart updateOf (log ++ es)) : LabelsApart updateOf log :=
  fun a ha b hb => hl a (List.mem_append_left _ ha) b (List.mem_append_left _ hb)

theorem Stored.labels_nodup (hs : Stored a log b) (hl : LabelsApart updateOf log) :
    ((log.map updateOf).map (·.label)).Nodup := by
  rw [List.map_map]
  exact List.Nodup.map_on (fun x hx y hy he => hl x hx y hy he) hs.distinct.of_map

end Holdings

namespace Trie

/-- A batch under new labels of their own adds its updates to the leaves. -/
theorem updates_applyBatch_perm {t : Trie} {us : List Update}
    (hlabels : ((t.updates ++ us).map (·.label)).Nodup) :
    (t.applyBatch us).1.updates.Perm (t.updates ++ us) := by
  have hpair : (us.map fun u => (u.label, u.commitment)).map (·.1) = us.map (·.label) := by
    rw [List.map_map]
    rfl
  rw [List.map_append] at hlabels
  obtain ⟨-, hus, hdisjoint⟩ := List.nodup_append.1 hlabels
  have hfree : ∀ e ∈ us.map fun u => (u.label, u.commitment), t.leaves.get? e.1 = none := by
    intro e he
    obtain ⟨u, hu, rfl⟩ := List.mem_map.1 he
    refine OrderedMap.get?_eq_none_iff.2 fun v hv => ?_
    refine hdisjoint u.label ?_ u.label (List.mem_map_of_mem hu) rfl
    exact List.mem_map.2 ⟨⟨u.label, v⟩, List.mem_map.2 ⟨_, hv, rfl⟩, rfl⟩
  have hperm := OrderedMap.entries_insertAll_perm (hpair ▸ hus) hfree
  rw [updates, leaves_applyBatch]
  apply (hperm.map _).trans
  rw [List.map_append, List.map_map]
  simp [updates, Function.comp_def]

end Trie

namespace Holdings

variable {updateOf : Entry → Update} {policy : FailurePolicy} {h h' : Holdings}
  {log es : List Entry}

theorem Balanced.none : Balanced updateOf policy [] Holdings.none where
  stored := .nil _
  accounts _ := ⟨[], fun _ => rfl, by simp [Holdings.none, current, Trie.updates,
    show ({} : Trie).leaves.entries = [] from OrderedMap.entries_empty]⟩

/-- A batch that is applied moves from the queue to the leaves. -/
theorem Stored.perm_next (hs : Stored (fun _ => .none) log h.elements)
    (hapart : LabelsApart updateOf log) {out : List Update}
    (hperm : (h.current.updates ++ h.queue ++ out).Perm (log.map updateOf)) :
    (h.next.updates ++ out).Perm (log.map updateOf) := by
  have hlabels := (hperm.map (·.label)).nodup_iff.2 (hs.labels_nodup hapart)
  rw [List.map_append] at hlabels
  have hnext := Trie.updates_applyBatch_perm hlabels.of_append_left
  exact (hnext.append_right out).trans hperm

/-- A cycle moves the queue into the trie, keeps it, or loses it. -/
theorem Balanced.cycle (hb : Balanced updateOf policy log h) {r : Except Error ApplyOutcome}
    (hc : h.Cycle policy r h') : Balanced updateOf policy log h' := by
  cases hc with
  | idle _ => exact hb
  | requeued _ _ _ => exact hb
  | applied _ =>
    refine ⟨hb.stored, fun hl => ?_⟩
    obtain ⟨lost, hlost, hperm⟩ := hb.accounts hl
    refine ⟨lost, hlost, ?_⟩
    rw [List.append_nil]
    exact hb.stored.perm_next hl hperm
  | discarded _ _ hp =>
    refine ⟨hb.stored, fun hl => ?_⟩
    obtain ⟨lost, -, hperm⟩ := hb.accounts hl
    refine ⟨h.queue ++ lost, fun hr => ?_, ?_⟩
    · rw [hp] at hr
      contradiction
    · rw [List.append_nil, ← List.append_assoc]
      exact hperm

/-- The next trie has the leaves of the current one and the updates that wait. -/
theorem Balanced.updates_next_perm (hb : Balanced updateOf policy log h)
    (hl : LabelsApart updateOf log) : h.next.updates.Perm (h.current.updates ++ h.queue) := by
  obtain ⟨lost, -, hperm⟩ := hb.accounts hl
  have hlabels := (hperm.map (·.label)).nodup_iff.2 (hb.stored.labels_nodup hl)
  rw [List.map_append] at hlabels
  exact Trie.updates_applyBatch_perm hlabels.of_append_left

theorem Balanced.updates_subset (hb : Balanced updateOf policy log h)
    (hl : LabelsApart updateOf log) : h.current.updates ⊆ log.map updateOf := by
  obtain ⟨lost, -, hperm⟩ := hb.accounts hl
  intro u hu
  exact hperm.subset (List.mem_append_left _ (List.mem_append_left _ hu))

theorem Step.coherent (hs : Step updateOf policy h es h') (hc : h.current.Coherent) :
    h'.current.Coherent := by
  cases hs with
  | store _ _ => exact hc
  | cycle hcycle =>
    cases hcycle with
    | idle _ => exact hc
    | applied _ => exact hc.applyBatch h.queue
    | requeued _ _ _ => exact hc
    | discarded _ _ _ => exact hc
  | look _ => exact hc

theorem Steps.coherent (hs : Steps updateOf policy h es h') (hc : h.current.Coherent) :
    h'.current.Coherent := by
  induction hs with
  | refl => exact hc
  | tail _ hstep ih => exact hstep.coherent ih

/-- Each step keeps the balance. -/
theorem Balanced.step (hb : Balanced updateOf policy log h) (hs : Step updateOf policy h es h') :
    Balanced updateOf policy (log ++ es) h' := by
  cases hs with
  | @store _ us elements hstored hus =>
    refine ⟨hb.stored.append hstored, fun hl => ?_⟩
    obtain ⟨lost, hlost, hperm⟩ := hb.accounts hl.left
    refine ⟨lost, hlost, ?_⟩
    rw [List.map_append]
    refine .trans ?_ (hperm.append hus)
    simp only [List.append_assoc]
    exact ((List.perm_append_comm).append_left _).append_left _
  | cycle hc =>
    rw [List.append_nil]
    exact hb.cycle hc
  | look pool =>
    rw [List.append_nil]
    exact ⟨hb.stored, hb.accounts⟩

theorem Balanced.steps (hb : Balanced updateOf policy log h) (hs : Steps updateOf policy h es h') :
    Balanced updateOf policy (log ++ es) h' := by
  induction hs with
  | refl => rwa [List.append_nil]
  | tail _ hstep ih =>
    rw [← List.append_assoc]
    exact ih.step hstep

end Holdings

end AuthDict
