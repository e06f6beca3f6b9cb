import AuthDict.Proofs.Query.Alike
import AuthDict.Proofs.Trie.Evidence
import AuthDict.Proofs.Updater.Journal
import AuthDict.Proofs.Updater.Locks

/-!
# A commit cycle is all or nothing

A cycle ends in one of three ways, and the queue and the backend settle in which. With an empty
queue it touches nothing. If the backend lets both calls pass, the whole queue becomes one epoch of
the stored trie, and the hook is told once. If the backend fails at one of them, the stored trie
stays as it was, the fault is returned, and the batch goes back or is dropped, as the policy says.

In all three, the other dictionaries keep everything, and it does not matter what the hook makes of
the proofs.
-/
namespace AuthDict

namespace Metrics

variable (m : Metrics) {id id' : DictionaryId}

theorem value_set_of_ne (h : id' ≠ id) (metric : Metric) (n : Nat) :
    (m.set id metric n).value id' = m.value id' := by
  funext k
  simp [set, h]

theorem value_add_of_ne (h : id' ≠ id) (metric : Metric) (n : Nat) :
    (m.add id metric n).value id' = m.value id' := m.value_set_of_ne h metric _

end Metrics

/-- The fault that will stop a batch of a dictionary: of the load, which comes first, or of the
save. -/
def Storage.batchFault? (s : Storage) (id : DictionaryId) : Option StorageFault :=
  if s.trieLoads.next.1 then some (.unavailable .loadTrie)
  else if s.trieSaves.next.1 then some (.trieWriteRejected id)
  else none

namespace WriteSide

variable {policy : FailurePolicy} {id : DictionaryId} {w w' : WriteSide}
  {r : Except Error ApplyOutcome}

/-- What the next cycle makes of the stored trie if nothing fails, and the proofs that it gives. -/
def next (w : WriteSide) (id : DictionaryId) : Trie × List AppendProof :=
  (w.stored id).applyBatch (w.pending.queue id)

/-- Nothing was pending. Not even a call of the backend was made. -/
structure Idled (w w' : WriteSide) (r : Except Error ApplyOutcome) : Prop where
  result : r = .ok .idle
  storage : w'.storage = w.storage
  queues : w'.pending.queues = w.pending.queues
  hook : w'.hook = w.hook

/-- The whole queue has become one epoch, and the hook has been told of it once. -/
structure Applied (id : DictionaryId) (w w' : WriteSide) (r : Except Error ApplyOutcome) :
    Prop where
  result : r = .ok (.applied (w.next id).1.epoch (w.next id).1.root (w.pending.queue id).length)
  epoch : (w.next id).1.epoch.toNat = (w.stored id).epoch.toNat + 1
  stored : w'.storage.tries.get? id = some (w.next id).1
  leaves : (w.next id).1.leaves = (w.pending.queue id).foldl
    (fun leaves u => leaves.insert u.label u.commitment) (w.stored id).leaves
  queue : w'.pending.queue id = []
  hook : w'.hook.map (·.deliveries) =
    w.hook.map (·.deliveries ++ [⟨id, (w.next id).1.root, (w.next id).2⟩])
  proofs : (w.next id).2.map (·.update) = w.pending.queue id

/-- The backend has failed, and the batch is where the policy wants it. -/
structure Failed (policy : FailurePolicy) (id : DictionaryId) (fault : StorageFault)
    (w w' : WriteSide) (r : Except Error ApplyOutcome) : Prop where
  result : r = .error (.storage fault)
  tries : w'.storage.tries = w.storage.tries
  hook : w'.hook = w.hook
  requeued : policy = .requeue → w'.pending.queue id = w.pending.queue id
  discarded : policy = .discard → w'.pending.queue id = []

/-- Whatever is kept for other dictionaries is kept as it was. -/
structure KeepsOthers (id : DictionaryId) (w w' : WriteSide) : Prop where
  elements : w'.storage.elements = w.storage.elements
  tries : ∀ id', id' ≠ id → w'.storage.tries.get? id' = w.storage.tries.get? id'
  queues : ∀ id', id' ≠ id → w'.pending.queues.get? id' = w.pending.queues.get? id'
  locks : ∀ id', id' ≠ id →
    w'.pending.applyLocks.locks.get? id' = w.pending.applyLocks.locks.get? id'
  metrics : ∀ id', id' ≠ id → w'.metrics.value id' = w.metrics.value id'

theorem KeepsOthers.trans {v : WriteSide} (h : KeepsOthers id w v) (h' : KeepsOthers id v w') :
    KeepsOthers id w w' where
  elements := h'.elements.trans h.elements
  tries id' hne := (h'.tries id' hne).trans (h.tries id' hne)
  queues id' hne := (h'.queues id' hne).trans (h.queues id' hne)
  locks id' hne := (h'.locks id' hne).trans (h.locks id' hne)
  metrics id' hne := (h'.metrics id' hne).trans (h.metrics id' hne)

/-- Whatever the hook makes of it, it is told of an applied batch once. -/
theorem deliveries_finish (w : WriteSide) (id : DictionaryId) (trie : Trie)
    (proofs : List AppendProof) (updates : Nat) :
    (w.finish id trie proofs updates).hook.map (·.deliveries) =
      w.hook.map (·.deliveries ++ [⟨id, trie.root, proofs⟩]) := by
  cases hhook : w.hook with
  | none => simp [finish, hhook]
  | some hook =>
    cases haccepts : hook.accepts with
    | true => simp [finish, ApplyHook.onApplied, hhook, haccepts]
    | false => simp [finish, ApplyHook.onApplied, hhook, haccepts]

theorem keepsOthers_drained (w : WriteSide) {s : Storage}
    (helements : s.elements = w.storage.elements)
    (htries : ∀ id', id' ≠ id → s.tries.get? id' = w.storage.tries.get? id') :
    KeepsOthers id w { w with pending := w.drained id, storage := s } where
  elements := helements
  tries := htries
  queues id' hne := by
    simp only [drained, PendingTable.drain]
    split
    · exact OrderedMap.get?_insert_of_ne _ _ hne
    · rfl
  locks id' hne := by
    rw [drained, PendingTable.applyLocks_drain]
    exact LockTable.locks_get_of_ne _ hne
  metrics _ _ := rfl

/-- An empty queue stays as it is, also if there is none. -/
theorem queues_drained (h : w.pending.queue id = []) :
    (w.drained id).queues = w.pending.queues := by
  simp only [drained, PendingTable.drain]
  split
  · next hcontains =>
    have hsome : ((w.pending.applyLock id).2.queues.get? id).isSome = true := hcontains
    obtain ⟨us, hus⟩ := Option.isSome_iff_exists.1 hsome
    have hget : w.pending.queues.get? id = some us := hus
    have hnil : us = [] := by simpa [PendingTable.queue, hget] using h
    -- Draining has put an empty queue where one was.
    apply OrderedMap.ext_get?
    intro id'
    by_cases hid : id' = id
    · rw [hid, hget, hnil]
      exact OrderedMap.get?_insert_self ..
    · exact OrderedMap.get?_insert_of_ne _ _ hid
  · rfl

theorem keepsOthers_finish (w : WriteSide) (id : DictionaryId) (trie : Trie)
    (proofs : List AppendProof) (updates : Nat) :
    KeepsOthers id w (w.finish id trie proofs updates) where
  elements := rfl
  tries _ _ := rfl
  queues _ _ := rfl
  locks _ _ := rfl
  metrics id' hne := by
    simp only [finish, Metrics.value_set_of_ne _ hne, Metrics.value_add_of_ne _ hne]

theorem keepsOthers_recover (w : WriteSide) (policy : FailurePolicy) (id : DictionaryId)
    (batch : List Update) : KeepsOthers id w (w.recover policy id batch) where
  elements := by cases policy <;> rfl
  tries _ _ := by cases policy <;> rfl
  queues id' hne := by
    cases policy with
    | requeue =>
      simp only [recover, PendingTable.requeueFront]
      split
      · rfl
      · exact OrderedMap.get?_insert_of_ne _ _ hne
    | discard => rfl
  locks id' _ := by
    rw [(w.recover_spares policy id batch).applyLocks]
  metrics id' hne := by
    cases policy <;>
      simp only [recover, Metrics.value_set_of_ne _ hne, Metrics.value_add_of_ne _ hne]

/-- What becomes of a batch is settled by what the backend has in store for its two calls. -/
theorem result_applyBatch (id : DictionaryId) (batch : List Update) (s : Storage) :
    (applyBatch id batch s).1 = match s.batchFault? id with
      | some fault => .error (.storage fault)
      | none => .ok (((s.tries.get? id).getD {}).applyBatch batch) := by
  simp only [applyBatch, Storage.batchFault?, Action.bind_apply, Storage.loadTrie_eq]
  split_ifs with hload hsave
  · rfl
  · simp [Storage.saveTrie_eq, hsave]
  · simp [Storage.saveTrie_eq, hsave]

theorem applyBatch_of_fault {s : Storage} {fault : StorageFault}
    (h : s.batchFault? id = some fault) (batch : List Update) :
    ∃ s', applyBatch id batch s = (.error (.storage fault), s') ∧ s.Agrees s' := by
  have hresult := result_applyBatch id batch s
  rw [h] at hresult
  rcases hrun : applyBatch id batch s with ⟨r, s'⟩
  obtain rfl : r = .error (.storage fault) := by simpa [hrun] using hresult
  rcases applyBatch_cases hrun with ⟨_, -, hagrees⟩ | ⟨_, -, hok, -⟩
  · exact ⟨s', rfl, hagrees⟩
  · simp at hok

theorem applyBatch_of_noFault {s : Storage} (h : s.batchFault? id = none) (batch : List Update) :
    ∃ out s', out = ((s.tries.get? id).getD {}).applyBatch batch ∧
      applyBatch id batch s = (.ok out, s') ∧ s'.elements = s.elements ∧
      s'.tries = s.tries.insert id out.1 := by
  have hresult := result_applyBatch id batch s
  rw [h] at hresult
  rcases hrun : applyBatch id batch s with ⟨r, s'⟩
  rcases applyBatch_cases hrun with ⟨e, rfl, -⟩ | ⟨out, hout, rfl, helements, htries⟩
  · simp [hrun] at hresult
  · exact ⟨out, s', hout, rfl, helements, htries⟩

theorem idled_of_empty (h : w.pending.queue id = []) (hrun : runCycle policy id w = (r, w')) :
    Idled w w' r ∧ KeepsOthers id w w' := by
  rw [runCycle_idle policy h] at hrun
  obtain ⟨rfl, rfl⟩ := Prod.mk.inj hrun
  exact ⟨⟨rfl, rfl, queues_drained h, rfl⟩, w.keepsOthers_drained rfl fun _ _ => rfl⟩

theorem applied_of_noFault (hepoch : (w.stored id).epoch.toNat < 2 ^ 64 - 1)
    (hne : w.pending.queue id ≠ []) (h : w.storage.batchFault? id = none)
    (hrun : runCycle policy id w = (r, w')) : Applied id w w' r ∧ KeepsOthers id w w' := by
  obtain ⟨out, s, hout, hbatch, helements, htries⟩ :=
    applyBatch_of_noFault h (w.pending.queue id)
  obtain rfl : out = w.next id := hout
  rw [runCycle_applied policy hne hbatch] at hrun
  obtain ⟨rfl, rfl⟩ := Prod.mk.inj hrun
  constructor
  · constructor
    · rfl
    · exact Trie.toNat_epoch_applyBatch hepoch hne
    · show s.tries.get? id = _
      rw [htries, OrderedMap.get?_insert_self]
    · exact Trie.leaves_applyBatch_eq_foldl ..
    · exact w.queue_drained id
    · exact deliveries_finish ..
    · exact Trie.updates_proofs_applyBatch ..
  · have hdrained : KeepsOthers id w { w with pending := w.drained id, storage := s } := by
      apply w.keepsOthers_drained helements
      intro id' hid
      rw [htries, OrderedMap.get?_insert_of_ne _ _ hid]
    exact hdrained.trans (keepsOthers_finish ..)

theorem failed_of_fault {fault : StorageFault} (hne : w.pending.queue id ≠ [])
    (h : w.storage.batchFault? id = some fault) (hrun : runCycle policy id w = (r, w')) :
    Failed policy id fault w w' r ∧ KeepsOthers id w w' := by
  obtain ⟨s, hbatch, hagrees⟩ := applyBatch_of_fault h (w.pending.queue id)
  rw [runCycle_failed policy hne hbatch] at hrun
  obtain ⟨rfl, rfl⟩ := Prod.mk.inj hrun
  obtain ⟨hstorage, hqueue⟩ := w.recover_drained s policy id (w.pending.queue id)
  constructor
  · constructor
    · rfl
    · rw [hstorage]
      exact hagrees.tries
    · cases policy <;> rfl
    · rintro rfl
      exact hqueue
    · rintro rfl
      exact hqueue
  · have hdrained : KeepsOthers id w { w with pending := w.drained id, storage := s } := by
      apply w.keepsOthers_drained hagrees.elements
      intro id' _
      rw [hagrees.tries]
    exact hdrained.trans (keepsOthers_recover ..)

/-- Another hook is told the same, and what it makes of that changes nothing else. -/
theorem runCycle_withHook (policy : FailurePolicy) (id : DictionaryId) (w : WriteSide)
    (hook : Option ApplyHook) :
    (runCycle policy id { w with hook }).1 = (runCycle policy id w).1 ∧
      { (runCycle policy id { w with hook }).2 with hook := (runCycle policy id w).2.hook } =
        (runCycle policy id w).2 := by
  simp only [runCycle]
  split
  · exact ⟨rfl, rfl⟩
  · split
    · exact ⟨rfl, rfl⟩
    · cases policy <;> exact ⟨rfl, rfl⟩

/-- A cycle does nothing, or makes the whole queue one epoch, or leaves the stored trie as it was.
Queue and backend settle in which way it ends, and the hook has no part in it. -/
theorem runCycle_allOrNothing (hepoch : (w.stored id).epoch.toNat < 2 ^ 64 - 1)
    (h : runCycle policy id w = (r, w')) :
    ((w.pending.queue id = [] ∧ Idled w w' r) ∨
      (w.pending.queue id ≠ [] ∧ w.storage.batchFault? id = none ∧ Applied id w w' r) ∨
      (w.pending.queue id ≠ [] ∧ ∃ fault, w.storage.batchFault? id = some fault ∧
        Failed policy id fault w w' r)) ∧
    KeepsOthers id w w' ∧
    ∀ hook, (runCycle policy id { w with hook }).1 = r ∧
      { (runCycle policy id { w with hook }).2 with hook := w'.hook } = w' := by
  have hhook : ∀ hook, (runCycle policy id { w with hook }).1 = r ∧
      { (runCycle policy id { w with hook }).2 with hook := w'.hook } = w' := by
    intro hook
    have hsame := runCycle_withHook policy id w hook
    rw [h] at hsame
    exact hsame
  by_cases hempty : w.pending.queue id = []
  · obtain ⟨hidled, hothers⟩ := idled_of_empty hempty h
    exact ⟨.inl ⟨hempty, hidled⟩, hothers, hhook⟩
  · cases hfault : w.storage.batchFault? id with
    | none =>
      obtain ⟨happlied, hothers⟩ := applied_of_noFault hepoch hempty hfault h
      exact ⟨.inr (.inl ⟨hempty, rfl, happlied⟩), hothers, hhook⟩
    | some fault =>
      obtain ⟨hfailed, hothers⟩ := failed_of_fault hempty hfault h
      exact ⟨.inr (.inr ⟨hempty, fault, rfl, hfailed⟩), hothers, hhook⟩

/-- Two updates of one label wait, the first save will fail, and the hook accepts nothing. -/
def sampleSide : WriteSide where
  pending := ({} : PendingTable).enqueue (Block.zero 16)
    [⟨Block.zero 32, Block.zero 32⟩, ⟨Block.zero 32, emptyDigest⟩]
  storage := { trieSaves := { down := fun call => call == 0 } }
  hook := some { accepts := false }
  metrics := {}

/-- What a first cycle leaves for a second. -/
def sampleRetry : WriteSide := (runCycle .requeue (Block.zero 16) sampleSide).2

theorem runCycle_allOrNothing_sampleSide :
    (sampleSide.stored (Block.zero 16)).epoch.toNat < 2 ^ 64 - 1 ∧
      (sampleRetry.stored (Block.zero 16)).epoch.toNat < 2 ^ 64 - 1 ∧
      (∃ r, runCycle .requeue (Block.zero 16) sampleSide = (r, sampleRetry) ∧
        Failed .requeue (Block.zero 16) (.trieWriteRejected (Block.zero 16)) sampleSide sampleRetry
          r) ∧
      ∃ r w, runCycle .requeue (Block.zero 16) sampleRetry = (r, w) ∧
        Applied (Block.zero 16) sampleRetry w r ∧
        w.hook.map (·.deliveries) = some [⟨Block.zero 16, (sampleRetry.next (Block.zero 16)).1.root,
          (sampleRetry.next (Block.zero 16)).2⟩] ∧
        (sampleRetry.next (Block.zero 16)).2.map (·.update) =
          [⟨Block.zero 32, Block.zero 32⟩, ⟨Block.zero 32, emptyDigest⟩] := by
  have hepoch : (sampleSide.stored (Block.zero 16)).epoch.toNat < 2 ^ 64 - 1 := by decide +kernel
  have hepoch' : (sampleRetry.stored (Block.zero 16)).epoch.toNat < 2 ^ 64 - 1 := by decide +kernel
  have hfault : sampleSide.storage.batchFault? (Block.zero 16) =
      some (.trieWriteRejected (Block.zero 16)) := by decide +kernel
  have hnone : sampleRetry.storage.batchFault? (Block.zero 16) = none := by decide +kernel
  have hqueue : sampleSide.pending.queue (Block.zero 16) ≠ [] := by decide +kernel
  have hqueue' : sampleRetry.pending.queue (Block.zero 16) ≠ [] := by decide +kernel
  obtain ⟨r, hr⟩ : ∃ r, runCycle .requeue (Block.zero 16) sampleSide = (r, sampleRetry) := ⟨_, rfl⟩
  rcases hr' : runCycle .requeue (Block.zero 16) sampleRetry with ⟨r', w⟩
  have hfailed : Failed .requeue (Block.zero 16) (.trieWriteRejected (Block.zero 16)) sampleSide
      sampleRetry r := by
    simpa [hfault, hqueue] using (runCycle_allOrNothing hepoch hr).1
  have happlied : Applied (Block.zero 16) sampleRetry w r' := by
    simpa [hnone, hqueue'] using (runCycle_allOrNothing hepoch' hr').1
  refine ⟨hepoch, hepoch', ⟨r, hr, hfailed⟩, r', w, rfl, happlied, ?_, ?_⟩
  · rw [happlied.hook, hfailed.hook]
    rfl
  · rw [happlied.proofs, hfailed.requeued rfl]
    decide +kernel

end WriteSide

end AuthDict
