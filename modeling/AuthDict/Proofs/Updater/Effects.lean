import AuthDict.Proofs.Dictionary.Writes
import AuthDict.Proofs.Updater.Interleaving

/-!
# What steps do to a dictionary

A dictionary has a queue and a stored trie, and each of them is changed by few of the steps. The
work of a cycle is described by `Work.Effect`, through its own dictionary only, and `Call.Effect`
says of every step what it does to a given dictionary. The cases are those that a proof about one
dictionary has to tell apart.
-/
namespace AuthDict

namespace Storage

theorem loadRoot_agrees (id : DictionaryId) (s : Storage) : s.Agrees (loadRoot id s).2 := by
  have h := loadTrie_agrees id s
  rcases hload : loadTrie id s with ⟨e | _ | trie, s'⟩ <;> rw [hload] at h <;>
    simpa [loadRoot, Action.bind_apply, hload] using h

theorem loadEpoch_agrees (id : DictionaryId) (s : Storage) : s.Agrees (loadEpoch id s).2 := by
  have h := loadTrie_agrees id s
  rcases hload : loadTrie id s with ⟨e | _ | trie, s'⟩ <;> rw [hload] at h <;>
    simpa [loadEpoch, Action.bind_apply, hload] using h

/-- The root that is published is that of the stored trie, or of the empty one. -/
theorem loadRoot_ok {id : DictionaryId} {s s' : Storage} {root : Digest}
    (h : loadRoot id s = (.ok root, s')) : root = ((s.tries.get? id).getD {}).root := by
  rcases Action.bind_cases h with ⟨e, -, he⟩ | ⟨stored, s₁, hload, h⟩
  · contradiction
  · rw [← loadTrie_ok hload]
    cases stored <;> exact (Except.ok.inj (Prod.mk.inj h).1).symm

theorem loadEpoch_ok {id : DictionaryId} {s s' : Storage} {epoch : Epoch}
    (h : loadEpoch id s = (.ok epoch, s')) : epoch = ((s.tries.get? id).getD {}).epoch := by
  rcases Action.bind_cases h with ⟨e, -, he⟩ | ⟨stored, s₁, hload, h⟩
  · contradiction
  · rw [← loadTrie_ok hload]
    cases stored <;> exact (Except.ok.inj (Prod.mk.inj h).1).symm

end Storage

namespace PendingTable

theorem applyLocks_drain (t : PendingTable) (id : DictionaryId) :
    (t.drain id).2.applyLocks = t.applyLocks := by
  unfold drain
  split <;> rfl

theorem applyLocks_requeueFront (t : PendingTable) (id : DictionaryId) (batch : List Update) :
    (t.requeueFront id batch).applyLocks = t.applyLocks := by
  unfold requeueFront
  split <;> rfl

end PendingTable

/-- The batch that the work has saved in its latest step. -/
def Work.justSaved : Work → List (List Update)
  | saved batch _ _ => [batch]
  | _ => []

/-- What a step of the work does to the queue and the stored trie of its own dictionary. -/
inductive Work.Effect (policy : FailurePolicy) :
    Work → List Update → Option Trie → Work → List Update → Option Trie → Prop
  | idle {stored} : Effect policy .begun [] stored (.done (.ok .idle)) [] stored
  | drain {queue stored} : queue ≠ [] → Effect policy .begun queue stored (.drained queue) [] stored
  | load {batch queue stored} :
      Effect policy (.drained batch) queue stored (.loaded batch stored) queue stored
  | loadFails {batch queue stored} (e : Error) :
      Effect policy (.drained batch) queue stored (.failed batch e) queue stored
  | save {batch queue stored} {snapshot : Option Trie} (proofs : List AppendProof) :
      Effect policy (.loaded batch snapshot) queue stored
        (.saved batch ((snapshot.getD {}).applyBatch batch).1 proofs) queue
        (some ((snapshot.getD {}).applyBatch batch).1)
  | saveFails {batch queue stored snapshot} (e : Error) :
      Effect policy (.loaded batch snapshot) queue stored (.failed batch e) queue stored
  | finish {batch trie proofs queue stored} (r : Except Error ApplyOutcome) :
      Effect policy (.saved batch trie proofs) queue stored (.done r) queue stored
  | recover {batch e queue stored} :
      Effect policy (.failed batch e) queue stored (.done (.error e))
        (WriteSide.restored policy batch ++ queue) stored

variable {id : DictionaryId} {policy : FailurePolicy} {work work' : Work} {w w' : WriteSide}

/-- The work of a cycle leaves the locks alone, and the other dictionaries. -/
structure WriteSide.Spares (id : DictionaryId) (w w' : WriteSide) : Prop where
  applyLocks : w'.pending.applyLocks = w.pending.applyLocks
  queue : ∀ id', id' ≠ id → w'.pending.queue id' = w.pending.queue id'
  stored : ∀ id', id' ≠ id → w'.storage.tries.get? id' = w.storage.tries.get? id'

theorem WriteSide.Spares.of_agrees {storage : Storage} (h : w.storage.Agrees storage) :
    Spares id w { w with storage } :=
  ⟨rfl, fun _ _ => rfl, fun id' _ => congrArg (·.get? id') h.tries⟩

theorem WriteSide.recover_spares (w : WriteSide) (policy : FailurePolicy) (id : DictionaryId)
    (batch : List Update) : Spares id w (w.recover policy id batch) := by
  cases policy with
  | requeue =>
    exact ⟨PendingTable.applyLocks_requeueFront ..,
      fun id' hne => PendingTable.queue_requeueFront_of_ne _ _ hne, fun _ _ => rfl⟩
  | discard => exact ⟨rfl, fun _ _ => rfl, fun _ _ => rfl⟩

theorem Work.next?_spec (h : work.next? id policy w = some (work', w')) :
    Effect policy work (w.pending.queue id) (w.storage.tries.get? id) work'
      (w'.pending.queue id) (w'.storage.tries.get? id) ∧ WriteSide.Spares id w w' := by
  cases work with
  | begun =>
    have hdrained := PendingTable.queue_drain w.pending id
    have hbatch : (w.pending.drain id).1 = w.pending.queue id := rfl
    simp only [next?, hbatch, Option.some.injEq, Prod.mk.injEq] at h
    obtain ⟨rfl, rfl⟩ := h
    refine ⟨?_, PendingTable.applyLocks_drain .., fun id' hne => ?_, fun _ _ => rfl⟩
    · rw [hdrained]
      cases hqueue : w.pending.queue id with
      | nil => exact .idle
      | cons update rest => exact .drain (List.cons_ne_nil update rest)
    · exact PendingTable.queue_drain_of_ne _ hne
  | drained batch =>
    have hagrees := Storage.loadTrie_agrees id w.storage
    rcases hload : Storage.loadTrie id w.storage with ⟨e | stored, storage⟩
    · simp only [next?, hload] at h
      rw [hload] at hagrees
      cases h
      refine ⟨?_, .of_agrees hagrees⟩
      rw [hagrees.tries]
      exact .loadFails e
    · have hstored := Storage.loadTrie_ok hload
      simp only [next?, hload] at h
      rw [hload] at hagrees
      cases h
      subst hstored
      refine ⟨?_, .of_agrees hagrees⟩
      rw [hagrees.tries]
      exact .load
  | loaded batch snapshot =>
    rcases hsave : Storage.saveTrie id ((snapshot.getD {}).applyBatch batch).1 w.storage with
      ⟨e | u, storage⟩
    · have hagrees := Storage.saveTrie_error hsave
      simp only [next?, hsave] at h
      cases h
      refine ⟨?_, .of_agrees hagrees⟩
      rw [hagrees.tries]
      exact .saveFails e
    · have htries := (Storage.saveTrie_ok hsave).2
      simp only [next?, hsave] at h
      cases h
      refine ⟨?_, rfl, fun _ _ => rfl, fun id' hne => ?_⟩
      · rw [htries, OrderedMap.get?_insert_self]
        exact .save _
      · rw [htries, OrderedMap.get?_insert_of_ne _ _ hne]
  | saved batch trie proofs =>
    cases h
    exact ⟨.finish _, rfl, fun _ _ => rfl, fun _ _ => rfl⟩
  | failed batch e =>
    cases h
    refine ⟨?_, w.recover_spares policy id batch⟩
    obtain ⟨hstorage, hqueue⟩ := WriteSide.recover_spec w policy id batch
    rw [hstorage, hqueue]
    exact .recover
  | done r => contradiction

/-- Only a save changes the stored trie, and it builds on what the work has loaded. -/
theorem Work.Effect.stored_cases {queue queue' : List Update} {stored stored' : Option Trie}
    (h : Effect policy work queue stored work' queue' stored') :
    (work'.justSaved = [] ∧ stored' = stored) ∨
      ∃ batch snapshot, work = .loaded batch snapshot ∧ work'.justSaved = [batch] ∧
        stored' = some ((snapshot.getD {}).applyBatch batch).1 := by
  cases h with
  | save proofs => exact .inr ⟨_, _, rfl, rfl, rfl⟩
  | _ => exact .inl ⟨rfl, rfl⟩

namespace WriteSide

theorem storage_enqueue (w : WriteSide) (id : DictionaryId) (us : List Update) :
    (w.enqueue id us).storage = w.storage := by
  unfold enqueue
  split <;> rfl

theorem queue_enqueue (w : WriteSide) (id : DictionaryId) (us : List Update) :
    (w.enqueue id us).pending.queue id = w.pending.queue id ++ us := by
  unfold enqueue
  split
  · next h => simp [List.isEmpty_iff.1 h]
  · exact PendingTable.queue_enqueue ..

theorem enqueue_spares (w : WriteSide) (id : DictionaryId) (us : List Update) :
    Spares id w (w.enqueue id us) := by
  unfold enqueue
  split
  · exact ⟨rfl, fun _ _ => rfl, fun _ _ => rfl⟩
  · exact ⟨rfl, fun _ hne => PendingTable.queue_setQueue_of_ne _ _ hne, fun _ _ => rfl⟩

end WriteSide

namespace Scope

variable {x : Scope} {t : PendingTable}

theorem queue_eraseQueues (h : x.Covers id) : (x.eraseQueues t).queue id = [] := by
  cases x with
  | only id' =>
    obtain rfl : id = id' := h
    simp [eraseQueues, PendingTable.queue]
  | all => simp [eraseQueues, PendingTable.queue, EmptyCollection.emptyCollection]

theorem queue_eraseQueues_of_not (h : ¬ x.Covers id) :
    (x.eraseQueues t).queue id = t.queue id := by
  cases x with
  | only id' =>
    have hne : id ≠ id' := h
    simp [eraseQueues, PendingTable.queue, OrderedMap.get?_erase_of_ne _ hne]
  | all => exact absurd trivial h

@[simp] theorem applyLocks_eraseQueues (x : Scope) (t : PendingTable) :
    (x.eraseQueues t).applyLocks = t.applyLocks := by
  cases x <;> rfl

end Scope

theorem PublicationStage.next?_storage {key : Option PublicKey} {s s' : Shared}
    {stage stage' : PublicationStage} (h : stage.next? id key s = some (stage', s')) :
    ∃ storage, s.side.storage.Agrees storage ∧ s' = s.withStorage storage := by
  cases stage with
  | called =>
    have hagrees := Storage.loadRoot_agrees id s.side.storage
    rcases hload : Storage.loadRoot id s.side.storage with ⟨e | root, storage⟩ <;>
      rw [hload] at hagrees <;> simp only [next?, hload] at h <;> cases h <;>
      exact ⟨storage, hagrees, rfl⟩
  | rootRead root =>
    have hagrees := Storage.loadEpoch_agrees id s.side.storage
    rcases hload : Storage.loadEpoch id s.side.storage with ⟨e | epoch, storage⟩ <;>
      rw [hload] at hagrees <;> simp only [next?, hload] at h <;> cases h <;>
      exact ⟨storage, hagrees, rfl⟩
  | returned r => contradiction

namespace Call

/-- The work of a cycle of the dictionary, if it has the lock. -/
def work? (id : DictionaryId) : Call → Option Work
  | cycle id' _ (.inside _ work) => if id' = id then some work else none
  | _ => none

@[simp] theorem work?_inside (id : DictionaryId) (policy : FailurePolicy) (lock : Nat)
    (work : Work) : (cycle id policy (.inside lock work)).work? id = some work := if_pos rfl

theorem work?_inside_of_ne {id id' : DictionaryId} (h : id' ≠ id) (policy : FailurePolicy)
    (stage : CycleStage) : (cycle id' policy stage).work? id = none := by
  cases stage with
  | inside lock work => exact if_neg h
  | _ => rfl

/-- A call that is not at work on the dictionary has no batch of it. -/
def AtRest (id : DictionaryId) (c : Call) : Prop :=
  ∀ work, c.work? id = some work → work = .begun ∨ ∃ r, work = .done r

theorem AtRest.of_none {id : DictionaryId} {c : Call} (h : c.work? id = none) : c.AtRest id := by
  simp [AtRest, h]

/-- What a step of a call does to a dictionary. -/
inductive Effect (id : DictionaryId) (s s' : Shared) : Call → Call → Prop
  | works {policy lock work work'} :
      Work.Effect policy work (s.queue id) (s.stored id) work' (s'.queue id) (s'.stored id) →
      Effect id s s' (.cycle id policy (.inside lock work)) (.cycle id policy (.inside lock work'))
  | empties {scope dropped} : scope.Covers id → s'.queue id = [] → s'.stored id = s.stored id →
      Effect id s s' (.removal scope (.waiting [])) (.removal scope (.emptied dropped))
  | other {c c'} : s'.queue id = s.queue id → s'.stored id = s.stored id → c.AtRest id →
      c'.AtRest id → Effect id s s' c c'

theorem Step.effect {pick : Nat} {s s' : Shared} {c c' : Call} (h : Step pick s c c' s')
    (id : DictionaryId) : Effect id s s' c c' := by
  cases h with
  | lookUp _ => exact .other rfl rfl (.of_none rfl) (.of_none rfl)
  | @acquire id' policy lock _ =>
    refine .other rfl rfl (.of_none rfl) fun work hwork => ?_
    by_cases hid : id' = id
    · subst hid
      exact .inl (Option.some.inj (hwork.symm.trans (work?_inside ..)))
    · simp [work?_inside_of_ne hid] at hwork
  | @work id' policy lock _ _ _ hnext =>
    by_cases hid : id' = id
    · subst hid
      exact .works (Work.next?_spec hnext).1
    · have hspares := (Work.next?_spec hnext).2
      exact .other (hspares.queue id (Ne.symm hid)) (hspares.stored id (Ne.symm hid))
        (.of_none (work?_inside_of_ne hid ..)) (.of_none (work?_inside_of_ne hid ..))
  | @release id' policy lock r =>
    refine .other rfl rfl (fun work hwork => ?_) (.of_none rfl)
    by_cases hid : id' = id
    · subst hid
      exact .inr ⟨r, Option.some.inj (hwork.symm.trans (work?_inside ..))⟩
    · simp [work?_inside_of_ne hid] at hwork
  | @empty scope =>
    by_cases hcovers : scope.Covers id
    · exact .empties hcovers (Scope.queue_eraseQueues hcovers) rfl
    · exact .other (Scope.queue_eraseQueues_of_not hcovers) rfl (.of_none rfl) (.of_none rfl)
  | publish hnext =>
    obtain ⟨storage, hagrees, rfl⟩ := PublicationStage.next?_storage hnext
    exact .other rfl (congrArg (·.get? id) hagrees.tries) (.of_none rfl) (.of_none rfl)
  | takeTable _ => exact .other rfl rfl (.of_none rfl) (.of_none rfl)
  | takeLocks => exact .other rfl rfl (.of_none rfl) (.of_none rfl)
  | pass _ _ => exact .other rfl rfl (.of_none rfl) (.of_none rfl)
  | freeTable => exact .other rfl rfl (.of_none rfl) (.of_none rfl)

theorem justSaved_of_atRest {id : DictionaryId} {c : Call} (h : c.AtRest id) :
    c.justSaved.filter (·.1 = id) = [] := by
  cases c with
  | cycle id' policy stage =>
    cases stage with
    | inside lock work =>
      cases work with
      | saved batch trie proofs =>
        by_cases hid : id' = id
        · subst hid
          rcases h _ (work?_inside ..) with hwork | ⟨r, hwork⟩ <;> contradiction
        · simp [justSaved, hid]
      | _ => rfl
    | _ => rfl
  | _ => rfl

theorem justSaved_inside (id : DictionaryId) (policy : FailurePolicy) (lock : Nat) (work : Work) :
    ((cycle id policy (.inside lock work)).justSaved.filter (·.1 = id)).map (·.2) =
      work.justSaved := by
  cases work with
  | saved batch trie proofs => simp [justSaved, Work.justSaved]
  | _ => rfl

end Call

namespace World

/-- The batches of a dictionary that have been saved, in the order of the saves. -/
def savedBatches (id : DictionaryId) (w : World) : List (List Update) :=
  (w.saved.filter (·.1 = id)).map (·.2)

theorem savedBatches_append (id : DictionaryId) (s : Shared) (calls : List Call)
    (enqueued saved new : List (DictionaryId × List Update)) :
    savedBatches id ⟨s, calls, enqueued, saved ++ new⟩ =
      savedBatches id ⟨s, calls, enqueued, saved⟩ ++ (new.filter (·.1 = id)).map (·.2) := by
  simp [savedBatches]

theorem stored_enqueue (w : World) (id id' : DictionaryId) (updates : List Update) :
    (w.enqueue id' updates).shared.stored id = w.shared.stored id :=
  congrArg (·.tries.get? id) (w.shared.side.storage_enqueue id' updates)

end World

end AuthDict
