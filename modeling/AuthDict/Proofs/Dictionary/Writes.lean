import AuthDict.Proofs.Dictionary.Holdings

/-!
# Writing to a service

What enqueueing, a commit cycle, the insertion of one entry and the release of a dictionary do to
its holdings. A cycle has four outcomes, which are the constructors of `Cycle`: there was nothing to
do, the whole queue became one epoch, or a failed batch was put back or dropped. In the last two the
stored trie is untouched.
-/
namespace AuthDict

namespace PendingTable

@[simp] theorem queue_enqueue (t : PendingTable) (id : DictionaryId) (us : List Update) :
    (t.enqueue id us).queue id = t.queue id ++ us := queue_setQueue_self ..

@[simp] theorem queue_drain (t : PendingTable) (id : DictionaryId) :
    (t.drain id).2.queue id = [] := by
  unfold drain
  split
  · exact queue_setQueue_self ..
  · next h =>
    have hn : t.queues.get? id = none := by simpa [OrderedMap.contains] using h
    simp [queue, hn]

@[simp] theorem queue_requeueFront (t : PendingTable) (id : DictionaryId) (batch : List Update) :
    (t.requeueFront id batch).queue id = batch ++ t.queue id := by
  unfold requeueFront
  split
  · next h => simp [List.isEmpty_iff.1 h]
  · exact queue_setQueue_self ..

theorem queue_drain_of_ne (t : PendingTable) {id id' : DictionaryId} (h : id' ≠ id) :
    (t.drain id).2.queue id' = t.queue id' := by
  unfold drain
  split
  · exact queue_setQueue_of_ne t _ h
  · rfl

theorem queue_requeueFront_of_ne (t : PendingTable) {id id' : DictionaryId} (batch : List Update)
    (h : id' ≠ id) : (t.requeueFront id batch).queue id' = t.queue id' := by
  unfold requeueFront
  split
  · rfl
  · exact queue_setQueue_of_ne t _ h

@[simp] theorem queue_applyLock (t : PendingTable) (id id' : DictionaryId) :
    (t.applyLock id).2.queue id' = t.queue id' := rfl

@[simp] theorem queue_remove (t : PendingTable) (id : DictionaryId) :
    (t.remove id).2.queue id = [] := by
  simp [remove, queue]

theorem queue_remove_of_ne (t : PendingTable) {id id' : DictionaryId} (h : id' ≠ id) :
    (t.remove id).2.queue id' = t.queue id' := by
  simp [remove, queue, OrderedMap.get?_erase_of_ne _ h]

@[simp] theorem queue_clear (t : PendingTable) (id : DictionaryId) : t.clear.2.queue id = [] := by
  simp [clear, queue]

end PendingTable

namespace Storage

theorem saveTrie_ok {id : DictionaryId} {trie : Trie} {s s' : Storage}
    (h : saveTrie id trie s = (.ok (), s')) :
    s'.elements = s.elements ∧ s'.tries = s.tries.insert id trie := by
  simp only [saveTrie] at h
  split at h
  · simp at h
  · obtain ⟨-, rfl⟩ := Prod.mk.inj h
    exact ⟨rfl, rfl⟩

theorem saveTrie_error {id : DictionaryId} {trie : Trie} {s s' : Storage} {e : Error}
    (h : saveTrie id trie s = (.error e, s')) : s.Agrees s' := by
  simp only [saveTrie] at h
  split at h
  · obtain ⟨-, rfl⟩ := Prod.mk.inj h
    exact ⟨rfl, rfl⟩
  · simp at h

theorem saveElement_ok {id : DictionaryId} {key : Bytes} {element : StoredElement} {s s' : Storage}
    (h : saveElement id key element s = (.ok (), s')) :
    s'.elements = s.elements.insert ⟨id, key⟩ element ∧ s'.tries = s.tries := by
  simp only [saveElement] at h
  split at h
  · simp at h
  · obtain ⟨-, rfl⟩ := Prod.mk.inj h
    exact ⟨rfl, rfl⟩

theorem saveElement_error {id : DictionaryId} {key : Bytes} {element : StoredElement}
    {s s' : Storage} {e : Error} (h : saveElement id key element s = (.error e, s')) :
    s.Agrees s' := by
  simp only [saveElement] at h
  split at h
  · obtain ⟨-, rfl⟩ := Prod.mk.inj h
    exact ⟨rfl, rfl⟩
  · simp at h

end Storage

namespace Holdings

/-- The trie that the next cycle stores if it succeeds. -/
def next (h : Holdings) : Trie := (h.current.applyBatch h.queue).1

/-- The outcomes of a cycle, by what it reports and what is held afterwards. -/
inductive Cycle (policy : FailurePolicy) (h : Holdings) : Except Error ApplyOutcome → Holdings → Prop
  | idle : h.queue = [] → Cycle policy h (.ok .idle) h
  | applied : h.queue ≠ [] →
      Cycle policy h (.ok (.applied h.next.epoch h.next.root h.queue.length))
        { h with trie := some h.next, queue := [] }
  | requeued (e : Error) : h.queue ≠ [] → policy = .requeue → Cycle policy h (.error e) h
  | discarded (e : Error) : h.queue ≠ [] → policy = .discard →
      Cycle policy h (.error e) { h with queue := [] }

theorem Cycle.queue_of_ok {policy : FailurePolicy} {h h' : Holdings} {o : ApplyOutcome}
    (hc : h.Cycle policy (.ok o) h') : h'.queue = [] := by
  cases hc with
  | idle hq => exact hq
  | applied _ => rfl

end Holdings

namespace WriteSide

/-- A batch is applied to the stored trie and saved, or the backend keeps what it had. -/
theorem applyBatch_cases {id : DictionaryId} {batch : List Update} {s s' : Storage}
    {r : Except Error (Trie × List AppendProof)} (h : applyBatch id batch s = (r, s')) :
    (∃ e, r = .error e ∧ s.Agrees s') ∨
      ∃ out, out = ((s.tries.get? id).getD {}).applyBatch batch ∧ r = .ok out ∧
        s'.elements = s.elements ∧ s'.tries = s.tries.insert id out.1 := by
  have ha := Storage.loadTrie_agrees id s
  rcases Action.bind_cases h with ⟨e, hl, rfl⟩ | ⟨stored, s₁, hl, h⟩
  · rw [hl] at ha
    exact .inl ⟨e, rfl, ha⟩
  · rw [hl] at ha
    have hstored := Storage.loadTrie_ok hl
    subst hstored
    generalize ((s.tries.get? id).getD {}).applyBatch batch = out at h ⊢
    rcases Action.bind_cases h with ⟨e, hs, rfl⟩ | ⟨_, s₂, hs, h⟩
    · exact .inl ⟨e, rfl, ha.trans (Storage.saveTrie_error hs)⟩
    · obtain ⟨rfl, rfl⟩ := Prod.mk.inj h
      obtain ⟨he, ht⟩ := Storage.saveTrie_ok hs
      exact .inr ⟨out, rfl, rfl, he.trans ha.elements, by rw [ht, ha.tries]⟩

/-- What a failed cycle leaves of the batch it had drained. -/
def restored (policy : FailurePolicy) (batch : List Update) : List Update :=
  match policy with
  | .requeue => batch
  | .discard => []

theorem recover_spec (w : WriteSide) (policy : FailurePolicy) (id : DictionaryId)
    (batch : List Update) :
    (w.recover policy id batch).storage = w.storage ∧
      (w.recover policy id batch).pending.queue id =
        restored policy batch ++ w.pending.queue id := by
  cases policy with
  | requeue => exact ⟨rfl, PendingTable.queue_requeueFront ..⟩
  | discard => exact ⟨rfl, rfl⟩

/-- The table after the lock was asked for and the queue was drained. -/
def drained (w : WriteSide) (id : DictionaryId) : PendingTable :=
  ((w.pending.applyLock id).2.drain id).2

theorem queue_drained (w : WriteSide) (id : DictionaryId) : (w.drained id).queue id = [] :=
  PendingTable.queue_drain ..

theorem queue_drained_of_ne (w : WriteSide) {id id' : DictionaryId} (hne : id' ≠ id) :
    (w.drained id).queue id' = w.pending.queue id' :=
  PendingTable.queue_drain_of_ne _ hne

theorem recover_drained (w : WriteSide) (s : Storage) (policy : FailurePolicy) (id : DictionaryId)
    (batch : List Update) :
    (recover { w with pending := w.drained id, storage := s } policy id batch).storage = s ∧
      (recover { w with pending := w.drained id, storage := s } policy id batch).pending.queue id =
        restored policy batch := by
  obtain ⟨hstorage, hqueue⟩ := recover_spec { w with pending := w.drained id, storage := s } policy
    id batch
  rw [w.queue_drained id, List.append_nil] at hqueue
  exact ⟨hstorage, hqueue⟩

section

variable {id : DictionaryId} {w : WriteSide}

theorem runCycle_idle (policy : FailurePolicy) (h : w.pending.queue id = []) :
    runCycle policy id w = (.ok .idle, { w with pending := w.drained id }) := by
  have hempty : ((w.pending.applyLock id).2.drain id).1.isEmpty = true := List.isEmpty_iff.2 h
  simp only [runCycle, hempty]
  rfl

theorem runCycle_applied (policy : FailurePolicy) (hne : w.pending.queue id ≠ [])
    {out : Trie × List AppendProof} {s : Storage}
    (h : applyBatch id (w.pending.queue id) w.storage = (.ok out, s)) :
    runCycle policy id w =
      (.ok (.applied out.1.epoch out.1.root (w.pending.queue id).length),
        finish { w with pending := w.drained id, storage := s } id out.1 out.2
          (w.pending.queue id).length) := by
  have hempty : ¬ (w.pending.queue id).isEmpty = true := by simpa using hne
  have hbatch : ((w.pending.applyLock id).2.drain id).1 = w.pending.queue id := rfl
  simp only [runCycle, hbatch, if_neg hempty, h]
  rfl

theorem runCycle_failed (policy : FailurePolicy) (hne : w.pending.queue id ≠ []) {e : Error}
    {s : Storage} (h : applyBatch id (w.pending.queue id) w.storage = (.error e, s)) :
    runCycle policy id w =
      (.error e, recover { w with pending := w.drained id, storage := s } policy id
        (w.pending.queue id)) := by
  have hempty : ¬ (w.pending.queue id).isEmpty = true := by simpa using hne
  have hbatch : ((w.pending.applyLock id).2.drain id).1 = w.pending.queue id := rfl
  simp only [runCycle, hbatch, if_neg hempty, h]
  rfl

end

/-- A cycle finds nothing, or fails and leaves the stored trie alone, or stores the next trie. -/
theorem runCycle_cases {policy : FailurePolicy} {id : DictionaryId} {w w' : WriteSide}
    {r : Except Error ApplyOutcome} (h : runCycle policy id w = (r, w')) :
    (w.pending.queue id = [] ∧ r = .ok .idle ∧ w'.storage = w.storage ∧
        w'.pending.queue id = []) ∨
    (w.pending.queue id ≠ [] ∧ ∃ e, r = .error e ∧ w.storage.Agrees w'.storage ∧
        w'.pending.queue id = restored policy (w.pending.queue id)) ∨
    (w.pending.queue id ≠ [] ∧
        ∃ t, t = (((w.storage.tries.get? id).getD {}).applyBatch (w.pending.queue id)).1 ∧
          r = .ok (.applied t.epoch t.root (w.pending.queue id).length) ∧
          w'.storage.elements = w.storage.elements ∧
          w'.storage.tries = w.storage.tries.insert id t ∧ w'.pending.queue id = []) := by
  have hdrained := w.queue_drained id
  by_cases hempty : w.pending.queue id = []
  · rw [runCycle_idle policy hempty] at h
    obtain ⟨rfl, rfl⟩ := Prod.mk.inj h
    exact .inl ⟨hempty, rfl, rfl, hdrained⟩
  · rcases happly : applyBatch id (w.pending.queue id) w.storage with ⟨e | out, storage⟩
    · rw [runCycle_failed policy hempty happly] at h
      obtain ⟨rfl, rfl⟩ := Prod.mk.inj h
      obtain ⟨hs, hq⟩ := w.recover_drained storage policy id (w.pending.queue id)
      rcases applyBatch_cases happly with ⟨_, -, ha⟩ | ⟨_, -, hok, -⟩
      · rw [← hs] at ha
        exact .inr (.inl ⟨hempty, e, rfl, ha, hq⟩)
      · simp at hok
    · rw [runCycle_applied policy hempty happly] at h
      obtain ⟨rfl, rfl⟩ := Prod.mk.inj h
      rcases applyBatch_cases happly with ⟨_, he, -⟩ | ⟨_, rfl, hok, he, ht⟩
      · simp at he
      · obtain rfl := Except.ok.inj hok
        exact .inr (.inr ⟨hempty, _, rfl, rfl, he, ht, hdrained⟩)

theorem runCycle_queue_of_ne {policy : FailurePolicy} {id id' : DictionaryId} {w w' : WriteSide}
    {r : Except Error ApplyOutcome} (hne : id' ≠ id) (h : runCycle policy id w = (r, w')) :
    w'.pending.queue id' = w.pending.queue id' := by
  have hdrained := w.queue_drained_of_ne hne
  by_cases hempty : w.pending.queue id = []
  · rw [runCycle_idle policy hempty] at h
    obtain ⟨-, rfl⟩ := Prod.mk.inj h
    exact hdrained
  · rcases happly : applyBatch id (w.pending.queue id) w.storage with ⟨e | out, storage⟩
    · rw [runCycle_failed policy hempty happly] at h
      obtain ⟨-, rfl⟩ := Prod.mk.inj h
      cases policy with
      | requeue => exact (PendingTable.queue_requeueFront_of_ne _ _ hne).trans hdrained
      | discard => exact hdrained
    · rw [runCycle_applied policy hempty happly] at h
      obtain ⟨-, rfl⟩ := Prod.mk.inj h
      exact hdrained

/-- A cycle keeps every element, and the trie and the queue of every other dictionary. -/
theorem runCycle_frame {policy : FailurePolicy} {id : DictionaryId} {w w' : WriteSide}
    {r : Except Error ApplyOutcome} (h : runCycle policy id w = (r, w')) :
    w'.storage.elements = w.storage.elements ∧ ∀ id', id' ≠ id →
      w'.storage.tries.get? id' = w.storage.tries.get? id' ∧
      w'.pending.queue id' = w.pending.queue id' := by
  refine ⟨?_, fun id' hne => ⟨?_, runCycle_queue_of_ne hne h⟩⟩
  · rcases runCycle_cases h with ⟨-, -, hs, -⟩ | ⟨-, _, -, hs, -⟩ | ⟨-, _, -, -, he, -, -⟩
    · rw [hs]
    · exact hs.elements
    · exact he
  · rcases runCycle_cases h with ⟨-, -, hs, -⟩ | ⟨-, _, -, hs, -⟩ | ⟨-, _, -, -, -, ht, -⟩
    · rw [hs]
    · rw [hs.tries]
    · rw [ht, OrderedMap.get?_insert_of_ne _ _ hne]

end WriteSide

namespace Service

theorem setWriteSide_registry_of_ne {u : Updater} {ref : RegistryRef} (h : ref ≠ u.registry)
    (w : WriteSide) (s : Service) : (s.setWriteSide u w).registry ref = s.registry ref :=
  registry_setRegistry_of_ne s _ h

@[simp] theorem setWriteSide_registry_self (u : Updater) (w : WriteSide) (s : Service) :
    (s.setWriteSide u w).registry u.registry =
      { s.registry u.registry with pending := w.pending } :=
  registry_setRegistry_self s ..

theorem setWriteSide_backends_of_ne {u : Updater} {ref : StorageRef} (h : ref ≠ u.storage)
    (w : WriteSide) (s : Service) :
    (s.setWriteSide u w).backends.get ref = s.backends.get ref :=
  Backends.get_set_of_ne _ _ h

@[simp] theorem setWriteSide_backends_self (u : Updater) (w : WriteSide) (s : Service) :
    (s.setWriteSide u w).backends.get u.storage = w.storage :=
  Backends.get_set_self ..

theorem holdings_setWriteSide_of_same {u : Updater} {p : Site} {w : WriteSide} {s : Service}
    (he : w.storage.elements = (s.writeSide u).storage.elements)
    (ht : w.storage.tries.get? p.id = (s.writeSide u).storage.tries.get? p.id)
    (hq : w.pending.queue p.id = (s.writeSide u).pending.queue p.id) :
    (s.setWriteSide u w).holdings p = s.holdings p := by
  have hback : ((s.setWriteSide u w).backends.get p.storage).elements =
      (s.backends.get p.storage).elements ∧
      ((s.setWriteSide u w).backends.get p.storage).tries.get? p.id =
        (s.backends.get p.storage).tries.get? p.id := by
    by_cases h : p.storage = u.storage
    · rw [h, setWriteSide_backends_self]
      exact ⟨he, ht⟩
    · rw [setWriteSide_backends_of_ne h]
      exact ⟨rfl, rfl⟩
  have hreg : ((s.setWriteSide u w).registry p.registry).pending.queue p.id =
      (s.registry p.registry).pending.queue p.id ∧
      ((s.setWriteSide u w).registry p.registry).pools = (s.registry p.registry).pools := by
    by_cases h : p.registry = u.registry
    · rw [h, setWriteSide_registry_self]
      exact ⟨hq, rfl⟩
    · rw [setWriteSide_registry_of_ne h]
      exact ⟨rfl, rfl⟩
  simp only [holdings, hback.1, hback.2, hreg.1, hreg.2]

theorem holdings_setWriteSide {u : Updater} {p : Site} (hr : u.registry = p.registry)
    (hs : u.storage = p.storage) (w : WriteSide) (s : Service) :
    (s.setWriteSide u w).holdings p =
      { elements := fun key => w.storage.elements.get? ⟨p.id, key⟩
        trie := w.storage.tries.get? p.id
        queue := w.pending.queue p.id
        pool := (s.holdings p).pool } := by
  obtain ⟨id, storage, registry⟩ := p
  subst hr hs
  simp only [holdings, setWriteSide_registry_self, setWriteSide_backends_self]

end Service

namespace Updater

/-- The updater works where the dictionary lives, under a failure policy. -/
structure Serves (u : Updater) (p : Site) (policy : FailurePolicy) : Prop where
  registry : u.registry = p.registry
  storage : u.storage = p.storage
  policy : u.config.onApplyFailure = policy

variable {u : Updater} {p : Site} {policy : FailurePolicy} {s s' : Service}

/-- What an updater and the view of a dictionary see of a service is the same. -/
theorem Serves.writeSide_holdings (hu : u.Serves p policy) :
    (s.holdings p).queue = (s.writeSide u).pending.queue p.id ∧
    (s.holdings p).trie = (s.writeSide u).storage.tries.get? p.id ∧
    (s.holdings p).elements = fun key => (s.writeSide u).storage.elements.get? ⟨p.id, key⟩ := by
  obtain ⟨id, storage, registry⟩ := p
  obtain ⟨rfl, rfl, -⟩ := hu
  exact ⟨rfl, rfl, rfl⟩

theorem Serves.enqueue (hu : u.Serves p policy) (us : List Update) (s : Service) :
    ∃ s', u.enqueue p.id us s = (.ok (), s') ∧ s'.schedulers = s.schedulers ∧
      s'.holdings p = (s.holdings p).enqueue us := by
  refine ⟨s.setWriteSide u ((s.writeSide u).enqueue p.id us), rfl, rfl, ?_⟩
  rw [Holdings.enqueue]
  obtain ⟨hq, ht, he⟩ := hu.writeSide_holdings (s := s)
  rw [Service.holdings_setWriteSide hu.registry hu.storage, hq]
  simp only [WriteSide.enqueue]
  split
  · next h => simp only [List.isEmpty_iff.1 h, List.append_nil, ← hq, ← ht, ← he]
  · simp only [PendingTable.queue_enqueue, ← ht, ← he]

/-- One cycle of an updater is a `Cycle` of the holdings. -/
theorem Serves.apply (hu : u.Serves p policy) {r : Except Error ApplyOutcome}
    (h : u.apply p.id s = (r, s')) :
    (s.holdings p).Cycle policy r (s'.holdings p) ∧ s'.schedulers = s.schedulers := by
  obtain rfl := hu.policy
  rw [Updater.apply, Action.within_apply] at h
  generalize hrun : WriteSide.runCycle u.config.onApplyFailure p.id (s.writeSide u) = out at h
  obtain ⟨r, w'⟩ := out
  obtain ⟨rfl, rfl⟩ := Prod.mk.inj h
  refine ⟨?_, rfl⟩
  obtain ⟨hq, ht, he⟩ := hu.writeSide_holdings (s := s)
  rw [Service.holdings_setWriteSide hu.registry hu.storage]
  rcases WriteSide.runCycle_cases hrun with ⟨hempty, rfl, hst, hq'⟩ | ⟨hne, e, rfl, ha, hq'⟩ |
    ⟨hne, t, rfl, rfl, hel, htr, hq'⟩
  · rw [hst, hq', ← ht, ← he, ← hempty, ← hq]
    exact .idle (hq.trans hempty)
  · rw [ha.elements, ha.tries, hq', ← ht, ← he, ← hq]
    rw [← hq] at hne
    cases hp : u.config.onApplyFailure with
    | requeue => exact .requeued e hne rfl
    | discard => exact .discarded e hne rfl
  · rw [hel, htr, OrderedMap.get?_insert_self, hq', ← ht, ← he, ← hq]
    rw [← hq] at hne
    exact .applied hne

theorem apply_of_ne {id : DictionaryId} (hne : p.id ≠ id) {r : Except Error ApplyOutcome}
    (h : u.apply id s = (r, s')) :
    s'.holdings p = s.holdings p ∧ s'.schedulers = s.schedulers := by
  rw [Updater.apply, Action.within_apply] at h
  generalize hrun : WriteSide.runCycle u.config.onApplyFailure id (s.writeSide u) = out at h
  obtain ⟨r, w'⟩ := out
  obtain ⟨-, rfl⟩ := Prod.mk.inj h
  obtain ⟨he, hframe⟩ := WriteSide.runCycle_frame hrun
  exact ⟨Service.holdings_setWriteSide_of_same he (hframe _ hne).1 (hframe _ hne).2, rfl⟩

end Updater

end AuthDict
