import AuthDict.Proofs.Dictionary.Tasks
import AuthDict.Proofs.Query.Alike

/-!
# What a dictionary sees of a service

Two services are alike to a dictionary if their backends, queues and pools hold the same for it, the
same background tasks of it run, and the same registries are open. The cycles of the dictionary and
of its tasks come out alike in such services, and so does the start of a task, whose number is that
of the tasks started so far. Cycles of other dictionaries are not seen.
-/
namespace AuthDict

open AuthDict.Action (Coincides Unseen)

variable {b id : DictionaryId}

/-- What a registry keeps for a dictionary is the same. -/
structure Registry.Alike (b : DictionaryId) (r r' : Registry) : Prop where
  queue : r'.pending.queue b = r.pending.queue b
  pool : r'.pools.get? b = r.pools.get? b
  of : ∀ p, r.pools.get? b = some p → p.Of b
  isShutDown : r'.isShutDown = r.isShutDown

namespace Registry.Alike

variable {r r' : Registry}

theorem symm (h : r.Alike b r') : r'.Alike b r where
  queue := h.queue.symm
  pool := h.pool.symm
  of p hp := h.of p (h.pool ▸ hp)
  isShutDown := h.isShutDown.symm

theorem trans {r'' : Registry} (h : r.Alike b r') (k : r'.Alike b r'') : r.Alike b r'' where
  queue := k.queue.trans h.queue
  pool := k.pool.trans h.pool
  of := h.of
  isShutDown := k.isShutDown.trans h.isShutDown

theorem withPools (h : r.Alike b r') {pools pools' : PoolTable}
    (hpool : pools'.get? b = pools.get? b) (hof : ∀ p, pools.get? b = some p → p.Of b) :
    Alike b { r with pools } { r' with pools := pools' } :=
  ⟨h.queue, hpool, hof, h.isShutDown⟩

theorem withPending (h : r.Alike b r') {pending pending' : PendingTable}
    (hqueue : pending'.queue b = pending.queue b) :
    Alike b { r with pending } { r' with pending := pending' } :=
  ⟨hqueue, h.pool, h.of, h.isShutDown⟩

/-- What a registry forgets of any dictionary it forgets in both. -/
theorem release (h : r.Alike b r') (id : DictionaryId) :
    (r.release id).Alike b (r'.release id) := by
  by_cases hne : b = id
  · subst hne
    refine ⟨?_, ?_, fun p hp => ?_, h.isShutDown⟩
    · exact (PendingTable.queue_remove ..).trans (PendingTable.queue_remove ..).symm
    · exact (OrderedMap.get?_erase_self ..).trans (OrderedMap.get?_erase_self ..).symm
    · have hnone : (r.release b).pools.get? b = none := OrderedMap.get?_erase_self ..
      rw [hnone] at hp
      contradiction
  · have hpool (r : Registry) : (r.release id).pools.get? b = r.pools.get? b :=
      OrderedMap.get?_erase_of_ne _ hne
    refine ⟨?_, ?_, fun p hp => h.of p (hpool r ▸ hp), h.isShutDown⟩
    · exact (PendingTable.queue_remove_of_ne _ hne).trans
        (h.queue.trans (PendingTable.queue_remove_of_ne _ hne).symm)
    · rw [hpool, hpool, h.pool]

theorem release_left (h : r.Alike b r') (hne : id ≠ b) : (r.release id).Alike b r' := by
  have hpool : (r.release id).pools.get? b = r.pools.get? b :=
    OrderedMap.get?_erase_of_ne _ (Ne.symm hne)
  refine ⟨?_, h.pool.trans hpool.symm, fun p hp => h.of p (hpool ▸ hp), h.isShutDown⟩
  exact h.queue.trans (PendingTable.queue_remove_of_ne _ (Ne.symm hne)).symm

theorem clear (h : r.Alike b r') : r.clear.2.Alike b r'.clear.2 where
  queue := (PendingTable.queue_clear ..).trans (PendingTable.queue_clear ..).symm
  pool := rfl
  of p hp := by
    have hnone : r.clear.2.pools.get? b = none := OrderedMap.get?_empty b
    rw [hnone] at hp
    contradiction
  isShutDown := h.isShutDown

end Registry.Alike

namespace Service

structure Alike (b : DictionaryId) (s t : Service) : Prop where
  backends : s.backends.Alike b t.backends
  registries : ∀ ref, (s.registry ref).Alike b (t.registry ref)
  tasks : ∀ ref task, task.id = b →
    (t.schedulers.get? ref = some task ↔ s.schedulers.get? ref = some task)
  lost : t.lost = s.lost
  started : t.started = s.started

namespace Alike

variable {s t : Service}

theorem symm (h : s.Alike b t) : t.Alike b s where
  backends ref := (h.backends ref).symm
  registries ref := (h.registries ref).symm
  tasks ref task htask := (h.tasks ref task htask).symm
  lost := h.lost.symm
  started := h.started.symm

theorem trans {u : Service} (h : s.Alike b t) (k : t.Alike b u) : s.Alike b u where
  backends ref := (h.backends ref).trans (k.backends ref)
  registries ref := (h.registries ref).trans (k.registries ref)
  tasks ref task htask := (k.tasks ref task htask).trans (h.tasks ref task htask)
  lost := k.lost.trans h.lost
  started := k.started.trans h.started

theorem holdings (h : s.Alike b t) (storage : StorageRef) (ref : RegistryRef) :
    t.holdings ⟨b, storage, ref⟩ = s.holdings ⟨b, storage, ref⟩ := by
  simp only [Service.holdings, (h.backends storage).elements, (h.backends storage).trie,
    (h.registries ref).queue, (h.registries ref).pool]

theorem setRegistry (h : s.Alike b t) (ref : RegistryRef) {r r' : Registry} (hr : r.Alike b r') :
    (s.setRegistry ref r).Alike b (t.setRegistry ref r') where
  backends := h.backends
  registries ref' := by
    by_cases href : ref' = ref
    · rw [href, registry_setRegistry_self, registry_setRegistry_self]
      exact hr
    · rw [registry_setRegistry_of_ne _ _ href, registry_setRegistry_of_ne _ _ href]
      exact h.registries ref'
  tasks := h.tasks
  lost := h.lost
  started := h.started

theorem setRegistry_left (h : s.Alike b t) (ref : RegistryRef) {r : Registry}
    (hr : r.Alike b (t.registry ref)) : (s.setRegistry ref r).Alike b t where
  backends := h.backends
  registries ref' := by
    by_cases href : ref' = ref
    · rw [href, registry_setRegistry_self]
      exact hr
    · rw [registry_setRegistry_of_ne _ _ href]
      exact h.registries ref'
  tasks := h.tasks
  lost := h.lost
  started := h.started

end Alike

theorem coincides_onStorage {α : Type} (ref : StorageRef) {x : Action Storage α}
    (hx : Coincides (Storage.Alike b) x) : Coincides (Alike b) (onStorage ref x) :=
  (Backends.coincides_on ref hx).within (fun _ _ h => h.backends)
    fun _ _ _ _ h hb => { h with backends := hb }

theorem unseen_onStorage {α : Type} (ref : StorageRef) {x : Action Storage α}
    (hx : Unseen (Storage.Alike b) x) : Unseen (Alike b) (onStorage ref x) :=
  (Backends.unseen_on ref hx).within (fun _ _ h => h.backends)
    fun _ _ _ h hb => { h with backends := hb }

theorem Alike.readSide {s t : Service} (h : s.Alike b t) (ref : RegistryRef) :
    (s.readSide ref).Alike b (t.readSide ref) :=
  ⟨h.backends, (h.registries ref).pool, (h.registries ref).of⟩

theorem Alike.setReadSide {s t : Service} (h : s.Alike b t) {ref : RegistryRef} {r r' : ReadSide}
    (hr : r.Alike b r') : (s.setReadSide ref r).Alike b (t.setReadSide ref r') := by
  have hset := h.setRegistry ref ((h.registries ref).withPools hr.pool hr.of)
  exact { hset with backends := hr.backends }

theorem Alike.setReadSide_left {s t : Service} (h : s.Alike b t) {ref : RegistryRef} {r : ReadSide}
    (hr : r.Alike b (t.readSide ref)) : (s.setReadSide ref r).Alike b t := by
  have hset := h.setRegistry_left ref ((h.registries ref).withPools hr.pool hr.of)
  exact { hset with backends := hr.backends }

end Service

namespace WriteSide

structure Alike (b : DictionaryId) (w v : WriteSide) : Prop where
  queue : v.pending.queue b = w.pending.queue b
  storage : w.storage.Alike b v.storage

theorem coincides_applyBatch (batch : List Update) :
    Coincides (Storage.Alike b) (applyBatch b batch) :=
  Storage.coincides_loadTrie.bind fun _ => (Storage.coincides_saveTrie _).bind fun _ => .pure _

theorem unseen_applyBatch (hne : id ≠ b) (batch : List Update) :
    Unseen (Storage.Alike b) (applyBatch id batch) :=
  (Storage.unseen_loadTrie id).bind fun _ => (Storage.unseen_saveTrie hne _).bind fun _ => .pure _

variable {w : WriteSide}

theorem runCycle_of_empty (policy : FailurePolicy) (h : w.pending.queue id = []) :
    (runCycle policy id w).1 = .ok .idle ∧ (runCycle policy id w).2.storage = w.storage ∧
      (runCycle policy id w).2.pending.queue id = [] := by
  rw [runCycle_idle policy h]
  exact ⟨rfl, rfl, w.queue_drained id⟩

/-- Of a cycle that finds updates, the outcome, the backend and the queue follow from what becomes
of the batch in the backend. -/
theorem runCycle_of_nonempty (policy : FailurePolicy) (h : w.pending.queue id ≠ []) :
    (runCycle policy id w).1 = (applyBatch id (w.pending.queue id) w.storage).1.map
        (fun out => .applied out.1.epoch out.1.root (w.pending.queue id).length) ∧
      (runCycle policy id w).2.storage = (applyBatch id (w.pending.queue id) w.storage).2 ∧
      (runCycle policy id w).2.pending.queue id =
        match (applyBatch id (w.pending.queue id) w.storage).1 with
        | .ok _ => []
        | .error _ => restored policy (w.pending.queue id) := by
  rcases happly : applyBatch id (w.pending.queue id) w.storage with ⟨e | out, storage⟩
  · rw [runCycle_failed policy h happly]
    obtain ⟨hs, hq⟩ := w.recover_drained storage policy id (w.pending.queue id)
    exact ⟨rfl, hs, hq⟩
  · rw [runCycle_applied policy h happly]
    exact ⟨rfl, rfl, w.queue_drained id⟩

theorem coincides_runCycle (policy : FailurePolicy) : Coincides (Alike b) (runCycle policy b) := by
  refine ⟨fun w v h => ?_⟩
  by_cases hempty : w.pending.queue b = []
  · obtain ⟨hr, hs, hq⟩ := runCycle_of_empty policy hempty
    obtain ⟨hr', hs', hq'⟩ := runCycle_of_empty policy (h.queue.trans hempty)
    exact ⟨hr'.trans hr.symm, hq'.trans hq.symm, by rw [hs, hs']; exact h.storage⟩
  · obtain ⟨hr, hs, hq⟩ := runCycle_of_nonempty policy hempty
    obtain ⟨hr', hs', hq'⟩ := runCycle_of_nonempty policy (h.queue ▸ hempty)
    obtain ⟨hresult, hstorage⟩ := (coincides_applyBatch (w.pending.queue b)).run _ _ h.storage
    rw [h.queue] at hr' hs' hq'
    rw [hresult] at hr' hq'
    exact ⟨hr'.trans hr.symm, hq'.trans hq.symm, by rw [hs, hs']; exact hstorage⟩

theorem unseen_runCycle (hne : id ≠ b) (policy : FailurePolicy) :
    Unseen (Alike b) (runCycle policy id) := by
  refine ⟨fun w v h => ⟨?_, ?_⟩⟩
  · rw [h.queue]
    exact (runCycle_queue_of_ne (Ne.symm hne) rfl).symm
  · by_cases hempty : w.pending.queue id = []
    · rw [(runCycle_of_empty policy hempty).2.1]
      exact h.storage
    · rw [(runCycle_of_nonempty policy hempty).2.1]
      exact (unseen_applyBatch hne _).run _ _ h.storage

theorem Alike.enqueue {v : WriteSide} (h : w.Alike b v) (updates : List Update) :
    (w.enqueue b updates).Alike b (v.enqueue b updates) := by
  unfold WriteSide.enqueue
  split
  · exact h
  · refine ⟨?_, h.storage⟩
    rw [PendingTable.queue_enqueue, PendingTable.queue_enqueue, h.queue]

theorem Alike.enqueue_left {v : WriteSide} (h : w.Alike b v) (hne : id ≠ b)
    (updates : List Update) : (w.enqueue id updates).Alike b v := by
  unfold WriteSide.enqueue
  split
  · exact h
  · refine ⟨h.queue.trans ?_, h.storage⟩
    exact (PendingTable.queue_setQueue_of_ne _ _ (Ne.symm hne)).symm

end WriteSide

namespace Service.Alike

variable {s t : Service} {u : Updater}

theorem writeSide (h : s.Alike b t) (u : Updater) : (s.writeSide u).Alike b (t.writeSide u) :=
  ⟨(h.registries u.registry).queue, h.backends u.storage⟩

theorem setWriteSide (h : s.Alike b t) {w v : WriteSide} (hw : w.Alike b v) :
    (s.setWriteSide u w).Alike b (t.setWriteSide u v) := by
  have hset := h.setRegistry u.registry ((h.registries u.registry).withPending hw.queue)
  exact { hset with backends := h.backends.set hw.storage }

theorem setWriteSide_left (h : s.Alike b t) {w : WriteSide} (hw : w.Alike b (t.writeSide u)) :
    (s.setWriteSide u w).Alike b t := by
  have hset := h.setRegistry_left u.registry ((h.registries u.registry).withPending hw.queue)
  exact { hset with backends := h.backends.set_left hw.storage }

end Service.Alike

namespace Updater

theorem coincides_apply (u : Updater) : Coincides (Service.Alike b) (u.apply b) :=
  (WriteSide.coincides_runCycle _).within (fun _ _ h => h.writeSide u)
    fun _ _ _ _ h hw => h.setWriteSide hw

theorem unseen_apply (u : Updater) (hne : id ≠ b) : Unseen (Service.Alike b) (u.apply id) :=
  (WriteSide.unseen_runCycle hne _).within (fun _ _ h => h.writeSide u)
    fun _ _ _ h hw => h.setWriteSide_left hw

theorem coincides_enqueue (u : Updater) (updates : List Update) :
    Coincides (Service.Alike b) (u.enqueue b updates) :=
  Coincides.within (.update fun _ _ h => h.enqueue updates) (fun _ _ h => h.writeSide u)
    fun _ _ _ _ h hw => h.setWriteSide hw

theorem unseen_enqueue (u : Updater) (hne : id ≠ b) (updates : List Update) :
    Unseen (Service.Alike b) (u.enqueue id updates) :=
  Unseen.within (Q := WriteSide.Alike b) ⟨fun _ _ h => h.enqueue_left hne updates⟩
    (fun _ _ h => h.writeSide u) fun _ _ _ h hw => h.setWriteSide_left hw

end Updater

namespace Service.Alike

variable {s t : Service} {ref : SchedulerRef}

/-- A task of the dictionary runs in both services, and of any other in either. -/
theorem get?_task (h : s.Alike b t) (ref : SchedulerRef) :
    (∃ task, task.id = b ∧ s.schedulers.get? ref = some task ∧
        t.schedulers.get? ref = some task) ∨
      (∀ task, s.schedulers.get? ref = some task → task.id ≠ b) ∧
        ∀ task, t.schedulers.get? ref = some task → task.id ≠ b := by
  by_cases hrunning : ∃ task, s.schedulers.get? ref = some task ∧ task.id = b
  · obtain ⟨task, hs, htask⟩ := hrunning
    exact .inl ⟨task, htask, hs, (h.tasks ref task htask).2 hs⟩
  · refine .inr ⟨fun task hs htask => hrunning ⟨task, hs, htask⟩, fun task ht htask => ?_⟩
    exact hrunning ⟨task, (h.tasks ref task htask).1 ht, htask⟩

theorem eraseTask (h : s.Alike b t) (ref : SchedulerRef) :
    Alike b { s with schedulers := s.schedulers.erase ref }
      { t with schedulers := t.schedulers.erase ref } := by
  refine { h with tasks := fun ref' task htask => ?_ }
  by_cases href : ref' = ref
  · rw [href, OrderedMap.get?_erase_self, OrderedMap.get?_erase_self]
  · rw [OrderedMap.get?_erase_of_ne _ href, OrderedMap.get?_erase_of_ne _ href]
    exact h.tasks ref' task htask

theorem eraseTask_left (h : s.Alike b t)
    (hs : ∀ task, s.schedulers.get? ref = some task → task.id ≠ b) :
    Alike b { s with schedulers := s.schedulers.erase ref } t := by
  refine { h with tasks := fun ref' task htask => ?_ }
  by_cases href : ref' = ref
  · subst href
    rw [OrderedMap.get?_erase_self, h.tasks ref' task htask]
    exact ⟨fun hget => absurd htask (hs task hget), fun hnone => by simp at hnone⟩
  · rw [OrderedMap.get?_erase_of_ne _ href]
    exact h.tasks ref' task htask

end Service.Alike

namespace Scheduler

variable {s t : Service} {ref : SchedulerRef}

theorem cycle_alike {task : Scheduler} (htask : task.id = b) (h : s.Alike b t) :
    (task.cycle s).2.Alike b (task.cycle t).2 := by
  rw [cycle_eq, cycle_eq, htask]
  exact ((Updater.coincides_apply task.updater).run s t h).2

theorem cycle_unseen {task : Scheduler} (hne : task.id ≠ b) (h : s.Alike b t) :
    (task.cycle s).2.Alike b t := by
  rw [cycle_eq]
  exact (Updater.unseen_apply task.updater hne).run s t h

theorem stop_unseen (h : s.Alike b t)
    (hs : ∀ task, s.schedulers.get? ref = some task → task.id ≠ b) :
    (stop ref s).2.Alike b t := by
  rw [stop, Action.read_bind]
  cases hget : s.schedulers.get? ref with
  | none => exact h
  | some task =>
    dsimp only
    rw [Action.update_bind]
    split
    · exact cycle_unseen (hs task hget) (h.eraseTask_left hs)
    · exact h.eraseTask_left hs

/-- A task of any dictionary is stopped. -/
theorem stop_alike (h : s.Alike b t) (ref : SchedulerRef) :
    (stop ref s).2.Alike b (stop ref t).2 := by
  rcases h.get?_task ref with ⟨task, htask, hs, ht⟩ | ⟨hs, ht⟩
  · rw [stop, Action.read_bind, Action.read_bind, hs, ht]
    dsimp only
    rw [Action.update_bind, Action.update_bind]
    split
    · exact cycle_alike htask (h.eraseTask ref)
    · exact h.eraseTask ref
  · exact (stop_unseen (stop_unseen h hs).symm ht).symm

end Scheduler

namespace Service

variable {s t : Service}

theorem Alike.closed (h : s.Alike b t) (owner : RegistryRef) :
    (s.closed owner).Alike b (t.closed owner) :=
  h.setRegistry owner { h.registries owner with isShutDown := rfl }

/-- The tasks of other dictionaries are stopped unseen. -/
theorem stopOwned_alike_filter (owner : RegistryRef) {tasks : List (SchedulerRef × Scheduler)}
    (htasks : ∀ e ∈ tasks, ∀ task, s.schedulers.get? e.1 = some task → task = e.2)
    (h : s.Alike b t) :
    (stopOwned owner tasks s).Alike b (stopOwned owner (tasks.filter fun e => e.2.id = b) t) := by
  induction tasks generalizing s t with
  | nil => exact h
  | cons e rest ih =>
    obtain ⟨ref, task⟩ := e
    obtain ⟨hfirst, hrest⟩ := List.forall_mem_cons.1 htasks
    have hkept : ∀ e ∈ rest, ∀ task', (if task.owner = some owner then (Scheduler.stop ref s).2
        else s).schedulers.get? e.1 = some task' → task' = e.2 := by
      intro e he task' hget
      split at hget
      · exact hrest e he task' ((StopsTasks.stop rfl).running _ _ hget)
      · exact hrest e he task' hget
    by_cases htask : task.id = b
    · rw [List.filter_cons_of_pos (by simpa using htask)]
      refine ih hkept ?_
      split
      · exact Scheduler.stop_alike h ref
      · exact h
    · rw [List.filter_cons_of_neg (by simpa using htask)]
      refine ih hkept ?_
      split
      · exact Scheduler.stop_unseen h fun task' hget => hfirst task' hget ▸ htask
      · exact h

theorem Alike.flushed (h : s.Alike b t) (owner : RegistryRef) :
    (s.flushed owner).Alike b (t.flushed owner) := by
  have hentries (s : Service) : ∀ e ∈ s.schedulers.entries, ∀ task,
      (s.closed owner).schedulers.get? e.1 = some task → task = e.2 := by
    intro e he task hget
    exact Option.some.inj (hget.symm.trans (OrderedMap.get?_eq_some_iff.2 he))
  have hsame : (s.schedulers.entries.filter fun e => e.2.id = b) =
      t.schedulers.entries.filter fun e => e.2.id = b :=
    OrderedMap.filter_entries_of_iff fun ref task htask =>
      (h.tasks ref task (by simpa using htask)).symm
  have hclosed := h.closed owner
  have hself : (t.closed owner).Alike b (t.closed owner) := hclosed.symm.trans hclosed
  have hs := stopOwned_alike_filter owner (hentries s) hclosed
  have ht := stopOwned_alike_filter owner (hentries t) hself
  rw [hsame] at hs
  exact hs.trans ht.symm

theorem Alike.shutDownRegistry (h : s.Alike b t) (target : RegistryRef) :
    (shutDownRegistry target s).2.Alike b (shutDownRegistry target t).2 := by
  rw [shutDownRegistry_apply, shutDownRegistry_apply]
  exact (h.flushed target).setRegistry target ((h.flushed target).registries target).clear

end Service

theorem Updater.launch_alike {s t : Service} (h : s.Alike b t) (u : Updater) (id : DictionaryId)
    (owner : Option RegistryRef) (period : Duration) :
    (u.launch id owner period t).1 = (u.launch id owner period s).1 ∧
      (u.launch id owner period s).2.Alike b (u.launch id owner period t).2 := by
  unfold launch
  refine ⟨h.started, ?_⟩
  rw [h.started]
  split
  · refine { h with started := rfl, tasks := fun ref task htask => ?_ }
    by_cases href : ref = s.started
    · rw [href, OrderedMap.get?_insert_self, OrderedMap.get?_insert_self]
    · rw [OrderedMap.get?_insert_of_ne _ _ href, OrderedMap.get?_insert_of_ne _ _ href]
      exact h.tasks ref task htask
  · exact { h with started := rfl, lost := congrArg (s.started :: ·) h.lost }

/-- A handle of any dictionary is built alike. -/
theorem Blueprint.coincides_build (p : Blueprint) (draws : Draws) (hasRuntime : Bool) :
    Coincides (Service.Alike b) (p.build draws hasRuntime) := by
  have hchecked : Coincides (Service.Alike b) (fun s => (p.checked s, s)) := by
    refine ⟨fun s t h => ⟨?_, h⟩⟩
    simp only [checked, Registry.requireOpen, (h.registries p.registry).isShutDown]
  have hspawn (u : Updater) (id : DictionaryId) :
      Coincides (Service.Alike b) (u.spawn id (some p.registry) hasRuntime) := by
    unfold Updater.spawn
    cases u.config.commitInterval with
    | none => exact .fail _
    | some period =>
      dsimp only
      split
      · exact .fail _
      · split
        · exact .fail _
        · exact ⟨fun s t h => (Updater.launch_alike h u id _ period).imp_left (congrArg Except.ok)⟩
  refine hchecked.bind fun refs => ?_
  dsimp only
  cases (p.identity draws).1.commitInterval with
  | none => exact Coincides.bind (.pure _) fun _ => .pure _
  | some _ => exact (hspawn _ _).bind fun _ => Coincides.bind (.pure _) fun _ => .pure _

end AuthDict
