import AuthDict.Proofs.Dictionary.Accounting
import AuthDict.Proofs.Dictionary.Tasks
import AuthDict.Proofs.Updater.Journal

/-!
# Conservation of updates

The updates of a registry's dictionaries, from their insertion to the end of the registry. Handles
insert, cycles are asked for, run in the background or end a task or a handle, and dictionaries and
registries are released. Each of these operations has a journal of what it moves in the queues of the
registry, which lists every cycle that the operation runs. The journal of a run is balanced, so the
count that the end of the registry returns is what the journal says was neither applied nor lost.
-/
namespace AuthDict

/-- The queues of a registry. -/
def Service.queues (s : Service) (ref : RegistryRef) : DictionaryId → List Update :=
  (s.registry ref).pending.queue

/-- What a cycle moves in the queues of a registry. -/
def Updater.journal (ref : RegistryRef) (u : Updater) (id : DictionaryId) (s : Service) : Journal :=
  if u.registry = ref then
    .ofCycle u.config.onApplyFailure id (s.queues ref id) (u.apply id s).1
  else []

/-- What is enqueued when entries have been inserted. -/
def Dictionary.insertJournal (ref : RegistryRef) (d : Dictionary) (es : List Entry) : Journal :=
  if d.updater.registry = ref then [⟨.enqueued, d.id, es.map d.updateOf⟩] else []

/-- A task that is stopped ends with a cycle if its updater flushes. -/
def Scheduler.stopJournal (ref : RegistryRef) (task : SchedulerRef) (s : Service) : Journal :=
  match s.schedulers.get? task with
  | none => []
  | some t =>
    if t.updater.config.flushOnShutdown then
      t.updater.journal ref t.id { s with schedulers := s.schedulers.erase task }
    else []

def Dictionary.stopJournal (ref : RegistryRef) (d : Dictionary) (s : Service) : Journal :=
  match d.scheduler with
  | some task => Scheduler.stopJournal ref task s
  | none => []

/-- The queue of a dictionary is removed from a registry. -/
def Service.removalJournal (ref target : RegistryRef) (a : Account) (id : DictionaryId)
    (s : Service) : Journal :=
  if target = ref then [⟨a, id, s.queues ref id⟩] else []

/-- What follows once the task of a handle is stopped: nothing if it was lost, else a cycle if
updates wait, and the release unless the cycle fails. -/
def Dictionary.endJournal (ref : RegistryRef) (d : Dictionary) (s : Service) : Journal :=
  if (d.lostTask? s).isSome then []
  else if 0 < d.pendingCount s then
    d.updater.journal ref d.id s ++
      match d.apply s with
      | (.ok _, s') => s'.removalJournal ref d.registry .dropped d.id
      | (.error _, _) => []
  else s.removalJournal ref d.registry .dropped d.id

def Dictionary.shutDownJournal (ref : RegistryRef) (d : Dictionary) (s : Service) : Journal :=
  d.stopJournal ref s ++ d.endJournal ref (d.stopScheduler s).2

namespace Service

/-- What the last cycles of these tasks move. -/
def stopOwnedJournal (ref owner : RegistryRef) :
    List (SchedulerRef × Scheduler) → Service → Journal
  | [], _ => []
  | (task, t) :: rest, s =>
    if t.owner = some owner then
      Scheduler.stopJournal ref task s ++ stopOwnedJournal ref owner rest (Scheduler.stop task s).2
    else stopOwnedJournal ref owner rest s

/-- What the last cycles of a registry's tasks move. -/
def flushJournal (ref owner : RegistryRef) (s : Service) : Journal :=
  stopOwnedJournal ref owner s.schedulers.entries (s.closed owner)

/-- The end of a registry drops what is queued after the last cycles. -/
def shutDownJournal (ref target : RegistryRef) (s : Service) : Journal :=
  s.flushJournal ref target ++
    if target = ref then ((s.flushed target).registry ref).pending.dropped else []

theorem queues_setRegistry_of_ne {ref target : RegistryRef} (h : target ≠ ref) (s : Service)
    (r : Registry) : (s.setRegistry target r).queues ref = s.queues ref := by
  rw [queues, registry_setRegistry_of_ne s r (Ne.symm h), queues]

@[simp] theorem queues_setRegistry_self (ref : RegistryRef) (s : Service) (r : Registry) :
    (s.setRegistry ref r).queues ref = r.pending.queue := by
  rw [queues, registry_setRegistry_self]

theorem queues_of_registries {s s' : Service} (h : s'.registries = s.registries)
    (ref : RegistryRef) : s'.queues ref = s.queues ref := by
  rw [queues, registry, h]
  rfl

/-- A registry whose queues stay as they are may change otherwise. -/
theorem queues_setRegistry_of_same (target : RegistryRef) (s : Service) (r : Registry)
    (h : r.pending.queue = s.queues target) (ref : RegistryRef) :
    (s.setRegistry target r).queues ref = s.queues ref := by
  by_cases href : target = ref
  · rw [← href, queues_setRegistry_self, h]
  · exact queues_setRegistry_of_ne href s r

end Service

open Journal (Balances)

variable {ref : RegistryRef} {s s' : Service}

theorem Updater.balances_apply {u : Updater} {id : DictionaryId} {r : Except Error ApplyOutcome}
    (h : u.apply id s = (r, s')) : (u.journal ref id s).Balances (s.queues ref) (s'.queues ref) := by
  rw [journal, h]
  rw [apply, Action.within_apply] at h
  generalize hrun : WriteSide.runCycle u.config.onApplyFailure id (s.writeSide u) = out at h
  obtain ⟨r', w⟩ := out
  obtain ⟨rfl, rfl⟩ := Prod.mk.inj h
  by_cases href : u.registry = ref
  · subst href
    rw [if_pos rfl, Service.queues, Service.queues, Service.setWriteSide_registry_self]
    have hbalances := WriteSide.balances_runCycle hrun
    exact hbalances
  · rw [if_neg href, Service.queues, Service.queues,
      Service.setWriteSide_registry_of_ne (Ne.symm href)]
    exact .nil fun _ => rfl

theorem Updater.balances_enqueue {u : Updater} {id : DictionaryId} {us : List Update}
    {r : Except Error Unit} (h : u.enqueue id us s = (r, s')) :
    (if u.registry = ref then [⟨.enqueued, id, us⟩] else [] : Journal).Balances (s.queues ref)
      (s'.queues ref) := by
  rw [enqueue, Action.within_apply] at h
  obtain ⟨-, rfl⟩ := Prod.mk.inj h
  by_cases href : u.registry = ref
  · subst href
    rw [if_pos rfl, Service.queues, Service.queues, Service.setWriteSide_registry_self]
    have hqueue : ((s.writeSide u).enqueue id us).pending.queue id =
        (s.writeSide u).pending.queue id ++ us := by
      unfold WriteSide.enqueue
      split
      · next hempty => rw [List.isEmpty_iff.1 hempty, List.append_nil]
      · exact PendingTable.queue_enqueue ..
    refine .enqueued hqueue fun id' hne => ?_
    change ((s.writeSide u).enqueue id us).pending.queue id' = _
    unfold WriteSide.enqueue
    split
    · rfl
    · exact PendingTable.queue_enqueue_of_ne _ us hne
  · rw [if_neg href, Service.queues, Service.queues,
      Service.setWriteSide_registry_of_ne (Ne.symm href)]
    exact .nil fun _ => rfl

namespace Dictionary

variable {d : Dictionary}

theorem registries_writeEntry {e : Entry} {r : Except Error Update}
    (h : d.writeEntry e s = (r, s')) : s'.registries = s.registries := by
  rcases Action.bind_cases h with ⟨x, hl, -⟩ | ⟨found, s₁, hl, h⟩
  · obtain ⟨-, rfl⟩ := Prod.mk.inj hl
    rfl
  · obtain ⟨-, rfl⟩ := Prod.mk.inj hl
    cases found with
    | some _ =>
      obtain ⟨-, rfl⟩ := Prod.mk.inj h
      rfl
    | none =>
      rcases Action.bind_cases h with ⟨x, hw, -⟩ | ⟨_, s₂, hw, h⟩
      · obtain ⟨-, rfl⟩ := Prod.mk.inj hw
        rfl
      · obtain ⟨-, rfl⟩ := Prod.mk.inj hw
        obtain ⟨-, rfl⟩ := Prod.mk.inj h
        rfl

theorem writeEntry_ok {e : Entry} {update : Update} (h : d.writeEntry e s = (.ok update, s')) :
    update = d.updateOf e := by
  rcases (writeEntry_cases h).2 with ⟨x, hx, -⟩ | ⟨hok, -⟩
  · contradiction
  · exact Except.ok.inj hok

theorem takeWriteLock_queues (d : Dictionary) (s : Service) :
    ∃ lock s', d.takeWriteLock s = (.ok lock, s') ∧ ∀ ref, s'.queues ref = s.queues ref := by
  refine ⟨_, _, Service.onRegistry_apply .., fun ref => ?_⟩
  exact Service.queues_setRegistry_of_same d.registry s
    ((s.registry d.registry).writeLock d.id).2 rfl ref

theorem queues_insert_of_error {e : Entry} {x : Error} (h : d.insert e s = (.error x, s')) :
    s'.queues ref = s.queues ref := by
  obtain ⟨lock, s₁, hlock, hqueues⟩ := d.takeWriteLock_queues s
  rw [insert, Action.bind_ok hlock] at h
  rcases Action.bind_cases h with ⟨_, hw, -⟩ | ⟨update, s₂, -, h⟩
  · rw [Service.queues_of_registries (registries_writeEntry hw), hqueues]
  · rw [Updater.enqueue, Action.within_apply] at h
    exact absurd (Prod.mk.inj h).1 (by simp [Action.update])

/-- An insertion that succeeds enqueues the entry's update. -/
theorem balances_insert {e : Entry} (h : d.insert e s = (.ok (), s')) :
    (d.insertJournal ref [e]).Balances (s.queues ref) (s'.queues ref) := by
  obtain ⟨lock, s₁, hlock, hqueues⟩ := d.takeWriteLock_queues s
  rw [insert, Action.bind_ok hlock] at h
  rcases Action.bind_cases h with ⟨_, -, hx⟩ | ⟨update, s₂, hw, h⟩
  · contradiction
  · obtain rfl := writeEntry_ok hw
    rw [← hqueues ref, ← Service.queues_of_registries (registries_writeEntry hw) ref]
    exact Updater.balances_enqueue h

theorem invariant_registries (d : Dictionary) (first : Service) :
    Shards.Crew.Invariant d.writeEntry fun ws s =>
      s.registries = first.registries ∧ ∀ w ∈ ws, w.2 = d.updateOf w.1 where
  perm hp h := ⟨h.1, fun w hw => h.2 w (hp.mem_iff.2 hw)⟩
  wrote hw h :=
    ⟨(registries_writeEntry hw).trans h.1, List.forall_mem_cons.2 ⟨writeEntry_ok hw, h.2⟩⟩
  failed hw h := ⟨(registries_writeEntry hw).trans h.1, h.2⟩

/-- A batch enqueues the updates of the entries it has written. -/
theorem InsertsBatch.balances {entries es : List Entry} {r : Except Error Nat}
    (h : d.InsertsBatch entries s r es s') :
    (d.insertJournal ref es).Balances (s.queues ref) (s'.queues ref) := by
  cases h with
  | @run lock s₁ _ c hlock hrun _ henq =>
    obtain ⟨_, _, hlock', hqueues⟩ := d.takeWriteLock_queues s
    obtain ⟨-, rfl⟩ := Prod.mk.inj (hlock.symm.trans hlock')
    obtain ⟨hregistries, hupdates⟩ := hrun.invariant (invariant_registries d s₁)
      ⟨rfl, by simp [Shards.Crew.written_start]⟩
    have hus : c.outcome.updates = (c.written.map (·.1)).map d.updateOf := by
      rw [List.map_map]
      exact List.map_congr_left hupdates
    rw [← hqueues ref, ← Service.queues_of_registries hregistries ref, insertJournal, ← hus]
    exact Updater.balances_enqueue henq

end Dictionary

theorem Service.balances_removal (ref target : RegistryRef) {a : Account} (ha : a ≠ .enqueued)
    (id : DictionaryId) (s : Service) {r : Registry}
    (hr : r.pending = ((s.registry target).pending.remove id).2) :
    (s.removalJournal ref target a id).Balances (s.queues ref)
      ((s.setRegistry target r).queues ref) := by
  by_cases href : target = ref
  · subst href
    rw [removalJournal, if_pos rfl, queues_setRegistry_self, hr]
    exact .emptied ha ((s.registry target).pending.queue_remove id)
      fun id' hne => (s.registry target).pending.queue_remove_of_ne hne
  · rw [removalJournal, if_neg href, queues_setRegistry_of_ne href]
    exact .nil fun _ => rfl

theorem Dictionary.balances_released (ref : RegistryRef) (d : Dictionary) (s : Service) :
    (s.removalJournal ref d.registry .dropped d.id).Balances (s.queues ref)
      ((d.released s).queues ref) :=
  Service.balances_removal ref d.registry (by decide) d.id s rfl

theorem Scheduler.balances_stop {task : SchedulerRef} {r : Except Error Unit}
    (h : stop task s = (r, s')) :
    (stopJournal ref task s).Balances (s.queues ref) (s'.queues ref) := by
  unfold stopJournal
  obtain ⟨-, ⟨hget, rfl⟩ | ⟨t, hget, ⟨hflush, rfl⟩ | ⟨hflush, rfl⟩⟩⟩ := stop_cases h
  · rw [hget]
    exact .nil fun _ => rfl
  · simp only [hget, hflush, if_true]
    exact Updater.balances_apply rfl
  · simp only [hget, hflush]
    exact .nil fun _ => rfl

namespace Dictionary

variable {d : Dictionary}

theorem balances_stopScheduler {r : Except Error Unit} (h : d.stopScheduler s = (r, s')) :
    (d.stopJournal ref s).Balances (s.queues ref) (s'.queues ref) := by
  unfold stopJournal
  rcases stopScheduler_cases h with ⟨hnone, -, rfl⟩ | ⟨task, htask, hstop⟩
  · rw [hnone]
    exact .nil fun _ => rfl
  · rw [htask]
    exact Scheduler.balances_stop hstop

theorem balances_shutDown {r : Except Error Unit} (h : d.shutDown s = (r, s')) :
    (d.shutDownJournal ref s).Balances (s.queues ref) (s'.queues ref) := by
  unfold shutDownJournal
  cases shutDown_ends h with
  | lost hstop hlost =>
    rw [hstop, endJournal, if_pos (by simp [hlost])]
    exact (balances_stopScheduler hstop).append (.nil fun _ => rfl)
  | failed hstop hlost hpending happly =>
    rw [hstop, endJournal, if_neg (by simp [hlost]), if_pos hpending, happly]
    refine (balances_stopScheduler hstop).append ?_
    exact (Updater.balances_apply happly).append (.nil fun _ => rfl)
  | flushed hstop hlost hpending happly =>
    rw [hstop, endJournal, if_neg (by simp [hlost]), if_pos hpending, happly]
    refine (balances_stopScheduler hstop).append ?_
    exact (Updater.balances_apply happly).append (d.balances_released ref _)
  | empty hstop hlost hzero =>
    rw [hstop, endJournal, if_neg (by simp [hlost]), if_neg (by simp [hzero])]
    exact (balances_stopScheduler hstop).append (d.balances_released ref _)

end Dictionary

namespace Service

theorem balances_stopOwned (ref owner : RegistryRef) (tasks : List (SchedulerRef × Scheduler))
    (s : Service) :
    (stopOwnedJournal ref owner tasks s).Balances (s.queues ref)
      ((stopOwned owner tasks s).queues ref) := by
  induction tasks generalizing s with
  | nil => exact .nil fun _ => rfl
  | cons e rest ih =>
    obtain ⟨task, t⟩ := e
    unfold stopOwnedJournal stopOwned
    split
    · exact (Scheduler.balances_stop rfl).append (ih _)
    · exact ih s

theorem balances_flush (ref owner : RegistryRef) (s : Service) :
    (s.flushJournal ref owner).Balances (s.queues ref) ((s.flushed owner).queues ref) := by
  have hclosed : (s.closed owner).queues ref = s.queues ref :=
    queues_setRegistry_of_same owner s { s.registry owner with isShutDown := true } rfl ref
  have hstopped := balances_stopOwned ref owner s.schedulers.entries (s.closed owner)
  rwa [hclosed] at hstopped

theorem balances_shutDownRegistry {target : RegistryRef} {r : Except Error Nat}
    (h : shutDownRegistry target s = (r, s')) :
    (s.shutDownJournal ref target).Balances (s.queues ref) (s'.queues ref) := by
  rw [shutDownRegistry_apply] at h
  obtain ⟨-, rfl⟩ := Prod.mk.inj h
  refine (s.balances_flush ref target).append ?_
  by_cases href : target = ref
  · subst href
    rw [if_pos rfl, queues_setRegistry_self]
    exact PendingTable.balances_clear _
  · rw [if_neg href, queues_setRegistry_of_ne href]
    exact .nil fun _ => rfl

end Service

/-- Building a handle leaves every queue alone. -/
theorem Blueprint.queues_build {b : Blueprint} {draws : Draws} {hasRuntime : Bool}
    {r : Except Error Dictionary} (h : b.build draws hasRuntime s = (r, s')) :
    s'.queues ref = s.queues ref := by
  rcases build_cases h with ⟨_, -, rfl⟩ | ⟨_, _, _, -, -, ⟨-, rfl⟩ | ⟨period, -, hlaunch⟩⟩
  · rfl
  · rfl
  · rw [hlaunch]
    unfold Updater.launch
    split <;> rfl

namespace Conservation

/-- One thing that happens in a service, with what it moves in the queues of a registry. -/
inductive Step (ref : RegistryRef) (s : Service) : Journal → Service → Prop
  | insert {d : Dictionary} {e : Entry} {s' : Service} :
      d.insert e s = (.ok (), s') → Step ref s (d.insertJournal ref [e]) s'
  | insertFailed {d : Dictionary} {e : Entry} {x : Error} {s' : Service} :
      d.insert e s = (.error x, s') → Step ref s [] s'
  | insertBatch {d : Dictionary} {entries es : List Entry} {r : Except Error Nat} {s' : Service} :
      d.InsertsBatch entries s r es s' → Step ref s (d.insertJournal ref es) s'
  | apply {u : Updater} {id : DictionaryId} {r : Except Error ApplyOutcome} {s' : Service} :
      u.apply id s = (r, s') → Step ref s (u.journal ref id s) s'
  | tick {t : Scheduler} {r : Except Error Unit} {s' : Service} :
      t.cycle s = (r, s') → Step ref s (t.updater.journal ref t.id s) s'
  | stop {task : SchedulerRef} {r : Except Error Unit} {s' : Service} :
      Scheduler.stop task s = (r, s') → Step ref s (Scheduler.stopJournal ref task s) s'
  | shutDown {d : Dictionary} {r : Except Error Unit} {s' : Service} :
      d.shutDown s = (r, s') → Step ref s (d.shutDownJournal ref s) s'
  | release (target : RegistryRef) (id : DictionaryId) :
      Step ref s (s.removalJournal ref target .dropped id)
        (s.setRegistry target ((s.registry target).release id))
  /-- The table of a registry is used directly. -/
  | remove (target : RegistryRef) (id : DictionaryId) :
      Step ref s (s.removalJournal ref target .returned id)
        (s.setRegistry target { s.registry target with
          pending := ((s.registry target).pending.remove id).2 })
  | shutDownRegistry {target : RegistryRef} {r : Except Error Nat} {s' : Service} :
      Service.shutDownRegistry target s = (r, s') → Step ref s (s.shutDownJournal ref target) s'
  /-- Queries, building of handles, outages of backends, and whatever else leaves the queues of the
  registry alone. -/
  | elsewhere {s' : Service} : s'.queues ref = s.queues ref → Step ref s [] s'

inductive Run (ref : RegistryRef) (first : Service) : Journal → Service → Prop
  | refl : Run ref first [] first
  | step {J K : Journal} {s s' : Service} : Run ref first J s → Step ref s K s' →
      Run ref first (J ++ K) s'

theorem Step.balances {J : Journal} (h : Step ref s J s') :
    J.Balances (s.queues ref) (s'.queues ref) := by
  cases h with
  | insert h => exact Dictionary.balances_insert h
  | insertFailed h =>
    rw [Dictionary.queues_insert_of_error h]
    exact .nil fun _ => rfl
  | insertBatch h => exact h.balances
  | apply h => exact Updater.balances_apply h
  | @tick t _ _ h =>
    obtain ⟨-, rfl⟩ := Prod.mk.inj (h.symm.trans (t.cycle_eq s))
    exact Updater.balances_apply rfl
  | stop h => exact Scheduler.balances_stop h
  | shutDown h => exact Dictionary.balances_shutDown h
  | release target id => exact Service.balances_removal ref target (by decide) id s rfl
  | remove target id => exact Service.balances_removal ref target (by decide) id s rfl
  | shutDownRegistry h => exact Service.balances_shutDownRegistry h
  | elsewhere h =>
    rw [h]
    exact .nil fun _ => rfl

theorem Run.balances {first : Service} {J : Journal} (h : Run ref first J s) :
    J.Balances (first.queues ref) (s.queues ref) := by
  induction h with
  | refl => exact .nil fun _ => rfl
  | step _ hs ih => exact ih.append hs.balances

/-- A last cycle applies or discards, and moves nothing else. -/
theorem account_stopJournal {task : SchedulerRef} :
    ∀ p ∈ Scheduler.stopJournal ref task s, p.account = .applied ∨ p.account = .discarded := by
  have hcycle (policy : FailurePolicy) (id : DictionaryId) (batch : List Update)
      (r : Except Error ApplyOutcome) :
      ∀ p ∈ Journal.ofCycle policy id batch r, p.account = .applied ∨ p.account = .discarded := by
    rcases r with e | _ | _ <;> cases policy <;> simp [Journal.ofCycle]
  unfold Scheduler.stopJournal
  split
  · simp
  · split
    · unfold Updater.journal
      split
      · exact hcycle _ _ _ _
      · simp
    · simp

theorem account_flushJournal (owner : RegistryRef) :
    ∀ p ∈ s.flushJournal ref owner, p.account = .applied ∨ p.account = .discarded := by
  rw [Service.flushJournal]
  generalize s.schedulers.entries = tasks
  generalize s.closed owner = s
  induction tasks generalizing s with
  | nil => simp [Service.stopOwnedJournal]
  | cons e rest ih =>
    unfold Service.stopOwnedJournal
    split
    · exact List.forall_mem_append.2 ⟨account_stopJournal, ih _⟩
    · exact ih s

theorem total_append_flushJournal (J : Journal) {a : Account} (happlied : a ≠ .applied)
    (hdiscarded : a ≠ .discarded) (owner : RegistryRef) :
    Journal.total (J ++ s.flushJournal ref owner) a = J.total a := by
  have hzero : (s.flushJournal ref owner).total a = 0 := by
    refine Journal.total_eq_zero fun p hp ha => ?_
    rcases account_flushJournal owner p hp with h | h
    · exact happlied (ha.symm.trans h)
    · exact hdiscarded (ha.symm.trans h)
  rw [Journal.total_append, hzero, Nat.add_zero]

/-- The end of a registry returns what its journal leaves queued. -/
theorem shutDownRegistry_counts {first : Service} {J : Journal}
    (hfirst : ∀ id, first.queues ref id = []) (h : Run ref first J s) :
    ((s.flushed ref).registry ref).pending.clear.1 +
      Journal.totalSpent (J ++ s.flushJournal ref ref) =
        Journal.total (J ++ s.flushJournal ref ref) .enqueued := by
  generalize hK : J ++ s.flushJournal ref ref = K
  have hbalances : K.Balances (first.queues ref) ((s.flushed ref).queues ref) := by
    rw [← hK]
    exact h.balances.append (s.balances_flush ref ref)
  let t := ((s.flushed ref).registry ref).pending
  let ids := (K.map (·.id)).toFinset ∪ t.queues.keys.toFinset
  have hpostings : ∀ p ∈ K, p.id ∈ ids := fun p hp =>
    Finset.mem_union_left _ (List.mem_toFinset.2 (List.mem_map_of_mem hp))
  have hcount : t.clear.1 = ∑ id ∈ ids, t.pendingCount id :=
    t.clear_eq_sum fun id hid =>
      Finset.mem_union_right _ (List.mem_toFinset.2 (t.mem_keys_of_queue hid))
  have htotals := hbalances.totals hpostings
  have hzero : ∑ id ∈ ids, (first.queues ref id).length = 0 :=
    Finset.sum_eq_zero fun id _ => by rw [hfirst id, List.length_nil]
  rw [hzero, Nat.zero_add] at htotals
  rw [htotals, Nat.add_comm]
  exact congrArg _ hcount

open WriteSide (journal runAll)

/-- Every update that has been enqueued was applied, was discarded with a failed batch, was returned
or dropped with its queue, or is queued. The applied batches, in order, make the stored trie: each
of them is one epoch, and their updates are written to its leaves. To clear a table counts what is
queued in it, and the end of a registry counts what was neither applied, its last cycles included,
nor discarded, returned or dropped. -/
theorem updates_accounted :
    (∀ (ops : List WriteSide.Operation) (w : WriteSide) (id : DictionaryId),
      (w.pending.queue id : Multiset Update) + (journal ops w).updates .enqueued id =
        ((journal ops w).updates .applied id : Multiset Update) +
          (journal ops w).updates .discarded id + (journal ops w).updates .returned id +
          (journal ops w).updates .dropped id + (runAll ops w).pending.queue id ∧
      (journal ops w).updates .applied id = ((journal ops w).batches id).flatten ∧
      (runAll ops w).stored id = (w.stored id).applyBatches ((journal ops w).batches id) ∧
      ((runAll ops w).stored id).epoch =
        (w.stored id).epoch + UInt64.ofNat ((journal ops w).batches id).length ∧
      ((runAll ops w).stored id).leaves = ((journal ops w).updates .applied id).foldl
        (fun leaves u => leaves.insert u.label u.commitment) (w.stored id).leaves) ∧
    (∀ t : PendingTable, (Function.support t.pendingCount).Finite ∧
      t.clear.1 = ∑ᶠ id, t.pendingCount id) ∧
    ∀ {ref : RegistryRef} {first s : Service} {J : Journal},
      (∀ id, first.queues ref id = []) → Run ref first J s →
      ∃ n s', Service.shutDownRegistry ref s = (.ok n, s') ∧
        n + Journal.total (J ++ s.flushJournal ref ref) .applied +
          Journal.total (J ++ s.flushJournal ref ref) .discarded +
          J.total .returned + J.total .dropped = J.total .enqueued ∧
        ∀ id, s'.queues ref id = [] := by
  refine ⟨fun ops w id => ?_, fun t => ?_, fun {ref first s J} hfirst hrun => ?_⟩
  · exact ⟨WriteSide.balances_journal ops w id, (Journal.flatten_batches _ id).symm,
      WriteSide.stored_runAll ops w id, WriteSide.epoch_stored_runAll ops w id,
      WriteSide.leaves_stored_runAll ops w id⟩
  · exact ⟨t.finite_support_pendingCount, t.clear_eq_finsum⟩
  · refine ⟨_, _, Service.shutDownRegistry_apply ref s, ?_, fun id => ?_⟩
    · have hcounts := shutDownRegistry_counts hfirst hrun
      have hsame (a : Account) (happlied : a ≠ .applied) (hdiscarded : a ≠ .discarded) :
          Journal.total (J ++ s.flushJournal ref ref) a = J.total a :=
        total_append_flushJournal J happlied hdiscarded ref
      rw [Journal.totalSpent, hsame .enqueued (by decide) (by decide),
        hsame .returned (by decide) (by decide), hsame .dropped (by decide) (by decide)] at hcounts
      omega
    · rw [Service.queues_setRegistry_self]
      exact PendingTable.queue_clear ..

/-- One of two dictionaries of a registry. It has a background task, and the updates of the other
wait for a cycle that nobody asks for. -/
def sampleTimed : Setting :=
  { config := { labelSeed := some (Block.zero 32), commitInterval := some { Duration.zero with secs := 1 } }
    draws := ⟨Block.zero 32, Block.zero 32, Block.ofNat 16 1⟩, storage := 0, registry := 0 }

def sampleTask : Dictionary := Blueprint.handle sampleTimed none (some 0)

def sampleStarted : Service := ((sampleTimed.fresh none).build sampleTimed.draws true {}).2

def sampleInserted : Service := (sampleTask.insert Deployment.sampleEntry sampleStarted).2

def sampleLeft : Service :=
  (Deployment.sampleHandle.insert Deployment.sampleOther sampleInserted).2

def sampleJournal : Journal :=
  sampleTask.insertJournal 0 [Deployment.sampleEntry] ++
    Deployment.sampleHandle.insertJournal 0 [Deployment.sampleOther]

theorem run_sampleLeft : Run 0 {} sampleJournal sampleLeft := by
  have hbuild : (sampleTimed.fresh none).build sampleTimed.draws true {} =
      (((sampleTimed.fresh none).build sampleTimed.draws true {}).1, sampleStarted) := by
    rw [sampleStarted]
  have hbuilt : Run 0 {} [] sampleStarted :=
    Run.refl.step (.elsewhere (Blueprint.queues_build hbuild))
  have htask : (sampleTask.insert Deployment.sampleEntry sampleStarted).1 = .ok () := by
    decide +kernel
  have hother : (Deployment.sampleHandle.insert Deployment.sampleOther sampleInserted).1 =
      .ok () := by
    decide +kernel
  exact (hbuilt.step (.insert (Prod.ext htask rfl))).step (.insert (Prod.ext hother rfl))

theorem updates_accounted_sampleLeft :
    (∀ id, ({} : Service).queues 0 id = []) ∧ Run 0 {} sampleJournal sampleLeft ∧
      sampleJournal.total .enqueued = 2 ∧
      Journal.total (sampleJournal ++ sampleLeft.flushJournal 0 0) .applied = 1 ∧
      ∃ s', Service.shutDownRegistry 0 sampleLeft = (.ok 1, s') := by
  have hempty (id : DictionaryId) : ({} : Service).queues 0 id = [] := rfl
  obtain ⟨n, s', hshut, hcount, -⟩ := updates_accounted.2.2 hempty run_sampleLeft
  have henqueued : sampleJournal.total .enqueued = 2 := by decide +kernel
  have happlied : Journal.total (sampleJournal ++ sampleLeft.flushJournal 0 0) .applied = 1 := by
    decide +kernel
  have hdiscarded :
      Journal.total (sampleJournal ++ sampleLeft.flushJournal 0 0) .discarded = 0 := by
    decide +kernel
  have hlost : sampleJournal.total .returned = 0 ∧ sampleJournal.total .dropped = 0 := by
    decide +kernel
  obtain rfl : n = 1 := by omega
  exact ⟨hempty, run_sampleLeft, henqueued, happlied, s', hshut⟩

end Conservation

end AuthDict
