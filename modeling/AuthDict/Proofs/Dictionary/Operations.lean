import AuthDict.Proofs.Dictionary.Records

/-!
# Operations that write

What the operations of one dictionary handle do to its holdings. An insertion that succeeds adds one
element and one update under the same key, and one that fails adds neither. Ending a dictionary runs
cycles, and its state is forgotten only when the queue is empty.
-/
namespace AuthDict

namespace Service

theorem onStorage_apply {α : Type} (ref : StorageRef) (x : Action Storage α) (s : Service) :
    onStorage ref x s = ((x (s.backends.get ref)).1,
      { s with backends := s.backends.set ref (x (s.backends.get ref)).2 }) := rfl

theorem onRegistry_apply {α : Type} (ref : RegistryRef) (f : Registry → α × Registry)
    (s : Service) :
    onRegistry ref f s = (.ok (f (s.registry ref)).1, s.setRegistry ref (f (s.registry ref)).2) :=
  rfl

theorem onStorage_reads {α : Type} {ref : StorageRef} {x : Action Storage α} {s s' : Service}
    {r : Except Error α} (hx : ∀ t : Storage, t.Agrees (x t).2) (h : onStorage ref x s = (r, s'))
    (p : Site) : s'.holdings p = s.holdings p ∧ s'.schedulers = s.schedulers := by
  rw [onStorage_apply] at h
  obtain ⟨-, rfl⟩ := Prod.mk.inj h
  exact ⟨holdings_of_agrees (Backends.agrees_set (hx _)) p, rfl⟩

theorem holdings_setElement {s : Service} {p : Site} {t : Storage} {key : Bytes}
    {element : StoredElement}
    (he : t.elements = (s.backends.get p.storage).elements.insert ⟨p.id, key⟩ element)
    (ht : t.tries = (s.backends.get p.storage).tries) :
    ({ s with backends := s.backends.set p.storage t } : Service).holdings p =
      (s.holdings p).withElement key element := by
  simp only [holdings, Holdings.withElement, Backends.get_set_self, he, ht]
  congr 1
  funext k
  by_cases hk : k = key
  · rw [if_pos hk, hk, OrderedMap.get?_insert_self]
  · rw [if_neg hk, OrderedMap.get?_insert_of_ne]
    exact fun h => hk (congrArg ElementKey.key h)

end Service

/-- The tasks of a dictionary work where it lives. -/
def Service.TasksServe (s : Service) (p : Site) (policy : FailurePolicy) : Prop :=
  ∀ ref t, s.schedulers.get? ref = some t → t.id = p.id → t.updater.Serves p policy

namespace Scheduler

variable {t : Scheduler} {p : Site} {policy : FailurePolicy} {s s' : Service}

/-- Nobody hears of the failure of a task's cycle. -/
theorem cycle_eq (t : Scheduler) (s : Service) :
    t.cycle s = (.ok (), (t.updater.apply t.id s).2) := by
  rw [cycle, Action.bind_apply, Action.attempt]
  rcases t.updater.apply t.id s with ⟨x, s₁⟩
  rfl

/-- A task runs a cycle of its dictionary, and nothing happens to any other. -/
theorem cycle_recorded (ht : t.id = p.id → t.updater.Serves p policy) {r : Except Error Unit}
    (h : t.cycle s = (r, s')) :
    r = .ok () ∧ s'.schedulers = s.schedulers ∧
      (s.holdings p).Recorded policy (t.updater.records p t.id s) (s'.holdings p) := by
  obtain ⟨rfl, rfl⟩ := Prod.mk.inj (h.symm.trans (t.cycle_eq s))
  exact ⟨rfl, Updater.apply_recorded ht rfl⟩

/-- A task that does not run is not stopped; one that runs no longer does, and may run a last
cycle. -/
theorem stop_cases {ref : SchedulerRef} {r : Except Error Unit} (h : stop ref s = (r, s')) :
    r = .ok () ∧ ((s.schedulers.get? ref = none ∧ s' = s) ∨
      ∃ t, s.schedulers.get? ref = some t ∧
        ((t.updater.config.flushOnShutdown = true ∧
            s' = (t.updater.apply t.id { s with schedulers := s.schedulers.erase ref }).2) ∨
          (t.updater.config.flushOnShutdown = false ∧
            s' = { s with schedulers := s.schedulers.erase ref }))) := by
  rw [stop, Action.read_bind] at h
  cases hget : s.schedulers.get? ref with
  | none =>
    simp only [hget] at h
    obtain ⟨rfl, rfl⟩ := Prod.mk.inj h
    exact ⟨rfl, .inl ⟨rfl, rfl⟩⟩
  | some t =>
    simp only [hget] at h
    rw [Action.update_bind] at h
    split at h
    · next hflush =>
      rw [cycle_eq] at h
      obtain ⟨rfl, rfl⟩ := Prod.mk.inj h
      exact ⟨rfl, .inr ⟨t, rfl, .inl ⟨hflush, rfl⟩⟩⟩
    · next hflush =>
      obtain ⟨rfl, rfl⟩ := Prod.mk.inj h
      exact ⟨rfl, .inr ⟨t, rfl, .inr ⟨Bool.eq_false_iff.2 hflush, rfl⟩⟩⟩

/-- Stopping a task ends with at most one cycle, and no task is started. -/
theorem stop_recorded (hs : s.TasksServe p policy) {ref : SchedulerRef} {r : Except Error Unit}
    (h : stop ref s = (r, s')) :
    r = .ok () ∧ (s'.schedulers = s.schedulers ∨ s'.schedulers = s.schedulers.erase ref) ∧
      (s.holdings p).Recorded policy (stopRecords ref p s) (s'.holdings p) := by
  unfold stopRecords
  obtain ⟨rfl, ⟨hget, rfl⟩ | ⟨t, hget, ⟨hflush, rfl⟩ | ⟨hflush, rfl⟩⟩⟩ := stop_cases h
  · rw [hget]
    exact ⟨rfl, .inl rfl, .refl⟩
  · obtain ⟨hsch, hc⟩ := Updater.apply_recorded (p := p) (hs ref t hget) rfl
    rw [hget]
    dsimp only
    rw [if_pos hflush]
    exact ⟨rfl, .inr hsch, hc⟩
  · rw [hget]
    dsimp only
    rw [if_neg (by simp [hflush])]
    exact ⟨rfl, .inr rfl, .refl⟩

end Scheduler

namespace Service

/-- Stops those of some tasks that belong to a registry, one after the other. -/
def stopOwned (owner : RegistryRef) : List (SchedulerRef × Scheduler) → Service → Service
  | [], s => s
  | (task, t) :: rest, s =>
    stopOwned owner rest (if t.owner = some owner then (Scheduler.stop task s).2 else s)

/-- The service in which a registry no longer takes new tasks. -/
def closed (owner : RegistryRef) (s : Service) : Service :=
  s.setRegistry owner { s.registry owner with isShutDown := true }

/-- The service in which the last cycles of a registry's tasks have run. -/
def flushed (owner : RegistryRef) (s : Service) : Service :=
  stopOwned owner s.schedulers.entries (s.closed owner)

theorem forM_stop (owner : RegistryRef) (tasks : List (SchedulerRef × Scheduler)) (s : Service) :
    (tasks.forM fun (task, t) => do
      if t.owner = some owner then Scheduler.stop task : Action Service Unit) s =
        (.ok (), stopOwned owner tasks s) := by
  induction tasks generalizing s with
  | nil => rfl
  | cons e rest ih =>
    obtain ⟨task, t⟩ := e
    unfold List.forM stopOwned
    dsimp only
    split
    · obtain ⟨hok, -⟩ := Scheduler.stop_cases (s := s) (r := (Scheduler.stop task s).1) rfl
      have hstop : Scheduler.stop task s = (.ok (), (Scheduler.stop task s).2) := Prod.ext hok rfl
      rw [Action.bind_ok hstop]
      exact ih _
    · exact ih s

/-- The end of a registry always succeeds. It counts what is queued after the last cycles. -/
theorem shutDownRegistry_apply (target : RegistryRef) (s : Service) :
    shutDownRegistry target s =
      (.ok ((s.flushed target).registry target).pending.clear.1,
        (s.flushed target).setRegistry target ((s.flushed target).registry target).clear.2) := by
  rw [shutDownRegistry, Action.bind_ok (onRegistry_apply ..), Action.read_bind]
  exact Action.bind_ok (forM_stop target _ _) _

end Service

namespace Dictionary

open Service

variable {d : Dictionary} {policy : FailurePolicy} {s s' : Service}

def site (d : Dictionary) : Site := ⟨d.id, d.storage, d.registry⟩

theorem takeWriteLock_holdings (d : Dictionary) (s : Service) :
    ∃ lock s', d.takeWriteLock s = (.ok lock, s') ∧ s'.schedulers = s.schedulers ∧
      s'.holdings d.site = s.holdings d.site := by
  refine ⟨_, _, onRegistry_apply .., rfl, ?_⟩
  exact holdings_setRegistry (fun _ => rfl) (fun _ => rfl)

/-- An entry is stored under a key that was free, or nothing is stored. -/
theorem writeEntry_cases {e : Entry} {r : Except Error Update} (h : d.writeEntry e s = (r, s')) :
    s'.schedulers = s.schedulers ∧
    ((∃ x, r = .error x ∧ s'.holdings d.site = s.holdings d.site) ∨
      r = .ok (d.updateOf e) ∧ (s.holdings d.site).elements e.key = none ∧
        s'.holdings d.site =
          (s.holdings d.site).withElement e.key e.element) := by
  have hload := Storage.loadElement_agrees d.id e.key
  rcases Action.bind_cases h with ⟨x, hl, rfl⟩ | ⟨found, s₁, hl, h⟩
  · obtain ⟨hh, hs⟩ := onStorage_reads hload hl d.site
    exact ⟨hs, .inl ⟨x, rfl, hh⟩⟩
  · obtain ⟨hh, hs⟩ := onStorage_reads hload hl d.site
    rw [← hh, ← hs]
    cases found with
    | some _ =>
      obtain ⟨rfl, rfl⟩ := Prod.mk.inj h
      exact ⟨rfl, .inl ⟨_, rfl, rfl⟩⟩
    | none =>
      have hfree : (s₁.holdings d.site).elements e.key = none := by
        rw [hh]
        rw [onStorage_apply] at hl
        exact (Storage.loadElement_ok (Prod.ext (Prod.mk.inj hl).1 rfl)).symm
      rcases Action.bind_cases h with ⟨x, hw, rfl⟩ | ⟨_, s₂, hw, h⟩
      · rw [onStorage_apply] at hw
        obtain ⟨hx, rfl⟩ := Prod.mk.inj hw
        have ha := Storage.saveElement_error (Prod.ext hx rfl)
        exact ⟨rfl, .inl ⟨x, rfl, holdings_of_agrees (Backends.agrees_set ha) _⟩⟩
      · rw [onStorage_apply] at hw
        obtain ⟨hx, rfl⟩ := Prod.mk.inj hw
        obtain ⟨rfl, rfl⟩ := Prod.mk.inj h
        obtain ⟨he, ht⟩ := Storage.saveElement_ok (Prod.ext hx rfl)
        exact ⟨rfl, .inr ⟨rfl, hfree, holdings_setElement he ht⟩⟩

theorem insert_cases (hd : d.updater.Serves d.site policy) {e : Entry} {r : Except Error Unit}
    (h : d.insert e s = (r, s')) :
    s'.schedulers = s.schedulers ∧
    ((∃ x, r = .error x ∧ s'.holdings d.site = s.holdings d.site) ∨
      r = .ok () ∧ (s.holdings d.site).elements e.key = none ∧
        s'.holdings d.site =
          ((s.holdings d.site).withElement e.key e.element).enqueue [d.updateOf e]) := by
  obtain ⟨lock, s₁, hlock, hsch, hh⟩ := d.takeWriteLock_holdings s
  rw [insert, Action.bind_ok hlock] at h
  rcases Action.bind_cases h with ⟨x, hw, rfl⟩ | ⟨u, s₂, hw, h⟩
  · obtain ⟨hs, hcases⟩ := writeEntry_cases hw
    rcases hcases with ⟨_, -, hsame⟩ | ⟨hok, -⟩
    · exact ⟨hs.trans hsch, .inl ⟨x, rfl, hsame.trans hh⟩⟩
    · simp at hok
  · obtain ⟨hs, hcases⟩ := writeEntry_cases hw
    rcases hcases with ⟨_, herr, -⟩ | ⟨hok, hfree, hstored⟩
    · simp at herr
    · obtain rfl := Except.ok.inj hok
      obtain ⟨s₃, henq, hs', hqueue⟩ := hd.enqueue [d.updateOf e] s₂
      obtain ⟨rfl, rfl⟩ := Prod.mk.inj (h.symm.trans henq)
      refine ⟨hs'.trans (hs.trans hsch), .inr ⟨rfl, by rwa [hh] at hfree, ?_⟩⟩
      rw [hqueue, hstored, hh]

theorem stopScheduler_cases {r : Except Error Unit} (h : d.stopScheduler s = (r, s')) :
    (d.scheduler = none ∧ r = .ok () ∧ s' = s) ∨
      ∃ ref, d.scheduler = some ref ∧ Scheduler.stop ref s = (r, s') := by
  rw [stopScheduler] at h
  cases htask : d.scheduler with
  | some ref =>
    simp only [htask] at h
    exact .inr ⟨ref, rfl, h⟩
  | none =>
    simp only [htask] at h
    obtain ⟨rfl, rfl⟩ := Prod.mk.inj h
    exact .inl ⟨rfl, rfl, rfl⟩

theorem stopScheduler_recorded {p : Site} (hs : s.TasksServe p policy) {r : Except Error Unit}
    (h : d.stopScheduler s = (r, s')) :
    r = .ok () ∧ (s'.schedulers = s.schedulers ∨ ∃ ref, s'.schedulers = s.schedulers.erase ref) ∧
      (s.holdings p).Recorded policy (d.stopRecords p s) (s'.holdings p) := by
  unfold stopRecords
  rcases stopScheduler_cases h with ⟨hnone, rfl, rfl⟩ | ⟨ref, htask, hstop⟩
  · rw [hnone]
    exact ⟨rfl, .inl rfl, .refl⟩
  · obtain ⟨hr, hsch, hc⟩ := Scheduler.stop_recorded hs hstop
    rw [htask]
    exact ⟨hr, hsch.imp_right fun he => ⟨ref, he⟩, hc⟩

theorem pendingCount_eq (d : Dictionary) (hd : d.updater.Serves d.site policy) (s : Service) :
    d.pendingCount s = (s.holdings d.site).queue.length := by
  rw [hd.writeSide_holdings.1]
  rfl

theorem stopScheduler_ok (d : Dictionary) (s : Service) :
    ∃ s₁, d.stopScheduler s = (.ok (), s₁) := by
  rcases h : d.stopScheduler s with ⟨r, s₁⟩
  rcases stopScheduler_cases h with ⟨-, rfl, -⟩ | ⟨ref, -, hstop⟩
  · exact ⟨s₁, rfl⟩
  · obtain ⟨rfl, -⟩ := Scheduler.stop_cases hstop
    exact ⟨s₁, rfl⟩

/-- The service without what its registry keeps of the dictionary. -/
def released (d : Dictionary) (s : Service) : Service :=
  s.setRegistry d.registry ((s.registry d.registry).release d.id)

/-- The dictionary's queue and pool are gone, and nothing else. -/
theorem holdings_released (d : Dictionary) (s : Service) :
    (d.released s).holdings d.site = { s.holdings d.site with queue := [], pool := none } := by
  have hq : ((s.registry d.registry).release d.id).pending.queue d.id = [] :=
    PendingTable.queue_remove ..
  have hp : ((s.registry d.registry).release d.id).pools.get? d.id = none :=
    OrderedMap.get?_erase_self ..
  simp only [released, holdings, site, registry_setRegistry_self, hq, hp]
  rfl

/-- The ways in which a handle ends, once its task is stopped: the task was lost, or what is still
waiting cannot be applied, or nothing is left waiting and the state in the registry is forgotten. -/
inductive Ends (d : Dictionary) (s : Service) : Except Error Unit → Service → Prop
  | lost {s₁ : Service} {task : SchedulerRef} : d.stopScheduler s = (.ok (), s₁) →
      d.lostTask? s₁ = some task → Ends d s (.error (.lostTask task)) s₁
  | failed {s₁ s₂ : Service} {x : Error} : d.stopScheduler s = (.ok (), s₁) →
      d.lostTask? s₁ = none → 0 < d.pendingCount s₁ → d.apply s₁ = (.error x, s₂) →
      Ends d s (.error x) s₂
  | flushed {s₁ s₂ : Service} {o : ApplyOutcome} : d.stopScheduler s = (.ok (), s₁) →
      d.lostTask? s₁ = none → 0 < d.pendingCount s₁ → d.apply s₁ = (.ok o, s₂) →
      Ends d s (.ok ()) (d.released s₂)
  | empty {s₁ : Service} : d.stopScheduler s = (.ok (), s₁) → d.lostTask? s₁ = none →
      d.pendingCount s₁ = 0 → Ends d s (.ok ()) (d.released s₁)

theorem shutDown_ends {r : Except Error Unit} (h : d.shutDown s = (r, s')) : d.Ends s r s' := by
  obtain ⟨s₁, hstop⟩ := d.stopScheduler_ok s
  rw [shutDown, Action.bind_ok hstop, Action.read_bind] at h
  cases hlost : d.lostTask? s₁ with
  | some task =>
    simp only [hlost, Action.fail_bind] at h
    obtain ⟨rfl, rfl⟩ := Prod.mk.inj h
    exact .lost hstop hlost
  | none =>
    simp only [hlost, Action.read_bind] at h
    split at h
    · next hpending =>
      rcases Action.bind_cases h with ⟨x, happly, rfl⟩ | ⟨o, s₂, happly, h⟩
      · exact .failed hstop hlost hpending happly
      · obtain ⟨rfl, rfl⟩ := Prod.mk.inj h
        exact .flushed hstop hlost hpending happly
    · next hpending =>
      obtain ⟨rfl, rfl⟩ := Prod.mk.inj h
      exact .empty hstop hlost (Nat.eq_zero_of_not_pos hpending)

/-- Ending a dictionary runs cycles, and forgets its state only if they have emptied the queue. -/
theorem shutDown_cases (hd : d.updater.Serves d.site policy) (hs : s.TasksServe d.site policy)
    {r : Except Error Unit} (h : d.shutDown s = (r, s')) :
    (s'.schedulers = s.schedulers ∨ ∃ ref, s'.schedulers = s.schedulers.erase ref) ∧
    ∃ reached, (s.holdings d.site).Recorded policy (d.shutDownRecords d.site s) reached ∧
      ((∃ x, r = .error x ∧ s'.holdings d.site = reached) ∨
        r = .ok () ∧ reached.queue = [] ∧ s'.holdings d.site = { reached with pool := none }) := by
  have hstopped {s₁ : Service} (hstop : d.stopScheduler s = (.ok (), s₁)) :=
    (stopScheduler_recorded (p := d.site) hs hstop).2
  unfold shutDownRecords
  cases shutDown_ends h with
  | lost hstop hlost =>
    obtain ⟨hsch, hc⟩ := hstopped hstop
    rw [hstop]
    dsimp only
    rw [if_neg (by simp [hlost]), List.append_nil]
    exact ⟨hsch, _, hc, .inl ⟨_, rfl, rfl⟩⟩
  | failed hstop hlost hpending happly =>
    obtain ⟨hsch, hc⟩ := hstopped hstop
    obtain ⟨hs₂, hcycle⟩ := Updater.apply_recorded (p := d.site) (fun _ => hd) happly
    rw [hstop]
    dsimp only
    rw [if_pos ⟨by simp [hlost], hpending⟩]
    exact ⟨hs₂ ▸ hsch, _, hc.trans hcycle, .inl ⟨_, rfl, rfl⟩⟩
  | flushed hstop hlost hpending happly =>
    obtain ⟨hsch, hc⟩ := hstopped hstop
    obtain ⟨hs₂, hcycle⟩ := Updater.apply_recorded (p := d.site) (fun _ => hd) happly
    have hempty := (hd.apply happly).1.queue_of_ok
    rw [hstop]
    dsimp only
    rw [if_pos ⟨by simp [hlost], hpending⟩]
    refine ⟨hs₂ ▸ hsch, _, hc.trans hcycle, .inr ⟨rfl, hempty, ?_⟩⟩
    rw [holdings_released, ← hempty]
  | @empty s₁ hstop hlost hzero =>
    obtain ⟨hsch, hc⟩ := hstopped hstop
    have hempty : (s₁.holdings d.site).queue = [] :=
      List.eq_nil_of_length_eq_zero ((d.pendingCount_eq hd s₁).symm.trans hzero)
    rw [hstop]
    dsimp only
    rw [if_neg (by simp [hzero]), List.append_nil]
    refine ⟨hsch, _, hc, .inr ⟨rfl, hempty, ?_⟩⟩
    rw [holdings_released, ← hempty]

end Dictionary

end AuthDict
