import AuthDict.Proofs.Dictionary.Accounting
import AuthDict.Proofs.Dictionary.Identity
import AuthDict.Proofs.Dictionary.Tasks
import Mathlib.Logic.Relation

/-!
# The end of a handle

Up to two cycles run when a handle is shut down, and each of them may fail when it loads a trie or
when it saves one. Under the policy that puts failed batches back, a cycle that fails has changed
nothing, and a cycle after one that succeeds has nothing to do. So all that was waiting is applied
at once and the state in the registry is forgotten, or nothing has happened, and a handle loaded
from the record of the one that was shut down takes over what is waiting.
-/
namespace AuthDict

namespace Holdings

variable {h h' : Holdings} {rs : List CycleRecord}

/-- Cycles leave everything as it is, or one of them applies all that waits. -/
theorem Recorded.eq_or_applied (hc : h.Recorded .requeue rs h') :
    h' = h ∨ h.queue ≠ [] ∧ h' = { h with trie := some h.next, queue := [] } := by
  induction hc with
  | refl => exact .inl rfl
  | tail _ hcycle ih =>
    rcases ih with rfl | ⟨hne, rfl⟩
    · cases hcycle with
      | idle _ => exact .inl rfl
      | applied hne => exact .inr ⟨hne, rfl⟩
      | requeued _ _ _ => exact .inl rfl
      | discarded _ _ hp => contradiction
    · -- nothing is left for a second batch
      cases hcycle with
      | idle _ => exact .inr ⟨hne, rfl⟩
      | applied hwaiting => exact absurd rfl hwaiting
      | requeued _ hwaiting _ => exact absurd rfl hwaiting
      | discarded _ hwaiting _ => exact absurd rfl hwaiting

theorem Recorded.eq_of_waiting (hc : h.Recorded .requeue rs h') (hne : h'.queue ≠ []) : h' = h := by
  rcases hc.eq_or_applied with rfl | ⟨-, rfl⟩
  · rfl
  · exact absurd rfl hne

theorem next_of_queue_eq_nil (hq : h.queue = []) : h.next = h.current := by
  rw [next, hq]
  rfl

theorem Cycle.eq_of_error {e : Error} (hc : h.Cycle .requeue (.error e) h') : h' = h := by
  cases hc with
  | requeued _ _ _ => rfl
  | discarded _ _ hp => contradiction

theorem Cycle.current_of_ok {policy : FailurePolicy} {o : ApplyOutcome}
    (hc : h.Cycle policy (.ok o) h') : h'.current = h.next := by
  cases hc with
  | idle hq => exact (next_of_queue_eq_nil hq).symm
  | applied _ => rfl

theorem Cycle.applied_of_ok {policy : FailurePolicy} {o : ApplyOutcome}
    (hc : h.Cycle policy (.ok o) h') (hne : h.queue ≠ []) :
    o = .applied h.next.epoch h.next.root h.queue.length := by
  cases hc with
  | idle hq => exact absurd hq hne
  | applied _ => rfl

theorem Recorded.current_of_empty (hc : h.Recorded .requeue rs h') (hq : h'.queue = []) :
    h'.current = h.next := by
  rcases hc.eq_or_applied with rfl | ⟨-, rfl⟩
  · exact (next_of_queue_eq_nil hq).symm
  · rfl

theorem epoch_next (h : Holdings) :
    h.next.epoch = h.current.epoch ∨ h.next.epoch = h.current.epoch + 1 := by
  by_cases hq : h.queue = []
  · exact .inl (congrArg Trie.epoch (next_of_queue_eq_nil hq))
  · exact .inr (h.current.epoch_applyBatch hq)

end Holdings

namespace Service

/-- Stored elements are the same, and registries but for their queues. -/
structure Cycled (s s' : Service) : Prop where
  elements : ∀ ref, (s'.backends.get ref).elements = (s.backends.get ref).elements
  registry : ∀ ref, s'.registry ref = { s.registry ref with pending := (s'.registry ref).pending }
  lost : s'.lost = s.lost

theorem Cycled.refl (s : Service) : s.Cycled s := ⟨fun _ => rfl, fun _ => rfl, rfl⟩

theorem Cycled.trans {s t u : Service} (h : s.Cycled t) (k : t.Cycled u) : s.Cycled u where
  elements ref := (k.elements ref).trans (h.elements ref)
  registry ref := by rw [k.registry ref, h.registry ref]
  lost := k.lost.trans h.lost

end Service

theorem Updater.apply_cycled {u : Updater} {key : DictionaryId} {s s' : Service}
    {r : Except Error ApplyOutcome} (h : u.apply key s = (r, s')) : s.Cycled s' := by
  rw [Updater.apply, Action.within_apply] at h
  generalize hrun : WriteSide.runCycle u.config.onApplyFailure key (s.writeSide u) = out at h
  obtain ⟨r', w⟩ := out
  obtain ⟨-, rfl⟩ := Prod.mk.inj h
  obtain ⟨he, -⟩ := WriteSide.runCycle_frame hrun
  refine ⟨fun ref => ?_, fun ref => ?_, rfl⟩
  · by_cases href : ref = u.storage
    · rw [href, Service.setWriteSide_backends_self]
      exact he
    · rw [Service.setWriteSide_backends_of_ne href]
  · by_cases href : ref = u.registry
    · rw [href, Service.setWriteSide_registry_self]
    · rw [Service.setWriteSide_registry_of_ne href]

namespace Dictionary

open Service

variable {d : Dictionary} {s s' s₁ : Service}

theorem stopScheduler_cycled {r : Except Error Unit} (h : d.stopScheduler s = (r, s')) :
    s.Cycled s' := by
  have herased (ref : SchedulerRef) :
      s.Cycled { s with schedulers := s.schedulers.erase ref } :=
    ⟨fun _ => rfl, fun _ => rfl, rfl⟩
  rcases stopScheduler_cases h with ⟨-, -, rfl⟩ | ⟨ref, -, hstop⟩
  · exact .refl _
  · obtain ⟨-, ⟨-, rfl⟩ | ⟨t, -, ⟨-, rfl⟩ | ⟨-, rfl⟩⟩⟩ := Scheduler.stop_cases hstop
    · exact .refl _
    · exact (herased ref).trans (Updater.apply_cycled rfl)
    · exact herased ref

/-- A task that was lost is not there to be stopped. -/
theorem eq_of_lostTask? (hapart : s.TasksApart) (h : d.stopScheduler s = (.ok (), s₁))
    {task : SchedulerRef} (hlost : d.lostTask? s₁ = some task) : s₁ = s := by
  obtain ⟨htask, hmem⟩ := Option.filter_eq_some_iff.1 hlost
  rw [(stopScheduler_cycled h).lost, List.contains_iff_mem] at hmem
  rcases stopScheduler_cases h with ⟨-, -, rfl⟩ | ⟨ref, href, hstop⟩
  · rfl
  · obtain rfl := Option.some.inj (htask.symm.trans href)
    obtain ⟨-, ⟨-, rfl⟩ | ⟨t, hrunning, -⟩⟩ := Scheduler.stop_cases hstop
    · rfl
    · rw [hapart.lost task hmem] at hrunning
      contradiction

end Dictionary

namespace Service

/-- The registry has nothing of a dictionary: no queue, no querier pool and no write lock. -/
structure Released (s : Service) (p : Site) : Prop where
  queue : (s.registry p.registry).pending.queues.get? p.id = none
  pool : (s.registry p.registry).pools.get? p.id = none
  writeLock : (s.registry p.registry).writeLocks.locks.get? p.id = none

/-- Elements, trie, queue, querier pool and write lock of a dictionary are the same. -/
structure Untouched (s : Service) (p : Site) (s' : Service) : Prop where
  holdings : s'.holdings p = s.holdings p
  writeLock : (s'.registry p.registry).writeLocks.locks.get? p.id =
    (s.registry p.registry).writeLocks.locks.get? p.id

end Service

namespace Dictionary

variable {d : Dictionary} {s s' : Service}

theorem released_released (d : Dictionary) (s : Service) : (d.released s).Released d.site := by
  constructor <;> simp only [released, site, Service.registry_setRegistry_self] <;>
    exact OrderedMap.get?_erase_self ..

theorem shutDown_elements {r : Except Error Unit} (h : d.shutDown s = (r, s')) (ref : StorageRef) :
    (s'.backends.get ref).elements = (s.backends.get ref).elements := by
  cases shutDown_ends h with
  | lost hstop _ => exact (stopScheduler_cycled hstop).elements ref
  | failed hstop _ _ happly =>
    exact ((stopScheduler_cycled hstop).trans (Updater.apply_cycled happly)).elements ref
  | flushed hstop _ _ happly =>
    exact ((stopScheduler_cycled hstop).trans (Updater.apply_cycled happly)).elements ref
  | empty hstop _ _ => exact (stopScheduler_cycled hstop).elements ref

/-- All that waits is applied and the state in the registry is forgotten, or nothing has
happened. -/
theorem shutDown_requeue (hd : d.updater.Serves d.site .requeue)
    (hs : s.TasksServe d.site .requeue) (hapart : s.TasksApart) {r : Except Error Unit}
    (h : d.shutDown s = (r, s')) :
    (r = .ok () ∧ (s'.holdings d.site).current = (s.holdings d.site).next ∧ s'.Released d.site) ∨
      (∃ e, r = .error e) ∧ s.Untouched d.site s' := by
  have hstopped {s₁ : Service} (hstop : d.stopScheduler s = (.ok (), s₁)) :=
    (stopScheduler_recorded (p := d.site) hs hstop).2.2
  have hwaiting {s₁ : Service} (hpending : 0 < d.pendingCount s₁) :
      (s₁.holdings d.site).queue ≠ [] := by
    rw [d.pendingCount_eq hd] at hpending
    exact List.length_pos_iff.1 hpending
  have hforgotten (s₂ : Service) : ((d.released s₂).holdings d.site).current =
      (s₂.holdings d.site).current := by
    rw [holdings_released]
    rfl
  cases shutDown_ends h with
  | lost hstop hlost =>
    obtain rfl := eq_of_lostTask? hapart hstop hlost
    exact .inr ⟨⟨_, rfl⟩, rfl, rfl⟩
  | @failed s₁ _ _ hstop _ hpending happly =>
    -- the last cycle of the task has left something, so it has changed nothing either
    have hsame := (hstopped hstop).eq_of_waiting (hwaiting hpending)
    have hcycled := (stopScheduler_cycled hstop).trans (Updater.apply_cycled happly)
    refine .inr ⟨⟨_, rfl⟩, (hd.apply happly).1.eq_of_error.trans hsame, ?_⟩
    rw [hcycled.registry]
  | @flushed s₁ s₂ _ hstop _ hpending happly =>
    have hsame := (hstopped hstop).eq_of_waiting (hwaiting hpending)
    refine .inl ⟨rfl, ?_, d.released_released s₂⟩
    rw [hforgotten, ← hsame]
    exact (hd.apply happly).1.current_of_ok
  | @empty s₁ hstop _ hzero =>
    have hempty : (s₁.holdings d.site).queue = [] :=
      List.eq_nil_of_length_eq_zero ((d.pendingCount_eq hd s₁).symm.trans hzero)
    refine .inl ⟨rfl, ?_, d.released_released s₁⟩
    rw [hforgotten]
    exact (hstopped hstop).current_of_empty hempty

/-- An attempt to apply what waits that fails. -/
def FailsToApply (d : Dictionary) (s s' : Service) : Prop := ∃ e, d.apply s = (.error e, s')

/-- Some updates wait for the handle, and however often it fails to apply them, all of them become
one epoch of a trie when it first succeeds. -/
structure TakesOver (d : Dictionary) (s : Service) (stored : Trie) (waiting : List Update) :
    Prop where
  queue : (s.holdings d.site).queue = waiting
  applies : ∀ {t t' : Service} {o : ApplyOutcome}, Relation.ReflTransGen d.FailsToApply s t →
    d.apply t = (.ok o, t') →
      (t'.holdings d.site).current = (stored.applyBatch waiting).1 ∧
      (t'.holdings d.site).queue = [] ∧
      (waiting ≠ [] → o = .applied (stored.epoch + 1) (stored.applyBatch waiting).1.root
        waiting.length)

theorem holdings_of_failsToApply (hd : d.updater.Serves d.site .requeue)
    (h : Relation.ReflTransGen d.FailsToApply s s') : s'.holdings d.site = s.holdings d.site := by
  induction h with
  | refl => rfl
  | tail _ hfails ih =>
    obtain ⟨e, happly⟩ := hfails
    exact (hd.apply happly).1.eq_of_error.trans ih

theorem takesOver (hd : d.updater.Serves d.site .requeue) (s : Service) :
    d.TakesOver s (s.holdings d.site).current (s.holdings d.site).queue where
  queue := rfl
  applies {t t' o} hfails happly := by
    have hsame := holdings_of_failsToApply hd hfails
    have hcycle := (hd.apply happly).1
    rw [hsame] at hcycle
    refine ⟨hcycle.current_of_ok, hcycle.queue_of_ok, fun hne => ?_⟩
    rw [hcycle.applied_of_ok hne, Holdings.next, Trie.epoch_applyBatch _ hne]

end Dictionary

namespace Deployment

variable {x : Setting} {D D' : Deployment} {log es : List Entry} {past : List Trie}
  {d d' : Dictionary} {s' t : Service}

/-- A handle that is loaded from the record of another, with the backends and the registry of the
dictionary. -/
def Reloads (x : Setting) (d : Dictionary) (s : Service) (d' : Dictionary) (t : Service) : Prop :=
  ∃ b hook draws hasRuntime, Blueprint.ofSnapshot x.registry d.save = .ok b ∧
    Blueprint.build { b with storage := x.choice, hook } draws hasRuntime s = (.ok d', t)

/-- All that was waiting is applied, as one epoch at most, and the registry has forgotten the
dictionary. -/
structure Flushed (x : Setting) (D : Deployment) (s' : Service) : Prop where
  current : (s'.holdings x.site).current = ((D.current x).applyBatch (D.queue x)).1
  epoch : (s'.holdings x.site).current.epoch = (D.current x).epoch ∨
    (s'.holdings x.site).current.epoch = (D.current x).epoch + 1
  /-- Each update is in the trie, or a later one of the same label. -/
  labels : ∀ u ∈ D.queue x, ∃ v ∈ D.queue x, v.label = u.label ∧
    (s'.holdings x.site).current.get? u.label = some v.commitment
  contains : Set.InjOn x.secret.label (D.storedKeys x) → ∀ u ∈ D.queue x,
    (s'.holdings x.site).current.get? u.label = some u.commitment
  released : s'.Released x.site

/-- Nothing has happened, and a handle that is loaded takes over what is waiting. It can be loaded
unless the registry was shut down. -/
structure Kept (x : Setting) (D : Deployment) (d : Dictionary) (s' : Service) : Prop where
  untouched : D.service.Untouched x.site s'
  reloads : (s'.registry x.registry).isShutDown = false → ∃ d' t, Reloads x d s' d' t
  takesOver : ∀ d' t, Reloads x d s' d' t → d'.TakesOver t (D.current x) (D.queue x)

theorem Step.obtained (hs : Step x D es D') (h : ∀ d ∈ D.handles, d.Obtained) :
    ∀ d ∈ D'.handles, d.Obtained := by
  cases hs with
  | build hb => exact forall_built (fun d hd => .built rfl (hd ▸ hb)) h
  | load _ hsnapshot hb => exact forall_built (fun d hd => .loaded hsnapshot (hd ▸ hb)) h
  | @call _ _ _ _ _ d _ _ hc => exact forall_replaced h ((h d (by simp)).used hc)
  | save _ => exact h
  | shutDown _ => exact forall_removed h
  | drop => exact forall_removed h
  | tick _ _ => exact h
  | stop _ => exact h
  | elsewhere _ => exact h

/-- The handles of a run have come about by building, loading and use. -/
theorem Reaches.obtained (h : Reaches x D log past) : ∀ d ∈ D.handles, d.Obtained := by
  induction h with
  | start _ _ => simp
  | step _ hs ih => exact hs.obtained ih

theorem flushed_of_next (h : Reaches x D log past)
    (hnext : (s'.holdings x.site).current = (D.service.holdings x.site).next)
    (hreleased : s'.Released x.site) : Flushed x D s' where
  current := hnext
  epoch := by
    rw [hnext]
    exact Holdings.epoch_next _
  labels u hu := by
    rw [hnext]
    exact Trie.exists_get?_applyBatch hu _
  contains hlabels u hu := by
    have hbalanced := (Setting.Sound.of_reaches h).balanced
    have hperm := hbalanced.updates_next_perm (labelsApart_of_injOn h hlabels)
    rw [hnext]
    exact Trie.mem_updates.1 (hperm.symm.subset (List.mem_append_right _ hu))
  released := hreleased

theorem kept_of_untouched (hpolicy : x.policy = .requeue) (hd : x.Owns past d)
    (hobtained : d.Obtained) (hsame : D.service.Untouched x.site s') : Kept x D d s' where
  untouched := hsame
  reloads hlive := by
    have hwrite : x.choice.write = some x.storage := rfl
    obtain ⟨b, d', t, hb, hbuild, -⟩ := hobtained.sound.exists_load hwrite hlive (fun _ => rfl) none
      x.draws
    exact ⟨d', t, b, none, x.draws, true, hb, hbuild⟩
  takesOver := by
    rintro d' t ⟨b, hook, draws, hasRuntime, hb, hbuild⟩
    obtain rfl := Except.ok.inj (hd.save.symm.trans hb)
    obtain ⟨hbuilt, hh, -⟩ := Blueprint.build_spec past (x.for_restored hook draws) hbuild
    have hserves := (hbuilt d' rfl).serves
    rw [hpolicy] at hserves
    have htakes := Dictionary.takesOver hserves t
    rw [(hbuilt d' rfl).site_eq, hh.trans hsame.holdings] at htakes
    exact htakes

/-- Whatever fails at the backend, a handle that is shut down applies all that is waiting and the
registry forgets the dictionary, or it leaves everything as it is for the next handle. Stored
elements never change. -/
theorem shutDown_allOrNothing (h : Orderly x D log past) (hpolicy : x.policy = .requeue)
    (hd : d ∈ D.handles) {r : Except Error Unit} (hend : d.shutDown D.service = (r, s')) :
    (∀ ref, (s'.backends.get ref).elements = (D.service.backends.get ref).elements) ∧
      (r = .ok () ∧ Flushed x D s' ∨ (∃ e, r = .error e) ∧ Kept x D d s') := by
  have hsound := Setting.Sound.of_reaches h.reaches
  have howns := hsound.handles d hd
  have hserves := howns.serves
  have htasks := hsound.tasks
  rw [hpolicy] at hserves htasks
  rw [← howns.site_eq] at htasks
  refine ⟨Dictionary.shutDown_elements hend, ?_⟩
  rcases Dictionary.shutDown_requeue hserves htasks h.tasksApart hend with
    ⟨rfl, hnext, hreleased⟩ | ⟨herror, hsame⟩
  · rw [howns.site_eq] at hnext hreleased
    exact .inl ⟨rfl, flushed_of_next h.reaches hnext hreleased⟩
  · rw [howns.site_eq] at hsame
    exact .inr ⟨herror, kept_of_untouched hpolicy howns (h.reaches.obtained d hd) hsame⟩

def sampleTimed : Setting := { sampleSetting with config := Dictionary.sampleConfig }

/-- A handle with a background task. -/
def sampleTask : Dictionary := Blueprint.handle sampleTimed none (some 0)

/-- A backend that does not save the first few tries. -/
def sampleDown (failing : Nat) : Service :=
  { backends := ({} : Backends).set 0 { trieSaves := { down := fun call => call < failing } } }

def sampleStarted (failing : Nat) : Service :=
  ((sampleTimed.fresh none).build sampleTimed.draws true (sampleDown failing)).2

def sampleWaiting (failing : Nat) : Deployment :=
  ⟨(sampleTask.insert sampleEntry (sampleStarted failing)).2, [sampleTask], []⟩

theorem orderly_sampleWaiting (failing : Nat) :
    ∃ past, Orderly sampleTimed (sampleWaiting failing) [sampleEntry] past := by
  have hidle (ref : SchedulerRef) : (sampleDown failing).schedulers.get? ref = none :=
    OrderedMap.get?_empty ref
  have hapart : (sampleDown failing).TasksApart :=
    ⟨fun ref _ => hidle ref, by simp [sampleDown], by simp [hidle]⟩
  have hbuilt : ((sampleTimed.fresh none).build sampleTimed.draws true (sampleDown failing)).1 =
      .ok sampleTask := rfl
  have hbuild : (sampleTimed.fresh none).build sampleTimed.draws true (sampleDown failing) =
      (.ok sampleTask, sampleStarted failing) := by
    rw [sampleStarted, ← hbuilt]
  have hinserted : (sampleTask.insert sampleEntry (sampleStarted failing)).1 = .ok () := rfl
  have hinsert : sampleTask.insert sampleEntry (sampleStarted failing) =
      (.ok (), (sampleWaiting failing).service) := by
    rw [sampleWaiting, ← hinserted]
  have hstart : Orderly sampleTimed ⟨sampleDown failing, [], []⟩ [] [{}] :=
    .start rfl (by simp [hidle]) hapart
  have hstarted : (sampleStarted failing).TasksApart := hapart.build hbuild
  have hbuildStep : Step sampleTimed ⟨sampleDown failing, [], []⟩ []
      ⟨sampleStarted failing, [] ++ sampleTask :: [], []⟩ := .build hbuild
  have hopened := hstart.step hbuildStep fun _ => by
    dsimp only
    exact hstarted
  have hcall : sampleTask.Call (sampleStarted failing) [sampleEntry] sampleTask
      (sampleWaiting failing).service := .insert hinsert
  have hstep : Step sampleTimed ⟨sampleStarted failing, [] ++ sampleTask :: [], []⟩ [sampleEntry]
      ⟨(sampleWaiting failing).service, [] ++ sampleTask :: [], []⟩ := .call hcall
  exact ⟨_, hopened.step hstep fun _ => hstarted.of_same hcall.sameTasks⟩

/-- One save that fails is that of the last cycle of the task, and the cycle after it applies the
entry that waits. If the save of that one fails too, the entry goes on waiting. -/
theorem shutDown_allOrNothing_sampleWaiting :
    ((∃ past, Orderly sampleTimed (sampleWaiting 1) [sampleEntry] past) ∧
      ((sampleWaiting 1).queue sampleTimed).length = 1 ∧
      (sampleTask.shutDown (sampleWaiting 1).service).1 = .ok () ∧
      Flushed sampleTimed (sampleWaiting 1) (sampleTask.shutDown (sampleWaiting 1).service).2) ∧
    (∃ past, Orderly sampleTimed (sampleWaiting 2) [sampleEntry] past) ∧
      ((sampleWaiting 2).queue sampleTimed).length = 1 ∧
      (sampleTask.shutDown (sampleWaiting 2).service).1 =
        .error (.storage (.trieWriteRejected sampleTimed.draws.id)) ∧
      Kept sampleTimed (sampleWaiting 2) sampleTask
        (sampleTask.shutDown (sampleWaiting 2).service).2 := by
  have hok : (sampleTask.shutDown (sampleWaiting 1).service).1 = .ok () := by decide +kernel
  have herror : (sampleTask.shutDown (sampleWaiting 2).service).1 =
      .error (.storage (.trieWriteRejected sampleTimed.draws.id)) := by decide +kernel
  refine ⟨⟨orderly_sampleWaiting 1, by decide +kernel, hok, ?_⟩, orderly_sampleWaiting 2,
    by decide +kernel, herror, ?_⟩
  · obtain ⟨past, hrun⟩ := orderly_sampleWaiting 1
    obtain ⟨-, ⟨-, hflushed⟩ | ⟨⟨e, hfailed⟩, -⟩⟩ :=
      shutDown_allOrNothing hrun rfl List.mem_cons_self (Prod.ext hok rfl)
    · exact hflushed
    · contradiction
  · obtain ⟨past, hrun⟩ := orderly_sampleWaiting 2
    obtain ⟨-, ⟨hended, -⟩ | ⟨-, hkept⟩⟩ :=
      shutDown_allOrNothing hrun rfl List.mem_cons_self (Prod.ext herror rfl)
    · contradiction
    · exact hkept

end Deployment

end AuthDict
