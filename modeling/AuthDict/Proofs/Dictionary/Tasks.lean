import AuthDict.Proofs.Dictionary.Building
import AuthDict.Proofs.Dictionary.Deployment

/-!
# Background tasks

The tasks of a service are numbered in the order in which they were started, and each of them runs
until it is stopped, or was lost at once. So a task that was lost does not run. Calls start and stop
no task, apart from those that build a handle and end one.

What happens elsewhere in a service may start any tasks. A run is `Orderly` if it gives each task a
number of its own; the steps of the dictionary itself always do.
-/
namespace AuthDict

namespace Service

/-- No task that was lost runs, and the next number is a new one. -/
structure TasksApart (s : Service) : Prop where
  lost : ∀ ref ∈ s.lost, s.schedulers.get? ref = none
  lost_lt : ∀ ref ∈ s.lost, ref < s.started
  running_lt : ∀ ref t, s.schedulers.get? ref = some t → ref < s.started

/-- No task was started, lost or stopped. -/
structure SameTasks (s s' : Service) : Prop where
  schedulers : s'.schedulers = s.schedulers
  lost : s'.lost = s.lost
  started : s'.started = s.started

theorem SameTasks.refl (s : Service) : s.SameTasks s := ⟨rfl, rfl, rfl⟩

theorem SameTasks.trans {s t u : Service} (h : s.SameTasks t) (k : t.SameTasks u) :
    s.SameTasks u :=
  ⟨k.schedulers.trans h.schedulers, k.lost.trans h.lost, k.started.trans h.started⟩

/-- No task was started or lost, and those that run did so before. -/
structure StopsTasks (s s' : Service) : Prop where
  running : ∀ ref t, s'.schedulers.get? ref = some t → s.schedulers.get? ref = some t
  lost : s'.lost = s.lost
  started : s'.started = s.started

namespace StopsTasks

variable {s s' t : Service}

theorem refl (s : Service) : s.StopsTasks s := ⟨fun _ _ h => h, rfl, rfl⟩

theorem trans (h : s.StopsTasks s') (k : s'.StopsTasks t) : s.StopsTasks t where
  running ref task hget := h.running ref task (k.running ref task hget)
  lost := k.lost.trans h.lost
  started := k.started.trans h.started

theorem of_same (h : s.SameTasks s') : s.StopsTasks s' :=
  ⟨fun _ _ hget => h.schedulers ▸ hget, h.lost, h.started⟩

theorem erase (s : Service) (ref : SchedulerRef) :
    s.StopsTasks { s with schedulers := s.schedulers.erase ref } :=
  ⟨fun _ _ hget => OrderedMap.get?_of_get?_erase hget, rfl, rfl⟩

end StopsTasks

namespace TasksApart

variable {s s' : Service}

theorem of_stops (h : s.TasksApart) (hs : s.StopsTasks s') : s'.TasksApart := by
  constructor
  · intro ref hlost
    by_contra hrunning
    obtain ⟨t, ht⟩ := Option.ne_none_iff_exists'.1 hrunning
    have hold := hs.running ref t ht
    rw [h.lost ref (hs.lost ▸ hlost)] at hold
    contradiction
  · rw [hs.lost, hs.started]
    exact h.lost_lt
  · rw [hs.started]
    exact fun ref t ht => h.running_lt ref t (hs.running ref t ht)

theorem of_same (h : s.TasksApart) (hs : s.SameTasks s') : s'.TasksApart := h.of_stops (.of_same hs)

/-- A task that is launched gets a new number, whether it runs or is lost. -/
theorem launch (h : s.TasksApart) (u : Updater) (id : DictionaryId) (owner : Option RegistryRef)
    (period : Duration) : (u.launch id owner period s).2.TasksApart := by
  have hnew : s.schedulers.get? s.started = none := by
    by_contra hrunning
    obtain ⟨t, ht⟩ := Option.ne_none_iff_exists'.1 hrunning
    exact Nat.lt_irrefl _ (h.running_lt _ _ ht)
  unfold Updater.launch
  split
  · constructor
    · intro ref hlost
      have hne : ref ≠ s.started := Nat.ne_of_lt (h.lost_lt ref hlost)
      exact (OrderedMap.get?_insert_of_ne _ _ hne).trans (h.lost ref hlost)
    · intro ref hlost
      exact Nat.lt_succ_of_lt (h.lost_lt ref hlost)
    · intro ref t ht
      by_cases href : ref = s.started
      · rw [href]
        exact Nat.lt_succ_self _
      · have hold : s.schedulers.get? ref = some t :=
          (OrderedMap.get?_insert_of_ne _ _ href).symm.trans ht
        exact Nat.lt_succ_of_lt (h.running_lt ref t hold)
  · constructor
    · intro ref hlost
      rcases List.mem_cons.1 hlost with rfl | hlost
      · exact hnew
      · exact h.lost ref hlost
    · intro ref hlost
      rcases List.mem_cons.1 hlost with rfl | hlost
      · exact Nat.lt_succ_self _
      · exact Nat.lt_succ_of_lt (h.lost_lt ref hlost)
    · intro ref t ht
      exact Nat.lt_succ_of_lt (h.running_lt ref t ht)

end TasksApart

end Service

/-- An action starts, loses and stops no task of the service that it works on. -/
structure Action.KeepsTasks {σ α : Type} (service : σ → Service) (x : Action σ α) : Prop where
  same : ∀ st, (service st).SameTasks (service (x st).2)

namespace Action.KeepsTasks

variable {σ α β : Type} {service : σ → Service}

theorem pure (a : α) : KeepsTasks service (Pure.pure a) := ⟨fun _ => .refl _⟩

theorem fail (e : Error) : KeepsTasks service (Action.fail e : Action σ α) :=
  ⟨fun _ => .refl _⟩

theorem bind {x : Action σ α} {f : α → Action σ β} (hx : KeepsTasks service x)
    (hf : ∀ a, KeepsTasks service (f a)) : KeepsTasks service (x >>= f) := by
  refine ⟨fun st => ?_⟩
  have hfirst := hx.same st
  rcases h : x st with ⟨e | a, st₁⟩
  · rw [h] at hfirst
    rw [Action.bind_error h]
    exact hfirst
  · rw [h] at hfirst
    rw [Action.bind_ok h]
    exact hfirst.trans ((hf a).same st₁)

theorem of_eq {x : Action σ α} (hx : KeepsTasks service x) {st st' : σ} {r : Except Error α}
    (h : x st = (r, st')) : (service st).SameTasks (service st') := by
  have hsame := hx.same st
  rwa [h] at hsame

theorem onStorage (ref : StorageRef) (x : Action Storage α) :
    KeepsTasks id (Service.onStorage ref x) := ⟨fun _ => ⟨rfl, rfl, rfl⟩⟩

theorem onRegistry (ref : RegistryRef) (f : Registry → α × Registry) :
    KeepsTasks id (Service.onRegistry ref f) := ⟨fun _ => ⟨rfl, rfl, rfl⟩⟩

theorem apply (u : Updater) (key : DictionaryId) : KeepsTasks id (u.apply key) :=
  ⟨fun _ => ⟨rfl, rfl, rfl⟩⟩

theorem enqueue (u : Updater) (key : DictionaryId) (us : List Update) :
    KeepsTasks id (u.enqueue key us) := ⟨fun _ => ⟨rfl, rfl, rfl⟩⟩

theorem writeEntry (d : Dictionary) (e : Entry) : KeepsTasks id (d.writeEntry e) := by
  refine (onStorage ..).bind fun found => ?_
  cases found with
  | some _ => exact .fail _
  | none => exact (onStorage ..).bind fun _ => .pure _

theorem insert (d : Dictionary) (e : Entry) : KeepsTasks id (d.insert e) :=
  (onRegistry ..).bind fun _ => (writeEntry d e).bind fun _ => enqueue ..

theorem deriveLabel (key : Bytes) : KeepsTasks Prod.snd (Dictionary.deriveLabel key) :=
  ⟨fun _ => ⟨rfl, rfl, rfl⟩⟩

theorem deriveLabels (keys : List Bytes) :
    KeepsTasks Prod.snd (Dictionary.deriveLabels keys) := by
  induction keys with
  | nil => exact .pure _
  | cons key keys ih => exact (deriveLabel key).bind fun _ => ih.bind fun _ => .pure _

theorem onRouter (x : DictionaryId → Action (Router × ReadSide) α) :
    KeepsTasks Prod.snd (Dictionary.onRouter x) := ⟨fun _ => ⟨rfl, rfl, rfl⟩⟩

theorem onService {x : Dictionary → Action Service α} (hx : ∀ d, KeepsTasks id (x d)) :
    KeepsTasks Prod.snd (Dictionary.onService x) := ⟨fun st => (hx st.1).same st.2⟩

theorem resolve (key : Bytes) (path : LookupPath) (proof : Option LabelProof) (d : Dictionary) :
    KeepsTasks id (Dictionary.resolve key path proof d) := by
  unfold Dictionary.resolve
  split
  · refine (onStorage ..).bind fun found => ?_
    cases found with
    | some _ => exact .pure _
    | none => exact .fail _
  · exact .pure _

theorem resolveAll (d : Dictionary) (keys : List Bytes) (derived : List DerivedLabel)
    (paths : List LookupPath) : KeepsTasks id (Dictionary.resolveAll d keys derived paths) := by
  induction keys generalizing derived paths with
  | nil => exact .pure _
  | cons key keys ih =>
    cases derived with
    | nil => exact .pure _
    | cons l derived =>
      cases paths with
      | nil => exact .pure _
      | cons path paths =>
        exact (resolve ..).bind fun _ => (ih derived paths).bind fun _ => .pure _

theorem query (key : Bytes) (pick : UInt8) : KeepsTasks Prod.snd (Dictionary.query key pick) :=
  (deriveLabel key).bind fun _ => (onRouter _).bind fun _ => onService fun _ => resolve ..

theorem queryMany (keys : List Bytes) (pick : UInt8) :
    KeepsTasks Prod.snd (Dictionary.queryMany keys pick) :=
  (deriveLabels keys).bind fun _ => (onRouter _).bind fun _ => onService fun _ => resolveAll ..

theorem published (d : Dictionary) : KeepsTasks id d.published :=
  (onStorage ..).bind fun _ => (onStorage ..).bind fun _ => .pure _

end Action.KeepsTasks

namespace Dictionary

open AuthDict.Action (KeepsTasks)

variable {d d' : Dictionary} {s s' : Service}

theorem invariant_sameTasks (d : Dictionary) (first : Service) :
    Shards.Crew.Invariant d.writeEntry fun _ s => first.SameTasks s where
  perm _ h := h
  wrote hw h := h.trans ((KeepsTasks.writeEntry d _).of_eq hw)
  failed hw h := h.trans ((KeepsTasks.writeEntry d _).of_eq hw)

theorem InsertsBatch.sameTasks {entries es : List Entry} {r : Except Error Nat}
    (h : d.InsertsBatch entries s r es s') : s.SameTasks s' := by
  cases h with
  | @run lock s₁ _ c hlock hrun _ henq =>
    have hlocked : s.SameTasks s₁ := (KeepsTasks.onRegistry ..).of_eq hlock
    have hwritten : s₁.SameTasks c.state := hrun.invariant (invariant_sameTasks d s₁) (.refl s₁)
    exact hlocked.trans (hwritten.trans ((KeepsTasks.enqueue ..).of_eq henq))

/-- A call starts, loses and stops no task. -/
theorem Call.sameTasks {es : List Entry} (h : d.Call s es d' s') : s.SameTasks s' := by
  cases h with
  | insert h => exact (KeepsTasks.insert ..).of_eq h
  | insertFailed h => exact (KeepsTasks.insert ..).of_eq h
  | insertBatch h => exact h.sameTasks
  | apply h => exact (KeepsTasks.apply ..).of_eq h
  | query h => exact (KeepsTasks.query ..).of_eq h
  | queryMany h => exact (KeepsTasks.queryMany ..).of_eq h
  | checkForUpdate h => exact (KeepsTasks.onRouter Router.checkForUpdate).of_eq h

end Dictionary

namespace Service.StopsTasks

open AuthDict.Action (KeepsTasks)

variable {s s' : Service} {d : Dictionary}

theorem cycle {t : Scheduler} {r : Except Error Unit} (h : t.cycle s = (r, s')) :
    s.StopsTasks s' := by
  obtain ⟨-, rfl⟩ := Prod.mk.inj (h.symm.trans (t.cycle_eq s))
  exact .of_same ((KeepsTasks.apply ..).same s)

theorem stop {ref : SchedulerRef} {r : Except Error Unit} (h : Scheduler.stop ref s = (r, s')) :
    s.StopsTasks s' := by
  obtain ⟨-, ⟨-, rfl⟩ | ⟨t, -, ⟨-, rfl⟩ | ⟨-, rfl⟩⟩⟩ := Scheduler.stop_cases h
  · exact .refl _
  · exact (erase s ref).trans (.of_same ((KeepsTasks.apply ..).same _))
  · exact erase s ref

theorem stopScheduler {r : Except Error Unit} (h : d.stopScheduler s = (r, s')) :
    s.StopsTasks s' := by
  rcases Dictionary.stopScheduler_cases h with ⟨-, -, rfl⟩ | ⟨ref, -, hstop⟩
  · exact .refl _
  · exact stop hstop

theorem shutDown {r : Except Error Unit} (h : d.shutDown s = (r, s')) : s.StopsTasks s' := by
  have happly {s₁ s₂ : Service} {r : Except Error ApplyOutcome} (ha : d.apply s₁ = (r, s₂)) :
      s₁.StopsTasks s₂ := .of_same ((KeepsTasks.apply ..).of_eq ha)
  have hreleased (s₂ : Service) : s₂.StopsTasks (d.released s₂) := .of_same ⟨rfl, rfl, rfl⟩
  cases Dictionary.shutDown_ends h with
  | lost hstop _ => exact stopScheduler hstop
  | failed hstop _ _ ha => exact (stopScheduler hstop).trans (happly ha)
  | flushed hstop _ _ ha => exact (stopScheduler hstop).trans ((happly ha).trans (hreleased _))
  | empty hstop _ _ => exact (stopScheduler hstop).trans (hreleased _)

theorem stopOwned (owner : RegistryRef) (tasks : List (SchedulerRef × Scheduler)) (s : Service) :
    s.StopsTasks (stopOwned owner tasks s) := by
  induction tasks generalizing s with
  | nil => exact .refl _
  | cons e rest ih =>
    obtain ⟨task, t⟩ := e
    unfold Service.stopOwned
    split
    · exact (stop rfl).trans (ih _)
    · exact ih s

theorem shutDownRegistry {target : RegistryRef} {r : Except Error Nat}
    (h : shutDownRegistry target s = (r, s')) : s.StopsTasks s' := by
  rw [shutDownRegistry_apply] at h
  obtain ⟨-, rfl⟩ := Prod.mk.inj h
  have hclosed : s.StopsTasks (s.closed target) := .of_same ⟨rfl, rfl, rfl⟩
  have hcleared (s₁ : Service) (r₁ : Registry) : s₁.StopsTasks (s₁.setRegistry target r₁) :=
    .of_same ⟨rfl, rfl, rfl⟩
  exact hclosed.trans ((stopOwned target _ _).trans (hcleared _ _))

end Service.StopsTasks

theorem Service.TasksApart.build {s s' : Service} (h : s.TasksApart) {b : Blueprint}
    {draws : Draws} {hasRuntime : Bool} {r : Except Error Dictionary}
    (hb : b.build draws hasRuntime s = (r, s')) : s'.TasksApart := by
  rcases Blueprint.build_cases hb with ⟨_, -, rfl⟩ | ⟨_, _, _, -, -, ⟨-, rfl⟩ | ⟨period, -, hlaunch⟩⟩
  · exact h
  · exact h
  · rw [hlaunch]
    exact h.launch ..

namespace Deployment

variable {x : Setting} {D D' : Deployment} {log es : List Entry} {past : List Trie}

/-- Every step of the dictionary keeps the tasks apart, if what happens elsewhere does. -/
theorem Step.tasksApart (hs : Step x D es D')
    (helse : D.service.Elsewhere x.site D'.service → D'.service.TasksApart)
    (h : D.service.TasksApart) : D'.service.TasksApart := by
  cases hs with
  | build hb => exact h.build hb
  | load _ _ hb => exact h.build hb
  | call hc => exact h.of_same hc.sameTasks
  | save _ => exact h
  | shutDown hc => exact h.of_stops (.shutDown hc)
  | drop => exact h
  | tick _ hc => exact h.of_stops (.cycle hc)
  | stop hc => exact h.of_stops (.stop hc)
  | elsewhere he => exact helse he

/-- The states of runs in which what happens elsewhere keeps the tasks apart. -/
inductive Orderly (x : Setting) : Deployment → List Entry → List Trie → Prop
  | start {s : Service} : s.holdings x.site = .none →
      (∀ ref t, s.schedulers.get? ref = some t → t.id ≠ x.draws.id) → s.TasksApart →
      Orderly x ⟨s, [], []⟩ [] [{}]
  | step {D D' : Deployment} {log es : List Entry} {past : List Trie} : Orderly x D log past →
      Step x D es D' → (D.service.Elsewhere x.site D'.service → D'.service.TasksApart) →
      Orderly x D' (log ++ es) (past ++ [current x D'])

theorem Orderly.reaches (h : Orderly x D log past) : Reaches x D log past := by
  induction h with
  | start hempty htasks _ => exact .start hempty htasks
  | step _ hs _ ih => exact ih.step hs

theorem Orderly.tasksApart (h : Orderly x D log past) : D.service.TasksApart := by
  induction h with
  | start _ _ hapart => exact hapart
  | step _ hs helse ih => exact hs.tasksApart helse ih

end Deployment

end AuthDict
