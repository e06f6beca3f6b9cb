import AuthDict.Dictionary.Build
import AuthDict.Proofs.Dictionary.Holdings

/-!
# Building handles

A blueprint is checked first. What is built then follows from it, the draws and the backends it
chose, and the only thing that can still fail is the start of the background task. If that fails,
nothing has happened to the service.
-/
namespace AuthDict

namespace Updater

variable {u : Updater} {id : DictionaryId} {owner : Option RegistryRef} {hasRuntime : Bool}
  {s s' : Service}

/-- A background task is launched under the next number, or nothing happens. -/
theorem spawn_cases {r : Except Error SchedulerRef}
    (h : u.spawn id owner hasRuntime s = (r, s')) :
    (∃ e, r = .error e ∧ s' = s) ∨
      ∃ period, r = .ok s.started ∧ s' = (u.launch id owner period s).2 := by
  unfold spawn at h
  cases hperiod : u.config.commitInterval with
  | none =>
    simp only [hperiod] at h
    obtain ⟨rfl, rfl⟩ := Prod.mk.inj h
    exact .inl ⟨_, rfl, rfl⟩
  | some period =>
    simp only [hperiod] at h
    split at h
    · obtain ⟨rfl, rfl⟩ := Prod.mk.inj h
      exact .inl ⟨_, rfl, rfl⟩
    · split at h
      · obtain ⟨rfl, rfl⟩ := Prod.mk.inj h
        exact .inl ⟨_, rfl, rfl⟩
      · rw [Action.total_apply] at h
        obtain ⟨rfl, rfl⟩ := Prod.mk.inj h
        exact .inr ⟨period, rfl, rfl⟩

/-- A task with a period is launched if there is something to run it. -/
theorem exists_spawn {period : Duration} (hperiod : u.config.commitInterval = some period)
    (hzero : period ≠ .zero) (hruntime : hasRuntime = true) (id : DictionaryId)
    (owner : Option RegistryRef) (s : Service) :
    ∃ ref s', u.spawn id owner hasRuntime s = (.ok ref, s') := by
  unfold spawn
  simp only [hperiod, if_neg hzero, hruntime]
  exact ⟨_, _, rfl⟩

theorem launch_spec (u : Updater) (id : DictionaryId) (owner : Option RegistryRef)
    (period : Duration) (s : Service) (p : Site) :
    (u.launch id owner period s).2.holdings p = s.holdings p ∧
      ∀ ref t, (u.launch id owner period s).2.schedulers.get? ref = some t →
        t.updater = u ∨ s.schedulers.get? ref = some t := by
  unfold launch
  split
  · refine ⟨rfl, fun ref t ht => ?_⟩
    by_cases href : ref = s.started
    · rw [href, OrderedMap.get?_insert_self] at ht
      exact .inl (congrArg Scheduler.updater (Option.some.inj ht)).symm
    · rw [OrderedMap.get?_insert_of_ne _ _ href] at ht
      exact .inr ht
  · exact ⟨rfl, fun ref t ht => .inr ht⟩

end Updater

namespace Blueprint

variable {b : Blueprint} {draws : Draws} {hasRuntime : Bool} {s s' : Service}
  {storage queryStorage : StorageRef}

theorem checked_eq_ok_iff :
    b.checked s = .ok (storage, queryStorage) ↔ b.config.fault? = none ∧
      b.storage.writeStorage = .ok storage ∧ b.storage.queryStorage = .ok queryStorage ∧
        (s.registry b.registry).isShutDown = false := by
  unfold checked
  cases b.config.fault? with
  | some fault => simp
  | none =>
    cases b.storage.writeStorage with
    | error e => simp [bind, Except.bind]
    | ok written =>
      cases b.storage.queryStorage with
      | error e => simp [bind, Except.bind]
      | ok read =>
        cases hopen : (s.registry b.registry).isShutDown with
        | true => simp [bind, Except.bind, Registry.requireOpen, hopen]
        | false => simp [bind, Except.bind, Registry.requireOpen, hopen, pure, Except.pure]

/-- The handle that is built when the checks are passed. -/
def opened (b : Blueprint) (draws : Draws) (storage queryStorage : StorageRef)
    (scheduler : Option SchedulerRef) : Dictionary :=
  let (config, secret, id) := b.identity draws
  { id, config, secret, storage, queryStorage, scheduler
    cache := .empty config.labelCacheSize.toNat
    registry := b.registry
    router := routerOf config queryStorage
    updater := { config := config.updater, registry := b.registry, storage, hook := b.hook } }

theorem build_cases {r : Except Error Dictionary} (h : b.build draws hasRuntime s = (r, s')) :
    (∃ e, r = .error e ∧ s' = s) ∨
      ∃ storage queryStorage scheduler, b.checked s = .ok (storage, queryStorage) ∧
        r = .ok (b.opened draws storage queryStorage scheduler) ∧
        (scheduler = none ∧ s' = s ∨ ∃ period, scheduler = some s.started ∧
          s' = ((b.opened draws storage queryStorage scheduler).updater.launch
            (b.identity draws).2.2 (some b.registry) period s).2) := by
  rcases Action.bind_cases h with ⟨e, hc, rfl⟩ | ⟨⟨storage, queryStorage⟩, s₁, hc, h⟩
  · obtain ⟨-, rfl⟩ := Prod.mk.inj hc
    exact .inl ⟨e, rfl, rfl⟩
  obtain ⟨hchecked, rfl⟩ := Prod.mk.inj hc
  dsimp only at h
  cases hinterval : (b.identity draws).1.commitInterval with
  | none =>
    simp only [hinterval] at h
    obtain ⟨rfl, rfl⟩ := Prod.mk.inj h
    exact .inr ⟨storage, queryStorage, none, hchecked, rfl, .inl ⟨rfl, rfl⟩⟩
  | some period =>
    simp only [hinterval] at h
    rcases Action.bind_cases h with ⟨e, hspawn, rfl⟩ | ⟨ref, s₂, hspawn, h⟩
    · rcases Updater.spawn_cases hspawn with ⟨_, -, rfl⟩ | ⟨_, hr, -⟩
      · exact .inl ⟨e, rfl, rfl⟩
      · simp at hr
    · obtain ⟨rfl, rfl⟩ := Prod.mk.inj h
      rcases Updater.spawn_cases hspawn with ⟨_, hr, -⟩ | ⟨period, href, hlaunch⟩
      · simp at hr
      · exact .inr ⟨storage, queryStorage, some ref, hchecked, rfl,
          .inr ⟨period, congrArg some (Except.ok.inj href), hlaunch⟩⟩

/-- A blueprint that passes the checks is built, if there is something to run the background task. -/
theorem exists_build (h : b.checked s = .ok (storage, queryStorage))
    (hzero : (b.identity draws).1.commitInterval ≠ some .zero)
    (hruntime : (b.identity draws).1.commitInterval.isSome = true → hasRuntime = true) :
    ∃ scheduler s', b.build draws hasRuntime s =
      (.ok (b.opened draws storage queryStorage scheduler), s') := by
  rcases hbuild : b.build draws hasRuntime s with ⟨r, s'⟩
  rcases Action.bind_cases hbuild with ⟨e, hc, -⟩ | ⟨_, s₁, hc, hrest⟩
  · exact absurd (h.symm.trans (Prod.mk.inj hc).1) (by simp)
  obtain ⟨hchecked, rfl⟩ := Prod.mk.inj hc
  obtain rfl := Except.ok.inj (h.symm.trans hchecked)
  dsimp only at hrest
  cases hinterval : (b.identity draws).1.commitInterval with
  | none =>
    simp only [hinterval] at hrest
    obtain ⟨rfl, rfl⟩ := Prod.mk.inj hrest
    exact ⟨none, s, rfl⟩
  | some period =>
    rw [hinterval] at hzero hruntime
    simp only [hinterval] at hrest
    obtain ⟨ref, s₂, hspawn⟩ := Updater.exists_spawn
      (u := { config := (b.identity draws).1.updater, registry := b.registry, storage, hook := b.hook })
      hinterval (fun hp => hzero (congrArg some hp)) (hruntime rfl) (b.identity draws).2.2
      (some b.registry) s
    rw [Action.bind_ok hspawn] at hrest
    obtain ⟨rfl, rfl⟩ := Prod.mk.inj hrest
    exact ⟨some ref, s₂, rfl⟩

end Blueprint

end AuthDict
