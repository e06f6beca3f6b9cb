import AuthDict.Proofs.Dictionary.Identity
import AuthDict.Proofs.Dictionary.Tasks
import AuthDict.Proofs.Dictionary.Turns
import Mathlib.Logic.Function.Basic

/-!
# Processes

A process has any number of dictionaries, with any number of handles each, on any registries and
backends. What happens in it are the calls of the handles, the handles that are built, and what
nobody calls: cycles of background tasks, the end of registries, and backends that go down and come
up again.

Every event can happen (`exists_step`). Apart from the turns that the workers of a batch take it
happens in one way only (`Step.unique`), and handles stay under their dictionaries (`Step.sound`).
-/
namespace AuthDict

/-- A handle as it was built or as queries have left it, whose background task, as long as it runs,
runs for its dictionary. -/
structure Dictionary.SettledIn (d : Dictionary) (s : Service) : Prop where
  cache : d.cache.Sound d.secret
  started : ∀ ref, d.scheduler = some ref → ref < s.started
  task : ∀ ref, d.scheduler = some ref →
    ∀ task, s.schedulers.get? ref = some task → task.id = d.id

namespace Dictionary.SettledIn

variable {d : Dictionary} {s s' : Service}

theorem of_stops (h : d.SettledIn s) (hs : s.StopsTasks s') : d.SettledIn s' where
  cache := h.cache
  started ref href := hs.started ▸ h.started ref href
  task ref href task hget := h.task ref href task (hs.running ref task hget)

/-- The task that is launched gets a new number. -/
theorem launch (h : d.SettledIn s) (u : Updater) (id : DictionaryId) (owner : Option RegistryRef)
    (period : Duration) : d.SettledIn (u.launch id owner period s).2 := by
  unfold Updater.launch
  split
  · refine ⟨h.cache, fun ref href => Nat.lt_succ_of_lt (h.started ref href), ?_⟩
    intro ref href task hget
    have hne : ref ≠ s.started := Nat.ne_of_lt (h.started ref href)
    exact h.task ref href task ((OrderedMap.get?_insert_of_ne _ _ hne).symm.trans hget)
  · exact ⟨h.cache, fun ref href => Nat.lt_succ_of_lt (h.started ref href), h.task⟩

theorem of_alike (h : d.SettledIn s) {d' : Dictionary} (hd : d.Alike (d', s')) :
    d'.id = d.id ∧ d'.SettledIn s := by
  obtain ⟨cache, router, rfl, hcache⟩ := hd
  exact ⟨rfl, hcache, h.started, h.task⟩

end Dictionary.SettledIn

theorem Updater.id_of_launch {u : Updater} {id : DictionaryId} {owner : Option RegistryRef}
    {period : Duration} {s : Service} (h : s.TasksApart) {task : Scheduler}
    (hget : (u.launch id owner period s).2.schedulers.get? s.started = some task) :
    task.id = id := by
  unfold Updater.launch at hget
  split at hget
  · rw [OrderedMap.get?_insert_self] at hget
    rw [← Option.some.inj hget]
  · exact absurd (h.running_lt _ _ hget) (Nat.lt_irrefl _)

theorem Updater.started_launch (u : Updater) (id : DictionaryId) (owner : Option RegistryRef)
    (period : Duration) (s : Service) : (u.launch id owner period s).2.started = s.started + 1 := by
  unfold Updater.launch
  split <;> rfl

/-- A build leaves the other handles settled, and what it gives is settled too. -/
theorem Blueprint.settledIn_build {p : Blueprint} {draws : Draws} {hasRuntime : Bool}
    {s s' : Service} {r : Except Error Dictionary} (h : p.build draws hasRuntime s = (r, s')) :
    (∀ d : Dictionary, d.SettledIn s → d.SettledIn s') ∧ ∀ d, r = .ok d →
      d.id = (p.identity draws).2.2 ∧ (s.TasksApart → d.SettledIn s') := by
  rcases build_cases h with ⟨e, rfl, rfl⟩ | ⟨storage, queryStorage, scheduler, -, rfl, hs⟩
  · refine ⟨fun _ hd => hd, fun d hd => ?_⟩
    contradiction
  rcases hs with ⟨rfl, rfl⟩ | ⟨period, hscheduler, hlaunch⟩
  · refine ⟨fun _ hd => hd, fun d hd => ?_⟩
    obtain rfl := Except.ok.inj hd
    refine ⟨rfl, fun _ => ⟨LabelCache.sound_empty _ _, ?_, ?_⟩⟩ <;>
      · intro ref href
        cases href
  · rw [hlaunch]
    refine ⟨fun _ hd => hd.launch .., fun d hd => ?_⟩
    obtain rfl := Except.ok.inj hd
    refine ⟨rfl, fun hapart => ⟨LabelCache.sound_empty _ _, ?_, ?_⟩⟩
    · intro ref href
      obtain rfl : s.started = ref := Option.some.inj (hscheduler.symm.trans href)
      rw [Updater.started_launch]
      exact Nat.lt_succ_self _
    · intro ref href task hget
      obtain rfl : s.started = ref := Option.some.inj (hscheduler.symm.trans href)
      exact Updater.id_of_launch hapart hget

namespace Isolation

open AuthDict.Action (KeepsTasks)

/-- The service of a process, and the handles of each dictionary by number. A handle that is no
longer called is as good as dropped. -/
structure Process where
  service : Service
  handles : DictionaryId × Nat → Option Dictionary

/-- What is asked of a handle, with what is drawn at random for it. -/
inductive Call where
  | insert (e : Entry)
  | insertBatch (entries : List Entry)
  | apply
  | query (key : Bytes) (pick : UInt8)
  | queryMany (keys : List Bytes) (pick : UInt8)
  | checkForUpdate
  | epoch
  | published
  | save
  | shutDown

inductive Reply where
  | built (r : Except Error Unit)
  | inserted (r : Except Error Unit)
  | insertedBatch (turns : List Nat) (r : Except Error Nat)
  | applied (r : Except Error ApplyOutcome)
  | answer (r : Except Error Answer)
  | answers (r : Except Error (List Answer))
  | checked (r : Except Error Unit)
  | epoch (r : Except Error Epoch)
  | published (r : Except Error PublishedState)
  | saved (record : Bytes)
  | ended (r : Except Error Unit)

/-- The turns that the workers took, if it is a batch that is replied to. -/
def Reply.turns : Option Reply → List Nat
  | some (insertedBatch turns _) => turns
  | _ => []

/-- A call with its reply, what is left of the handle and the service. The workers of a batch take
their turns in any order, and a handle that is shut down is gone whatever comes of it. -/
inductive Call.Outcome (d : Dictionary) (s : Service) :
    Call → Reply → Option Dictionary → Service → Prop
  | insert {e : Entry} {r : Except Error Unit} {s' : Service} : d.insert e s = (r, s') →
      Outcome d s (.insert e) (.inserted r) (some d) s'
  | insertBatch {entries : List Entry} {turns : List Nat} {r : Except Error Nat} {s' : Service} :
      d.InsertsInTurns entries s turns r s' →
      Outcome d s (.insertBatch entries) (.insertedBatch turns r) (some d) s'
  | apply {r : Except Error ApplyOutcome} {s' : Service} : d.apply s = (r, s') →
      Outcome d s .apply (.applied r) (some d) s'
  | query {key : Bytes} {pick : UInt8} {r : Except Error Answer} {d' : Dictionary} {s' : Service} :
      Dictionary.query key pick (d, s) = (r, (d', s')) →
      Outcome d s (.query key pick) (.answer r) (some d') s'
  | queryMany {keys : List Bytes} {pick : UInt8} {r : Except Error (List Answer)} {d' : Dictionary}
      {s' : Service} : Dictionary.queryMany keys pick (d, s) = (r, (d', s')) →
      Outcome d s (.queryMany keys pick) (.answers r) (some d') s'
  | checkForUpdate {r : Except Error Unit} {d' : Dictionary} {s' : Service} :
      Dictionary.checkForUpdate (d, s) = (r, (d', s')) →
      Outcome d s .checkForUpdate (.checked r) (some d') s'
  | epoch {r : Except Error Epoch} {s' : Service} : d.epoch s = (r, s') →
      Outcome d s .epoch (.epoch r) (some d) s'
  | published {r : Except Error PublishedState} {s' : Service} : d.published s = (r, s') →
      Outcome d s .published (.published r) (some d) s'
  | save : Outcome d s .save (.saved d.save) (some d) s
  | shutDown {r : Except Error Unit} {s' : Service} : d.shutDown s = (r, s') →
      Outcome d s .shutDown (.ended r) none s'

/-- What happens in a process without a handle: a background task runs a cycle or ends, a registry
is shut down, or the calls of one kind of a backend go down or come up. -/
inductive Ambient where
  | tick (task : SchedulerRef)
  | stop (task : SchedulerRef)
  | close (registry : RegistryRef)
  | switch (storage : StorageRef) (call : StorageCall) (down : Bool)

def Ambient.after (s : Service) : Ambient → Service
  | tick ref =>
    match s.schedulers.get? ref with
    | some task => (task.cycle s).2
    | none => s
  | stop ref => (Scheduler.stop ref s).2
  | close registry => (Service.shutDownRegistry registry s).2
  | switch ref call down =>
    { s with
      backends := s.backends.set ref
        ((s.backends.get ref).setOutage call fun o => { o with down := fun _ => down }) }

inductive Event where
  | call (id : DictionaryId) (number : Nat) (call : Call)
  | build (number : Nat) (blueprint : Blueprint) (draws : Draws) (hasRuntime : Bool)
  | ambient (a : Ambient)

namespace Event

/-- The dictionary that is called or built. -/
def owner? : Event → Option DictionaryId
  | call id _ _ => some id
  | build _ blueprint draws _ => some (blueprint.identity draws).2.2
  | ambient _ => none

/-- Whether a handle of the dictionary is called. -/
def calls (id : DictionaryId) : Event → Bool
  | call id' _ _ => id' = id
  | _ => false

end Event

/-- An event with its reply. A handle that is not there does not reply. -/
inductive Step (p : Process) : Event → Option Reply → Process → Prop
  | call {id : DictionaryId} {n : Nat} {c : Call} {d : Dictionary} {reply : Reply}
      {d' : Option Dictionary} {s' : Service} : p.handles (id, n) = some d →
      c.Outcome d p.service reply d' s' →
      Step p (.call id n c) (some reply) ⟨s', Function.update p.handles (id, n) d'⟩
  | gone {id : DictionaryId} {n : Nat} {c : Call} : p.handles (id, n) = none →
      Step p (.call id n c) none p
  | built {n : Nat} {blueprint : Blueprint} {draws : Draws} {hasRuntime : Bool} {d : Dictionary}
      {s' : Service} : blueprint.build draws hasRuntime p.service = (.ok d, s') →
      Step p (.build n blueprint draws hasRuntime) (some (.built (.ok ())))
        ⟨s', Function.update p.handles (d.id, n) (some d)⟩
  | refused {n : Nat} {blueprint : Blueprint} {draws : Draws} {hasRuntime : Bool} {e : Error}
      {s' : Service} : blueprint.build draws hasRuntime p.service = (.error e, s') →
      Step p (.build n blueprint draws hasRuntime) (some (.built (.error e))) ⟨s', p.handles⟩
  | ambient {a : Ambient} : Step p (.ambient a) none ⟨a.after p.service, p.handles⟩

variable {d : Dictionary} {s s' s'' : Service} {c : Call} {reply reply' : Reply}
  {d' d'' : Option Dictionary}

theorem Call.exists_outcome (c : Call) (d : Dictionary) (s : Service) :
    ∃ reply d' s', c.Outcome d s reply d' s' := by
  cases c with
  | insert e => exact ⟨_, _, _, .insert rfl⟩
  | insertBatch entries =>
    obtain ⟨turns, r, s', h⟩ := d.exists_insertsInTurns entries s
    exact ⟨_, _, _, .insertBatch h⟩
  | apply => exact ⟨_, _, _, .apply rfl⟩
  | query key pick => exact ⟨_, _, _, .query rfl⟩
  | queryMany keys pick => exact ⟨_, _, _, .queryMany rfl⟩
  | checkForUpdate => exact ⟨_, _, _, .checkForUpdate rfl⟩
  | epoch => exact ⟨_, _, _, .epoch rfl⟩
  | published => exact ⟨_, _, _, .published rfl⟩
  | save => exact ⟨_, _, _, .save⟩
  | shutDown => exact ⟨_, _, _, .shutDown rfl⟩

/-- The turns settle what comes of a call. -/
theorem Call.Outcome.unique (h : c.Outcome d s reply d' s') (k : c.Outcome d s reply' d'' s'')
    (hturns : Reply.turns (some reply) = Reply.turns (some reply')) :
    reply = reply' ∧ d' = d'' ∧ s' = s'' := by
  cases h with
  | insert h =>
    cases k with
    | insert k =>
      obtain ⟨rfl, rfl⟩ := Prod.mk.inj (h.symm.trans k)
      exact ⟨rfl, rfl, rfl⟩
  | insertBatch h =>
    cases k with
    | insertBatch k =>
      simp only [Reply.turns] at hturns
      subst hturns
      obtain ⟨rfl, rfl⟩ := h.unique k
      exact ⟨rfl, rfl, rfl⟩
  | apply h =>
    cases k with
    | apply k =>
      obtain ⟨rfl, rfl⟩ := Prod.mk.inj (h.symm.trans k)
      exact ⟨rfl, rfl, rfl⟩
  | query h =>
    cases k with
    | query k =>
      obtain ⟨rfl, hleft⟩ := Prod.mk.inj (h.symm.trans k)
      obtain ⟨rfl, rfl⟩ := Prod.mk.inj hleft
      exact ⟨rfl, rfl, rfl⟩
  | queryMany h =>
    cases k with
    | queryMany k =>
      obtain ⟨rfl, hleft⟩ := Prod.mk.inj (h.symm.trans k)
      obtain ⟨rfl, rfl⟩ := Prod.mk.inj hleft
      exact ⟨rfl, rfl, rfl⟩
  | checkForUpdate h =>
    cases k with
    | checkForUpdate k =>
      obtain ⟨rfl, hleft⟩ := Prod.mk.inj (h.symm.trans k)
      obtain ⟨rfl, rfl⟩ := Prod.mk.inj hleft
      exact ⟨rfl, rfl, rfl⟩
  | epoch h =>
    cases k with
    | epoch k =>
      obtain ⟨rfl, rfl⟩ := Prod.mk.inj (h.symm.trans k)
      exact ⟨rfl, rfl, rfl⟩
  | published h =>
    cases k with
    | published k =>
      obtain ⟨rfl, rfl⟩ := Prod.mk.inj (h.symm.trans k)
      exact ⟨rfl, rfl, rfl⟩
  | save =>
    cases k
    exact ⟨rfl, rfl, rfl⟩
  | shutDown h =>
    cases k with
    | shutDown k =>
      obtain ⟨rfl, rfl⟩ := Prod.mk.inj (h.symm.trans k)
      exact ⟨rfl, rfl, rfl⟩

/-- A call starts no task, and what it leaves of the handle is settled. -/
theorem Call.Outcome.settled (h : c.Outcome d s reply d' s') (hset : d.SettledIn s) :
    s.StopsTasks s' ∧ ∀ d₁, d' = some d₁ → d₁.id = d.id ∧ d₁.SettledIn s' := by
  have hused {d₁ : Dictionary} (hs : s.StopsTasks s') (halike : d.Alike (d₁, s')) :
      s.StopsTasks s' ∧ ∀ d₂, some d₁ = some d₂ → d₂.id = d.id ∧ d₂.SettledIn s' := by
    refine ⟨hs, ?_⟩
    rintro d₂ ⟨⟩
    obtain ⟨hid, hset'⟩ := hset.of_alike halike
    exact ⟨hid, hset'.of_stops hs⟩
  have hsame (s : Service) : d.Alike (d, s) := ⟨d.cache, d.router, rfl, hset.cache⟩
  cases h with
  | insert h => exact hused (.of_same ((KeepsTasks.insert ..).of_eq h)) (hsame _)
  | insertBatch h =>
    obtain ⟨_, h⟩ := h.insertsBatch
    exact hused (.of_same h.sameTasks) (hsame _)
  | apply h => exact hused (.of_same ((KeepsTasks.apply ..).of_eq h)) (hsame _)
  | @query key pick _ _ _ h =>
    have halike := (d.query_alike key pick (d, s) (hsame s)).1
    rw [h] at halike
    exact hused (.of_same ((KeepsTasks.query ..).of_eq h)) halike
  | @queryMany keys pick _ _ _ h =>
    have halike := (d.queryMany_alike keys pick (d, s) (hsame s)).1
    rw [h] at halike
    exact hused (.of_same ((KeepsTasks.queryMany ..).of_eq h)) halike
  | checkForUpdate h =>
    have halike := (d.onRouter_alike Router.checkForUpdate (d, s) (hsame s)).1
    rw [show Dictionary.onRouter Router.checkForUpdate (d, s) = _ from h] at halike
    exact hused (.of_same ((KeepsTasks.onRouter Router.checkForUpdate).of_eq h)) halike
  | epoch h => exact hused (.of_same ((KeepsTasks.onStorage ..).of_eq h)) (hsame _)
  | published h => exact hused (.of_same ((KeepsTasks.published d).of_eq h)) (hsame _)
  | save => exact hused (.refl s) (hsame s)
  | shutDown h => exact ⟨.shutDown h, fun d₁ h₁ => by cases h₁⟩

theorem Ambient.stops (x : Ambient) (s : Service) : s.StopsTasks (x.after s) := by
  cases x with
  | tick ref =>
    cases hget : s.schedulers.get? ref with
    | none =>
      simp only [after, hget]
      exact .refl s
    | some task =>
      simp only [after, hget]
      exact .cycle rfl
  | stop ref => exact .stop rfl
  | close registry => exact .shutDownRegistry rfl
  | switch ref call down => exact .of_same ⟨rfl, rfl, rfl⟩

/-- Every handle is kept under its dictionary and is settled. -/
structure Process.Sound (p : Process) : Prop where
  apart : p.service.TasksApart
  handles : ∀ id n d, p.handles (id, n) = some d → d.id = id ∧ d.SettledIn p.service

variable {p p' p'' : Process} {e : Event} {r r' : Option Reply} {id : DictionaryId} {n : Nat}

theorem Process.Sound.of_stops (h : p.Sound) (hs : p.service.StopsTasks s') :
    Sound ⟨s', p.handles⟩ where
  apart := h.apart.of_stops hs
  handles id n d hd := (h.handles id n d hd).imp_right fun hset => hset.of_stops hs

theorem Process.Sound.update (h : p.Sound) (hapart : s'.TasksApart)
    (hkept : ∀ d : Dictionary, d.SettledIn p.service → d.SettledIn s')
    (hnew : ∀ d, d' = some d → d.id = id ∧ d.SettledIn s') :
    Sound ⟨s', Function.update p.handles (id, n) d'⟩ := by
  refine ⟨hapart, fun id' n' d hd => ?_⟩
  by_cases hkey : (id', n') = (id, n)
  · obtain ⟨rfl, rfl⟩ := Prod.mk.inj hkey
    dsimp only at hd
    rw [Function.update_self] at hd
    exact hnew d hd
  · dsimp only at hd
    rw [Function.update_of_ne hkey] at hd
    exact (h.handles id' n' d hd).imp_right (hkept d)

theorem Step.sound (h : Step p e r p') (hp : p.Sound) : p'.Sound := by
  cases h with
  | @call id n _ d _ _ _ hd hcall =>
    obtain ⟨hid, hset⟩ := hp.handles id n d hd
    obtain ⟨hstops, hafter⟩ := hcall.settled hset
    exact hp.update (hp.apart.of_stops hstops) (fun _ h => h.of_stops hstops)
      fun d₁ hd₁ => (hafter d₁ hd₁).imp_left fun h => h.trans hid
  | gone _ => exact hp
  | @built _ _ _ _ d _ hbuild =>
    obtain ⟨hkept, hnew⟩ := Blueprint.settledIn_build hbuild
    refine hp.update (hp.apart.build hbuild) hkept ?_
    rintro d₁ ⟨⟩
    exact ⟨rfl, (hnew d rfl).2 hp.apart⟩
  | refused hbuild =>
    obtain ⟨hkept, -⟩ := Blueprint.settledIn_build hbuild
    exact ⟨hp.apart.build hbuild,
      fun id n d hd => (hp.handles id n d hd).imp_right (hkept d)⟩
  | @ambient x => exact hp.of_stops (x.stops _)

/-- Every event can happen. -/
theorem exists_step (p : Process) (e : Event) : ∃ r p', Step p e r p' := by
  cases e with
  | call id n c =>
    cases hd : p.handles (id, n) with
    | none => exact ⟨_, _, .gone hd⟩
    | some d =>
      obtain ⟨reply, d', s', hcall⟩ := c.exists_outcome d p.service
      exact ⟨_, _, .call hd hcall⟩
  | build n blueprint draws hasRuntime =>
    rcases hbuild : blueprint.build draws hasRuntime p.service with ⟨e | d, s'⟩
    · exact ⟨_, _, .refused hbuild⟩
    · exact ⟨_, _, .built hbuild⟩
  | ambient x => exact ⟨_, _, .ambient⟩

/-- The turns settle what comes of an event. -/
theorem Step.unique (h : Step p e r p') (k : Step p e r' p'')
    (hturns : Reply.turns r = Reply.turns r') : r = r' ∧ p' = p'' := by
  cases h with
  | call hd hcall =>
    cases k with
    | call hd' hcall' =>
      obtain rfl := Option.some.inj (hd.symm.trans hd')
      obtain ⟨rfl, rfl, rfl⟩ := hcall.unique hcall' hturns
      exact ⟨rfl, rfl⟩
    | gone hd' => simp [hd] at hd'
  | gone hd =>
    cases k with
    | call hd' _ => simp [hd] at hd'
    | gone _ => exact ⟨rfl, rfl⟩
  | built hbuild =>
    cases k with
    | built hbuild' =>
      obtain ⟨hr, rfl⟩ := Prod.mk.inj (hbuild.symm.trans hbuild')
      obtain rfl := Except.ok.inj hr
      exact ⟨rfl, rfl⟩
    | refused hbuild' => simp [hbuild] at hbuild'
  | refused hbuild =>
    cases k with
    | built hbuild' => simp [hbuild] at hbuild'
    | refused hbuild' =>
      obtain ⟨hr, rfl⟩ := Prod.mk.inj (hbuild.symm.trans hbuild')
      obtain rfl := Except.error.inj hr
      exact ⟨rfl, rfl⟩
  | ambient =>
    cases k
    exact ⟨rfl, rfl⟩

theorem Event.eq_call_of_calls (he : e.calls id = true) : ∃ n c, e = .call id n c := by
  cases e with
  | call id' n c =>
    obtain rfl : id' = id := of_decide_eq_true he
    exact ⟨n, c, rfl⟩
  | build _ _ _ _ => contradiction
  | ambient _ => contradiction

theorem Step.turns_eq_nil (h : Step p e r p') (he : ∀ id, e.calls id ≠ true) :
    Reply.turns r = [] := by
  cases h with
  | @call id => exact absurd (decide_eq_true rfl) (he id)
  | gone _ => rfl
  | built _ => rfl
  | refused _ => rfl
  | ambient => rfl

/-- A process with backends and hooks, in which nothing has been built. -/
def start (backends : Backends) (hooks : OrderedMap HookRef ApplyHook) : Process where
  service := { backends, hooks }
  handles _ := none

theorem handles_start {backends : Backends} {hooks : OrderedMap HookRef ApplyHook}
    {key : DictionaryId × Nat} {d : Dictionary} : (start backends hooks).handles key ≠ some d := by
  simp [start]

theorem sound_start (backends : Backends) (hooks : OrderedMap HookRef ApplyHook) :
    (start backends hooks).Sound := by
  refine ⟨⟨nofun, nofun, fun ref task hget => ?_⟩, fun _ _ _ hd => absurd hd handles_start⟩
  simp [start] at hget

end Isolation

end AuthDict
