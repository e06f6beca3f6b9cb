import AuthDict.Query.Router
import AuthDict.Updater.Cycle

/-!
# Services

What one process shares between its dictionaries: backends, hooks, registries, the background
schedulers and the metrics. A registry owns the tables that are filed by dictionary: pending
updates, querier pools and write locks.
-/
namespace AuthDict

abbrev RegistryRef := Nat

abbrev HookRef := Nat

abbrev SchedulerRef := Nat

structure Registry where
  pending : PendingTable := {}
  pools : PoolTable := ∅
  writeLocks : LockTable := {}
  isShutDown : Bool := false

namespace Registry

instance : Inhabited Registry := ⟨{}⟩

/-- The lock under which the elements of a dictionary are written. -/
def writeLock (r : Registry) (id : DictionaryId) : Nat × Registry :=
  let (lock, writeLocks) := r.writeLocks.get id
  (lock, { r with writeLocks })

def requireOpen (r : Registry) : Except Error Unit :=
  if r.isShutDown then .error (.configuration .registryShutDown) else .ok ()

/-- Forgets all state of a dictionary. -/
def release (r : Registry) (id : DictionaryId) : Registry :=
  { r with
    pending := (r.pending.remove id).2
    pools := r.pools.erase id
    writeLocks := r.writeLocks.erase id }

/-- Empties every table and returns how many updates were pending. -/
def clear (r : Registry) : Nat × Registry :=
  let (dropped, pending) := r.pending.clear
  (dropped, { r with pending, pools := ∅, writeLocks := r.writeLocks.clear })

end Registry

/-- The writer of the tries of some dictionaries. -/
structure Updater where
  config : UpdaterConfig
  registry : RegistryRef
  storage : StorageRef
  hook : Option HookRef := none

namespace Updater

def name : String := "buffered"

end Updater

/-- A background task that runs a cycle of a dictionary in each period. -/
structure Scheduler where
  updater : Updater
  id : DictionaryId
  period : Duration
  /-- The registry that stops the task when it is shut down. -/
  owner : Option RegistryRef

structure Service where
  backends : Backends := {}
  registries : OrderedMap RegistryRef Registry := ∅
  hooks : OrderedMap HookRef ApplyHook := ∅
  /-- The tasks that run. -/
  schedulers : OrderedMap SchedulerRef Scheduler := ∅
  /-- The tasks that failed before they could run. -/
  lost : List SchedulerRef := []
  /-- The number of tasks started so far. -/
  started : Nat := 0
  metrics : Metrics := {}

namespace Service

def registry (s : Service) (ref : RegistryRef) : Registry := (s.registries.get? ref).getD {}

def setRegistry (s : Service) (ref : RegistryRef) (r : Registry) : Service :=
  { s with registries := s.registries.insert ref r }

def onStorage {α : Type} (ref : StorageRef) (x : Action Storage α) : Action Service α :=
  Action.within (·.backends) (fun b s => { s with backends := b }) (Backends.on ref x)

def onRegistry {α : Type} (ref : RegistryRef) (f : Registry → α × Registry) : Action Service α :=
  Action.total fun s =>
    let (a, r) := f (s.registry ref)
    (a, s.setRegistry ref r)

/-- What the cycles of an updater work on. -/
def writeSide (u : Updater) (s : Service) : WriteSide :=
  { pending := (s.registry u.registry).pending
    storage := s.backends.get u.storage
    hook := u.hook.bind s.hooks.get?
    metrics := s.metrics }

def setWriteSide (u : Updater) (w : WriteSide) (s : Service) : Service :=
  let hooks := match u.hook, w.hook with
    | some ref, some hook => s.hooks.insert ref hook
    | _, _ => s.hooks
  { s.setRegistry u.registry { s.registry u.registry with pending := w.pending } with
    backends := s.backends.set u.storage w.storage
    hooks
    metrics := w.metrics }

/-- What the lookups of a router on a registry's pools work on. -/
def readSide (ref : RegistryRef) (s : Service) : ReadSide :=
  { backends := s.backends, pools := (s.registry ref).pools, metrics := s.metrics }

def setReadSide (ref : RegistryRef) (r : ReadSide) (s : Service) : Service :=
  { s.setRegistry ref { s.registry ref with pools := r.pools } with
    backends := r.backends
    metrics := r.metrics }

def onReadSide {α : Type} (ref : RegistryRef) (x : Action ReadSide α) : Action Service α :=
  Action.within (readSide ref) (setReadSide ref) x

def onRouter {α : Type} (ref : RegistryRef) (x : Action (Router × ReadSide) α) :
    Action (Router × Service) α :=
  Action.within (fun (router, s) => (router, s.readSide ref))
    (fun (router, r) (_, s) => (router, s.setReadSide ref r)) x

end Service

namespace Updater

open Service

def apply (u : Updater) (id : DictionaryId) : Action Service ApplyOutcome :=
  Action.within (writeSide u) (setWriteSide u) (WriteSide.runCycle u.config.onApplyFailure id)

def enqueue (u : Updater) (id : DictionaryId) (updates : List Update) : Action Service Unit :=
  Action.within (writeSide u) (setWriteSide u) (Action.update (·.enqueue id updates))

def pendingCount (u : Updater) (id : DictionaryId) (s : Service) : Nat :=
  (s.registry u.registry).pending.pendingCount id

/-- Launches a background task. Without a deadline that the clock can tell it is lost: it never runs a
cycle, not even a last one. -/
def launch (u : Updater) (id : DictionaryId) (owner : Option RegistryRef) (period : Duration)
    (s : Service) : SchedulerRef × Service :=
  let task := s.started
  let s := { s with started := task + 1 }
  (task,
    if period.endsOnClock then
      { s with schedulers := s.schedulers.insert task ⟨u, id, period, owner⟩ }
    else { s with lost := task :: s.lost })

/-- Starts the background cycles of a dictionary. They need a period and something to run them. -/
def spawn (u : Updater) (id : DictionaryId) (owner : Option RegistryRef) (hasRuntime : Bool) :
    Action Service SchedulerRef := do
  match u.config.commitInterval with
  | none => Action.fail (.configuration .noCommitInterval)
  | some period =>
    if period = .zero then Action.fail (.configuration .zeroCommitInterval)
    if !hasRuntime then Action.fail (.configuration .noRuntime)
    Action.total (u.launch id owner period)

end Updater

namespace Scheduler

/-- One cycle, whose failure nobody hears of. -/
def cycle (t : Scheduler) : Action Service Unit := do
  let _ ← Action.attempt (t.updater.apply t.id)

/-- Stops a task if it runs. It ends with a last cycle if its updater flushes. -/
def stop (ref : SchedulerRef) : Action Service Unit := do
  match ← Action.read (·.schedulers.get? ref) with
  | none => return ()
  | some t =>
    Action.update fun s => { s with schedulers := s.schedulers.erase ref }
    if t.updater.config.flushOnShutdown then t.cycle

/-- Runs the cycles that fall due within a time, one for each task whose period is no longer. -/
def elapse (time : Duration) : Action Service Unit := do
  (← Action.read (·.schedulers.values)).forM fun t => do
    if t.period.toNanos ≤ time.toNanos then t.cycle

end Scheduler

namespace Service

/-- Stops every task of a registry, waits for their last cycles and empties its tables. Returns the
number of updates that were still pending. -/
def shutDownRegistry (ref : RegistryRef) : Action Service Nat := do
  onRegistry ref fun r => ((), { r with isShutDown := true })
  (← Action.read (·.schedulers.entries)).forM fun (task, t) => do
    if t.owner = some ref then Scheduler.stop task
  onRegistry ref Registry.clear

end Service

end AuthDict
