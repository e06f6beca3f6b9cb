import AuthDict.Proofs.Dictionary.Operations
import AuthDict.Proofs.Schedule
import Mathlib.Logic.Relation

/-!
# Closing a handle

One handle of a dictionary is shut down while others insert. The shutdown takes four steps: it stops
the background task, looks at the queue, applies what it has seen there, and releases the
dictionary's state in the registry. An insertion takes two: it writes its entry, and it queues the
update. The steps of different calls alternate in any order, with rounds of background tasks in
between.

The updates that were queued after the shutdown was done with the queue and before its release are
listed as late, and those that the release drops as dropped; no step depends on either list. Calls
that nobody disturbs do what `Dictionary.shutDown` and `Dictionary.insert` do.
-/
namespace AuthDict.Closing

open Relation (ReflTransGen)

inductive InsertStage where
  | called
  | written (update : Update)
  | returned (result : Except Error Unit)

structure Insertion where
  handle : Dictionary
  entry : Entry
  stage : InsertStage := .called

namespace Insertion

/-- Writes the entry under the write lock. -/
def write (i : Insertion) : Action Service Update := do
  let _ ← i.handle.takeWriteLock
  i.handle.writeEntry i.entry

/-- The next step, with the updates that it queues. -/
def next? (s : Service) (i : Insertion) : Option (Insertion × Service × List Update) :=
  match i.stage with
  | .called =>
    match i.write s with
    | (.ok update, s) => some ({ i with stage := .written update }, s, [])
    | (.error e, s) => some ({ i with stage := .returned (.error e) }, s, [])
  | .written update =>
    let (result, s) := i.handle.updater.enqueue i.handle.id [update] s
    some ({ i with stage := .returned result }, s, [update])
  | .returned _ => none

/-- The update that is still to be queued. -/
def update? (i : Insertion) : Option Update :=
  match i.stage with
  | .written update => some update
  | _ => none

def isReturned (i : Insertion) : Bool :=
  match i.stage with
  | .returned _ => true
  | _ => false

end Insertion

inductive EndStage where
  | called
  | stopped
  /-- Updates were waiting when it looked. -/
  | pending
  /-- The queue was found empty, or a cycle has emptied it. -/
  | flushed
  | returned (result : Except Error Unit)

namespace EndStage

def isFlushed : EndStage → Bool
  | flushed => true
  | _ => false

def isReturned : EndStage → Bool
  | returned _ => true
  | _ => false

/-- Stops the background task, which must not have been lost. -/
def stopTask (d : Dictionary) : Action Service Unit := do
  d.stopScheduler
  if let some task := ← Action.read d.lostTask? then Action.fail (.lostTask task)

/-- Where a step leads that ends the shutdown if it fails. -/
def orReturn {α : Type} (next : EndStage) : Except Error α → EndStage
  | .ok _ => next
  | .error e => returned (.error e)

def next? (d : Dictionary) (s : Service) : EndStage → Option (EndStage × Service)
  | called => some (stopped.orReturn (stopTask d s).1, (stopTask d s).2)
  | stopped => some (if 0 < d.pendingCount s then pending else flushed, s)
  | pending => some (flushed.orReturn (d.apply s).1, (d.apply s).2)
  | flushed =>
    let release := Service.onRegistry d.registry fun r => ((), r.release d.id)
    some (returned (release s).1, (release s).2)
  | returned _ => none

end EndStage

structure State where
  service : Service
  insertions : List Insertion := []
  ending : EndStage := .called
  late : List Update := []
  dropped : List Update := []

inductive Move where
  /-- One of the other handles is asked to insert an entry. -/
  | insert (handle : Nat) (entry : Entry)
  | advance (insertion : Nat)
  | close
  | tick (task : SchedulerRef)

namespace State

variable (d : Dictionary) (others : List Dictionary)

def next? (w : State) : Move → Option State
  | .insert handle entry => do
    let handle ← others[handle]?
    return { w with insertions := w.insertions ++ [{ handle, entry }] }
  | .advance k => do
    let i ← w.insertions[k]?
    let (i, service, queued) ← i.next? w.service
    return { w with
      service
      insertions := w.insertions.set k i
      late := if w.ending.isFlushed then w.late ++ queued else w.late }
  | .close => do
    let (ending, service) ← w.ending.next? d w.service
    return { w with
      service
      ending
      late := if ending.isFlushed then [] else w.late
      dropped := if w.ending.isFlushed then (w.service.holdings d.site).queue else w.dropped }
  | .tick task => do
    let t ← w.service.schedulers.get? task
    return { w with service := (t.cycle w.service).2 }

/-- The state after some moves, if each of them is enabled. -/
abbrev run? (w : State) (moves : List Move) : Option State :=
  Schedule.play? (next? d others) (fun _ _ => true) w moves

def inFlight (w : State) : List Update := w.insertions.filterMap (·.update?)

/-- A state in which no call has been made. -/
def start (service : Service) : State := { service }

def AllReturned (w : State) : Prop :=
  (∀ i ∈ w.insertions, i.isReturned = true) ∧ w.ending.isReturned = true

instance (w : State) : Decidable w.AllReturned :=
  inferInstanceAs (Decidable ((∀ i ∈ w.insertions, i.isReturned = true) ∧
    w.ending.isReturned = true))

end State

/-- Some steps of one insertion. -/
def Insertion.Runs : Insertion × Service → Insertion × Service → Prop :=
  ReflTransGen fun a b => ∃ queued, a.1.next? a.2 = some (b.1, b.2, queued)

/-- An insertion in one go does what `Dictionary.insert` does. -/
theorem Insertion.runs_insert (d : Dictionary) (e : Entry) (s : Service) :
    Runs (⟨d, e, .called⟩, s) (⟨d, e, .returned (d.insert e s).1⟩, (d.insert e s).2) := by
  have hinsert : d.insert e s =
      (write ⟨d, e, .called⟩ >>= fun update => d.updater.enqueue d.id [update]) s := by
    rw [Dictionary.insert, write, Action.bind_apply, Action.bind_apply, Action.bind_apply]
    rcases d.takeWriteLock s with ⟨x | lock, s₁⟩ <;> rfl
  rw [hinsert]
  rcases hwrite : write ⟨d, e, .called⟩ s with ⟨x | update, s₁⟩
  · rw [Action.bind_error hwrite]
    refine .single ⟨[], ?_⟩
    simp only [next?, hwrite]
  · rw [Action.bind_ok hwrite]
    have hwritten : Runs (⟨d, e, .called⟩, s) (⟨d, e, .written update⟩, s₁) := by
      refine .single ⟨[], ?_⟩
      simp only [next?, hwrite]
    exact hwritten.tail ⟨[update], rfl⟩

/-- Some steps of a shutdown. -/
def EndStage.Runs (d : Dictionary) : EndStage × Service → EndStage × Service → Prop :=
  ReflTransGen fun a b => a.1.next? d a.2 = some b

theorem EndStage.stopTask_ok {d : Dictionary} {s s₁ : Service} {u : Unit}
    (hstop : d.stopScheduler s = (.ok u, s₁)) :
    stopTask d s = (match d.lostTask? s₁ with
      | some task => (.error (.lostTask task), s₁)
      | none => (.ok (), s₁)) := by
  rw [stopTask, Action.bind_ok hstop, Action.read_bind]
  cases d.lostTask? s₁ <;> rfl

theorem EndStage.called_next {d : Dictionary} {s s₁ : Service} {u : Unit}
    (hstop : d.stopScheduler s = (.ok u, s₁)) (hlost : d.lostTask? s₁ = none) :
    next? d s called = some (stopped, s₁) := by
  simp only [next?, stopTask_ok hstop, hlost, orReturn]

theorem EndStage.flushed_next (d : Dictionary) (s : Service) :
    next? d s flushed = some (returned (.ok ()), d.released s) := rfl

/-- A shutdown in one go does what `Dictionary.shutDown` does. -/
theorem EndStage.runs_shutDown (d : Dictionary) (s : Service) :
    Runs d (called, s) (returned (d.shutDown s).1, (d.shutDown s).2) := by
  rcases hend : d.shutDown s with ⟨r, s'⟩
  cases Dictionary.shutDown_ends hend with
  | lost hstop hlost =>
    refine .single ?_
    simp only [next?, stopTask_ok hstop, hlost, orReturn]
  | @failed s₁ _ x hstop hlost hpending happly =>
    have hstopped : next? d s₁ stopped = some (pending, s₁) := by simp only [next?, if_pos hpending]
    have happlied : next? d s₁ pending = some (returned (.error x), s') := by
      simp only [next?, happly, orReturn]
    exact .head (called_next hstop hlost) (.head hstopped (.single happlied))
  | @flushed s₁ s₂ _ hstop hlost hpending happly =>
    have hstopped : next? d s₁ stopped = some (pending, s₁) := by simp only [next?, if_pos hpending]
    have happlied : next? d s₁ pending = some (flushed, s₂) := by simp only [next?, happly, orReturn]
    exact .head (called_next hstop hlost)
      (.head hstopped (.head happlied (.single (flushed_next d s₂))))
  | @empty s₁ hstop hlost hzero =>
    have hstopped : next? d s₁ stopped = some (flushed, s₁) := by
      simp only [next?, hzero, Nat.lt_irrefl, if_false]
    exact .head (called_next hstop hlost) (.head hstopped (.single (flushed_next d s₁)))

end AuthDict.Closing
