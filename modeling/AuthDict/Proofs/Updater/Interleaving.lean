import AuthDict.Dictionary.Basic
import AuthDict.Proofs.Schedule
import Mathlib.Logic.Function.Basic

/-!
# Interleaved calls

Commit cycles, removals from the pending table and readings of the published state, called by any
number of threads at the same time. The calls meet in what they share: the write side, the locks and
the lock table. Each call is broken up into its atomic steps, which are the changes of one table and
the calls of the backend, and a schedule of moves says who takes the next one; updates are enqueued
in between. A step that has to wait is not enabled.

A cycle asks the table for the lock of its dictionary in one step and takes that lock in a later
one. A removal holds the table from its first step to its last: it takes the locks out of the table,
finds each of them free once, and then drops the queues.

Which calls of the backend fail is up to its outages, of which nothing is assumed. A call that no
other call disturbs does what `WriteSide.runCycle`, `PendingTable.remove`, `PendingTable.clear` and
`Dictionary.published` do.
-/
namespace AuthDict

/-- Where a cycle stands while it has the lock. -/
inductive Work where
  | begun
  | drained (batch : List Update)
  /-- The stored trie has been read, and the batch is applied to it. -/
  | loaded (batch : List Update) (stored : Option Trie)
  | saved (batch : List Update) (trie : Trie) (proofs : List AppendProof)
  | failed (batch : List Update) (e : Error)
  | done (result : Except Error ApplyOutcome)

inductive CycleStage where
  | called
  /-- The lock is known but not yet held. -/
  | waiting (lock : Nat)
  | inside (lock : Nat) (work : Work)
  | returned (result : Except Error ApplyOutcome)

/-- Which dictionaries a removal forgets. -/
inductive Scope where
  | only (id : DictionaryId)
  | all

inductive RemovalStage where
  | called
  | atTable
  /-- The locks taken out of the table that have not been found free yet. -/
  | waiting (locks : List (DictionaryId × Nat))
  | emptied (dropped : List Update)
  | returned (dropped : List Update)

inductive PublicationStage where
  | called
  | rootRead (root : Digest)
  | returned (result : Except Error PublishedState)

inductive Call where
  | cycle (id : DictionaryId) (policy : FailurePolicy) (stage : CycleStage)
  | removal (scope : Scope) (stage : RemovalStage)
  | publication (id : DictionaryId) (key : Option PublicKey) (stage : PublicationStage)

def Call.isNew : Call → Bool
  | cycle _ _ .called => true
  | removal _ .called => true
  | publication _ _ .called => true
  | _ => false

theorem Call.isNew_cases {c : Call} (h : c.isNew = true) :
    (∃ id policy, c = cycle id policy .called) ∨ (∃ scope, c = removal scope .called) ∨
      ∃ id key, c = publication id key .called := by
  cases c with
  | cycle id policy stage =>
    cases stage with
    | called => exact .inl ⟨id, policy, rfl⟩
    | _ => contradiction
  | removal scope stage =>
    cases stage with
    | called => exact .inr (.inl ⟨scope, rfl⟩)
    | _ => contradiction
  | publication id key stage =>
    cases stage with
    | called => exact .inr (.inr ⟨id, key, rfl⟩)
    | _ => contradiction

structure Shared where
  side : WriteSide
  /-- Which of the minted locks are held. -/
  held : Nat → Bool := fun _ => false
  /-- Whether a removal holds the lock table. -/
  tableHeld : Bool := false

namespace Shared

def withSide (s : Shared) (side : WriteSide) : Shared := { s with side }

def withPending (s : Shared) (pending : PendingTable) : Shared :=
  s.withSide { s.side with pending }

def withStorage (s : Shared) (storage : Storage) : Shared := s.withSide { s.side with storage }

def setHeld (s : Shared) (lock : Nat) (held : Bool) : Shared :=
  { s with held := Function.update s.held lock held }

def queue (s : Shared) (id : DictionaryId) : List Update := s.side.pending.queue id

def stored (s : Shared) (id : DictionaryId) : Option Trie := s.side.storage.tries.get? id

/-- The lock that the table has for a dictionary. -/
def lock? (s : Shared) (id : DictionaryId) : Option Nat :=
  s.side.pending.applyLocks.locks.get? id

@[simp] theorem side_withSide (s : Shared) (side : WriteSide) : (s.withSide side).side = side := rfl

@[simp] theorem withSide_withSide (s : Shared) (side side' : WriteSide) :
    (s.withSide side).withSide side' = s.withSide side' := rfl

end Shared

/-- The next step of a cycle that has the lock, but for the last one, which gives it back. -/
def Work.next? (id : DictionaryId) (policy : FailurePolicy) (w : WriteSide) :
    Work → Option (Work × WriteSide)
  | begun =>
    let (batch, pending) := w.pending.drain id
    some (if batch.isEmpty then done (.ok .idle) else drained batch, { w with pending })
  | drained batch =>
    match Storage.loadTrie id w.storage with
    | (.ok stored, storage) => some (loaded batch stored, { w with storage })
    | (.error e, storage) => some (failed batch e, { w with storage })
  | loaded batch stored =>
    let (trie, proofs) := (stored.getD {}).applyBatch batch
    match Storage.saveTrie id trie w.storage with
    | (.ok _, storage) => some (saved batch trie proofs, { w with storage })
    | (.error e, storage) => some (failed batch e, { w with storage })
  | saved batch trie proofs =>
    some (done (.ok (.applied trie.epoch trie.root batch.length)),
      w.finish id trie proofs batch.length)
  | failed batch e => some (done (.error e), w.recover policy id batch)
  | done _ => none

def CycleStage.next? (id : DictionaryId) (policy : FailurePolicy) (s : Shared) :
    CycleStage → Option (CycleStage × Shared)
  | called =>
    if s.tableHeld then none else
    let (lock, pending) := s.side.pending.applyLock id
    some (waiting lock, s.withPending pending)
  | waiting lock => if s.held lock then none else some (inside lock .begun, s.setHeld lock true)
  | inside lock (.done result) => some (returned result, s.setHeld lock false)
  | inside lock work => do
    let (work, side) ← work.next? id policy s.side
    return (inside lock work, s.withSide side)
  | returned _ => none

namespace Scope

def Covers : Scope → DictionaryId → Prop
  | only id, id' => id' = id
  | all, _ => True

instance (id : DictionaryId) : (x : Scope) → Decidable (x.Covers id)
  | only id' => inferInstanceAs (Decidable (id = id'))
  | all => inferInstanceAs (Decidable True)

def locks (t : LockTable) : Scope → List (DictionaryId × Nat)
  | only id => (t.locks.get? id).toList.map (id, ·)
  | all => t.locks.entries

def eraseLocks (t : LockTable) : Scope → LockTable
  | only id => t.erase id
  | all => t.clear

def updates (t : PendingTable) : Scope → List Update
  | only id => t.queue id
  | all => t.queues.values.flatten

def eraseQueues (t : PendingTable) : Scope → PendingTable
  | only id => { t with queues := t.queues.erase id }
  | all => { t with queues := ∅ }

end Scope

/-- Of the locks that a removal waits for, `pick` says which one it finds free. -/
def RemovalStage.next? (scope : Scope) (pick : Nat) (s : Shared) :
    RemovalStage → Option (RemovalStage × Shared)
  | called => if s.tableHeld then none else some (atTable, { s with tableHeld := true })
  | atTable =>
    let locks := s.side.pending.applyLocks
    some (waiting (scope.locks locks),
      s.withPending { s.side.pending with applyLocks := scope.eraseLocks locks })
  | waiting [] =>
    some (emptied (scope.updates s.side.pending), s.withPending (scope.eraseQueues s.side.pending))
  | waiting locks => do
    let (_, lock) ← locks[pick]?
    if s.held lock then none else return (waiting (locks.eraseIdx pick), s)
  | emptied dropped => some (returned dropped, { s with tableHeld := false })
  | returned _ => none

def PublicationStage.next? (id : DictionaryId) (key : Option PublicKey) (s : Shared) :
    PublicationStage → Option (PublicationStage × Shared)
  | called =>
    match Storage.loadRoot id s.side.storage with
    | (.ok root, storage) => some (rootRead root, s.withStorage storage)
    | (.error e, storage) => some (returned (.error e), s.withStorage storage)
  | rootRead root =>
    match Storage.loadEpoch id s.side.storage with
    | (.ok epoch, storage) => some (returned (.ok ⟨root, epoch, key⟩), s.withStorage storage)
    | (.error e, storage) => some (returned (.error e), s.withStorage storage)
  | returned _ => none

def Call.next? (pick : Nat) (s : Shared) : Call → Option (Call × Shared)
  | cycle id policy stage => (stage.next? id policy s).map fun (stage, s) =>
      (cycle id policy stage, s)
  | removal scope stage => (stage.next? scope pick s).map fun (stage, s) => (removal scope stage, s)
  | publication id key stage => (stage.next? id key s).map fun (stage, s) =>
      (publication id key stage, s)

/-- The batch that a call has saved in its latest step. -/
def Call.justSaved : Call → List (DictionaryId × List Update)
  | cycle id _ (.inside _ (.saved batch _ _)) => [(id, batch)]
  | _ => []

/-- What is shared, and the calls made so far. What has been enqueued and what has been saved is
listed in order; no step depends on it. -/
structure World where
  shared : Shared
  calls : List Call := []
  enqueued : List (DictionaryId × List Update) := []
  saved : List (DictionaryId × List Update) := []

inductive Move where
  | enqueue (id : DictionaryId) (updates : List Update)
  | start (call : Call)
  /-- A call takes its next step. -/
  | advance (call : Nat) (pick : Nat)

namespace World

def enqueue (w : World) (id : DictionaryId) (updates : List Update) : World :=
  { w with
    shared := w.shared.withSide (w.shared.side.enqueue id updates)
    enqueued := w.enqueued ++ [(id, updates)] }

def next? (w : World) : Move → Option World
  | .enqueue id updates => some (w.enqueue id updates)
  | .start call => if call.isNew then some { w with calls := w.calls ++ [call] } else none
  | .advance i pick => do
    let call ← w.calls[i]?
    let (call, shared) ← call.next? pick w.shared
    return { w with shared, calls := w.calls.set i call, saved := w.saved ++ call.justSaved }

/-- The world after some moves, if each of them is allowed and enabled. -/
abbrev play? (allowed : World → Move → Bool) (w : World) (moves : List Move) : Option World :=
  Schedule.play? next? allowed w moves

/-- The world after some moves, whatever they are. -/
abbrev run? (w : World) (moves : List Move) : Option World := w.play? (fun _ _ => true) moves

/-- No call has been made yet. -/
structure Quiet (w : World) : Prop where
  calls : w.calls = []
  enqueued : w.enqueued = []
  saved : w.saved = []
  held : ∀ lock, w.shared.held lock = false
  tableHeld : w.shared.tableHeld = false

/-- A world with a backend and nothing else. -/
def initial (storage : Storage) : World := { shared := { side := ⟨{}, storage, none, {}⟩ } }

theorem quiet_initial (storage : Storage) : (initial storage).Quiet :=
  ⟨rfl, rfl, rfl, fun _ => rfl, rfl⟩

end World

/-- The steps of a call, with what is shared before and after. -/
inductive Call.Step (pick : Nat) (s : Shared) : Call → Call → Shared → Prop
  | lookUp {id policy} : s.tableHeld = false →
      Step pick s (.cycle id policy .called)
        (.cycle id policy (.waiting (s.side.pending.applyLock id).1))
        (s.withPending (s.side.pending.applyLock id).2)
  | acquire {id policy lock} : s.held lock = false →
      Step pick s (.cycle id policy (.waiting lock)) (.cycle id policy (.inside lock .begun))
        (s.setHeld lock true)
  | work {id policy lock work work' side} : work.next? id policy s.side = some (work', side) →
      Step pick s (.cycle id policy (.inside lock work)) (.cycle id policy (.inside lock work'))
        (s.withSide side)
  | release {id policy lock result} :
      Step pick s (.cycle id policy (.inside lock (.done result)))
        (.cycle id policy (.returned result)) (s.setHeld lock false)
  | takeTable {scope} : s.tableHeld = false →
      Step pick s (.removal scope .called) (.removal scope .atTable) { s with tableHeld := true }
  | takeLocks {scope} :
      Step pick s (.removal scope .atTable)
        (.removal scope (.waiting (scope.locks s.side.pending.applyLocks)))
        (s.withPending { s.side.pending with
          applyLocks := scope.eraseLocks s.side.pending.applyLocks })
  | pass {scope locks entry} : locks[pick]? = some entry → s.held entry.2 = false →
      Step pick s (.removal scope (.waiting locks))
        (.removal scope (.waiting (locks.eraseIdx pick))) s
  | empty {scope} :
      Step pick s (.removal scope (.waiting []))
        (.removal scope (.emptied (scope.updates s.side.pending)))
        (s.withPending (scope.eraseQueues s.side.pending))
  | freeTable {scope dropped} :
      Step pick s (.removal scope (.emptied dropped)) (.removal scope (.returned dropped))
        { s with tableHeld := false }
  | publish {id key stage stage' s'} : stage.next? id key s = some (stage', s') →
      Step pick s (.publication id key stage) (.publication id key stage') s'

theorem CycleStage.next?_step {id : DictionaryId} {policy : FailurePolicy} {pick : Nat}
    {s s' : Shared} {stage stage' : CycleStage} (h : stage.next? id policy s = some (stage', s')) :
    Call.Step pick s (.cycle id policy stage) (.cycle id policy stage') s' := by
  cases stage with
  | called =>
    simp only [next?] at h
    split at h
    · contradiction
    · next htable =>
      cases h
      exact .lookUp (by simpa using htable)
  | waiting lock =>
    simp only [next?] at h
    split at h
    · contradiction
    · next hheld =>
      cases h
      exact .acquire (by simpa using hheld)
  | inside lock work =>
    cases hwork : work.next? id policy s.side with
    | none =>
      cases work with
      | done result =>
        cases h
        exact .release
      | _ => simp [next?, hwork] at h
    | some out =>
      cases work with
      | done result => simp [Work.next?] at hwork
      | _ =>
        simp only [next?, hwork, Option.pure_def, Option.bind_eq_bind, Option.bind_some] at h
        cases h
        exact .work hwork
  | returned result => contradiction

theorem RemovalStage.next?_step {scope : Scope} {pick : Nat} {s s' : Shared}
    {stage stage' : RemovalStage} (h : stage.next? scope pick s = some (stage', s')) :
    Call.Step pick s (.removal scope stage) (.removal scope stage') s' := by
  cases stage with
  | called =>
    simp only [next?] at h
    split at h
    · contradiction
    · next htable =>
      cases h
      exact .takeTable (by simpa using htable)
  | atTable =>
    cases h
    exact .takeLocks
  | waiting locks =>
    cases locks with
    | nil =>
      cases h
      exact .empty
    | cons entry rest =>
      simp only [next?, Option.pure_def, Option.bind_eq_bind, Option.bind_eq_some_iff] at h
      obtain ⟨found, hfound, h⟩ := h
      split at h
      · contradiction
      · next hheld =>
        cases h
        exact .pass hfound (by simpa using hheld)
  | emptied dropped =>
    cases h
    exact .freeTable
  | returned dropped => contradiction

theorem Call.next?_step {pick : Nat} {s s' : Shared} {c c' : Call}
    (h : c.next? pick s = some (c', s')) : Call.Step pick s c c' s' := by
  cases c with
  | cycle id policy stage =>
    obtain ⟨out, hout, heq⟩ := Option.map_eq_some_iff.1 h
    cases heq
    exact CycleStage.next?_step hout
  | removal scope stage =>
    obtain ⟨out, hout, heq⟩ := Option.map_eq_some_iff.1 h
    cases heq
    exact RemovalStage.next?_step hout
  | publication id key stage =>
    obtain ⟨out, hout, heq⟩ := Option.map_eq_some_iff.1 h
    cases heq
    exact .publish hout

namespace World

inductive Step : World → Move → World → Prop
  | enqueue {w id updates} : Step w (.enqueue id updates) (w.enqueue id updates)
  | start {w c} : c.isNew = true → Step w (.start c) { w with calls := w.calls ++ [c] }
  | call {s s' before after enqueued saved c c' pick} : Call.Step pick s c c' s' →
      Step ⟨s, before ++ c :: after, enqueued, saved⟩ (.advance before.length pick)
        ⟨s', before ++ c' :: after, enqueued, saved ++ c'.justSaved⟩

theorem next?_step {w w' : World} {m : Move} (h : w.next? m = some w') : Step w m w' := by
  cases m with
  | enqueue id updates =>
    cases h
    exact .enqueue
  | start c =>
    simp only [next?] at h
    split at h
    · next hnew =>
      cases h
      exact .start hnew
    · contradiction
  | advance i pick =>
    simp only [next?, Option.pure_def, Option.bind_eq_bind, Option.bind_eq_some_iff] at h
    obtain ⟨c, hc, ⟨c', s'⟩, hnext, hw⟩ := h
    obtain ⟨before, after, hcalls, rfl, hset⟩ := exists_around_of_set hc c'
    obtain ⟨s, calls, enqueued, saved⟩ := w
    dsimp only at hcalls hset hnext hw
    subst hcalls
    rw [hset] at hw
    cases hw
    exact .call (Call.next?_step hnext)

/-- What every allowed step keeps still holds after a run. -/
theorem play?_keeps {allowed : World → Move → Bool} {P : World → Prop}
    (hstep : ∀ {w w' : World} {m : Move}, allowed w m = true → Step w m w' → P w → P w')
    {moves : List Move} {w w' : World} (hrun : w.play? allowed moves = some w') (hw : P w) :
    P w' :=
  Schedule.play?_keeps (fun hm hnext hw => hstep hm (next?_step hnext) hw) hrun hw

end World

end AuthDict
