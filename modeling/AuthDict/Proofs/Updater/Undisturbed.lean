import Mathlib.Logic.Relation
import AuthDict.Proofs.Dictionary.Operations
import AuthDict.Proofs.Updater.Interleaving

/-!
# Undisturbed calls

A call whose steps are taken one after the other, with nothing in between, does what the operation
does that it is the interleaved form of: a cycle `WriteSide.runCycle`, a removal
`PendingTable.remove` or `PendingTable.clear`, a publication `Dictionary.published`. The locks are
left as they were found.
-/
namespace AuthDict

open Relation (ReflTransGen)

namespace Shared

theorem setHeld_setHeld_of_free {s : Shared} {lock : Nat} (h : s.held lock = false)
    (w : WriteSide) : ((s.setHeld lock true).withSide w).setHeld lock false = s.withSide w := by
  have hheld : Function.update (Function.update s.held lock true) lock false = s.held := by
    rw [Function.update_idem, ← h, Function.update_eq_self]
  simp only [setHeld, withSide, hheld]

end Shared

/-- Some steps of the work of a cycle. -/
def Work.Runs (id : DictionaryId) (policy : FailurePolicy) :
    Work × WriteSide → Work × WriteSide → Prop :=
  ReflTransGen fun a b => a.1.next? id policy a.2 = some b

/-- Some steps of one call. -/
def Call.Runs : Call × Shared → Call × Shared → Prop :=
  ReflTransGen fun a b => ∃ pick, a.1.next? pick a.2 = some b

/-- From a drained batch on, the work goes on as `applyBatch` ends. -/
theorem Work.runs_drained (id : DictionaryId) (policy : FailurePolicy) (batch : List Update)
    (w : WriteSide) :
    Runs id policy (drained batch, w) (match WriteSide.applyBatch id batch w.storage with
      | (.ok (trie, proofs), storage) => (saved batch trie proofs, { w with storage })
      | (.error e, storage) => (failed batch e, { w with storage })) := by
  rcases hload : Storage.loadTrie id w.storage with ⟨e | stored, storage₁⟩
  · have hstep : next? id policy w (drained batch) =
        some (failed batch e, { w with storage := storage₁ }) := by
      simp only [next?, hload]
    rw [WriteSide.applyBatch, Action.bind_error hload]
    exact .single hstep
  · have hstep : next? id policy w (drained batch) =
        some (loaded batch stored, { w with storage := storage₁ }) := by
      simp only [next?, hload]
    rw [WriteSide.applyBatch, Action.bind_ok hload]
    refine .head hstep (.single ?_)
    rcases hout : (stored.getD {}).applyBatch batch with ⟨trie, proofs⟩
    rcases hsave : Storage.saveTrie id trie storage₁ with ⟨e | u, storage₂⟩
    · simp only [next?, hout, hsave, Action.bind_error hsave]
    · simp only [next?, hout, hsave, Action.bind_ok hsave, Action.pure_apply]

/-- From the lock on, a cycle goes through its work as `runCycle` does. -/
theorem Work.runs_begun (id : DictionaryId) (policy : FailurePolicy) (w : WriteSide) :
    Runs id policy (begun, { w with pending := (w.pending.applyLock id).2 })
      (done (WriteSide.runCycle policy id w).1, (WriteSide.runCycle policy id w).2) := by
  let pending := ((w.pending.applyLock id).2.drain id).2
  let batch := ((w.pending.applyLock id).2.drain id).1
  have hdrain : next? id policy { w with pending := (w.pending.applyLock id).2 } begun =
      some (if batch.isEmpty then done (.ok .idle) else drained batch, { w with pending }) := rfl
  refine .head hdrain ?_
  simp only [WriteSide.runCycle]
  by_cases hempty : batch.isEmpty
  · rw [if_pos hempty, if_pos hempty]
  · rw [if_neg hempty, if_neg hempty]
    have hruns := runs_drained id policy batch { w with pending }
    rcases happly : WriteSide.applyBatch id batch w.storage with ⟨e | ⟨trie, proofs⟩, storage⟩ <;>
      simp only [happly] at hruns
    · exact hruns.tail rfl
    · exact hruns.tail rfl

namespace Call

theorem next?_inside {id : DictionaryId} {policy : FailurePolicy} {lock : Nat} {s : Shared}
    {work work' : Work} {side : WriteSide} (h : work.next? id policy s.side = some (work', side))
    (pick : Nat) :
    (cycle id policy (.inside lock work)).next? pick s =
      some (cycle id policy (.inside lock work'), s.withSide side) := by
  cases work with
  | done result => contradiction
  | _ => simp [next?, CycleStage.next?, h]

theorem runs_inside {id : DictionaryId} {policy : FailurePolicy} {a b : Work × WriteSide}
    (h : Work.Runs id policy a b) (lock : Nat) (s : Shared) :
    Runs (cycle id policy (.inside lock a.1), s.withSide a.2)
      (cycle id policy (.inside lock b.1), s.withSide b.2) := by
  refine ReflTransGen.lift
    (fun a : Work × WriteSide => (cycle id policy (.inside lock a.1), s.withSide a.2)) ?_ a b h
  intro a b hstep
  exact ⟨0, next?_inside hstep 0⟩

/-- A cycle that finds the table and the lock free runs through. -/
theorem runs_cycle {id : DictionaryId} {s : Shared} (policy : FailurePolicy)
    (htable : s.tableHeld = false) (hlock : s.held (s.side.pending.applyLock id).1 = false) :
    Runs (cycle id policy .called, s)
      (cycle id policy (.returned (WriteSide.runCycle policy id s.side).1),
        s.withSide (WriteSide.runCycle policy id s.side).2) := by
  rcases hask : s.side.pending.applyLock id with ⟨lock, pending⟩
  rw [hask] at hlock
  have hcalled : (cycle id policy .called).next? 0 s =
      some (cycle id policy (.waiting lock), s.withPending pending) := by
    simp [next?, CycleStage.next?, htable, hask]
  have hwaiting : (cycle id policy (.waiting lock)).next? 0 (s.withPending pending) =
      some (cycle id policy (.inside lock .begun), (s.withPending pending).setHeld lock true) := by
    have hfree : (s.withPending pending).held lock = false := hlock
    simp [next?, CycleStage.next?, hfree]
  have hwork := runs_inside (Work.runs_begun id policy s.side) lock (s.setHeld lock true)
  rw [hask] at hwork
  refine .head ⟨0, hcalled⟩ (.head ⟨0, hwaiting⟩ (hwork.tail ⟨0, ?_⟩))
  rw [← Shared.setHeld_setHeld_of_free hlock]
  rfl

theorem runs_waiting {scope : Scope} {s : Shared} {locks : List (DictionaryId × Nat)}
    (h : ∀ entry ∈ locks, s.held entry.2 = false) :
    Runs (removal scope (.waiting locks), s) (removal scope (.waiting []), s) := by
  induction locks with
  | nil => exact .refl
  | cons entry locks ih =>
    obtain ⟨hfree, hlocks⟩ := List.forall_mem_cons.1 h
    refine .head ⟨0, ?_⟩ (ih hlocks)
    simp [next?, RemovalStage.next?, hfree]

/-- A removal that finds the table and its locks free runs through. -/
theorem runs_removal {scope : Scope} {s : Shared} (htable : s.tableHeld = false)
    (hlocks : ∀ entry ∈ scope.locks s.side.pending.applyLocks, s.held entry.2 = false) :
    Runs (removal scope .called, s)
      (removal scope (.returned (scope.updates s.side.pending)),
        s.withPending (scope.eraseQueues
          { s.side.pending with applyLocks := scope.eraseLocks s.side.pending.applyLocks })) := by
  obtain ⟨side, held, tableHeld⟩ := s
  obtain rfl : tableHeld = false := htable
  let taken : Shared := ⟨{ side with pending :=
    { side.pending with applyLocks := scope.eraseLocks side.pending.applyLocks } }, held, true⟩
  have hwait : Runs (removal scope (.waiting (scope.locks side.pending.applyLocks)), taken)
      (removal scope (.waiting []), taken) := runs_waiting hlocks
  refine .head ⟨0, rfl⟩ (.head ⟨0, rfl⟩ (hwait.trans (.head ⟨0, rfl⟩ (.single ⟨0, ?_⟩))))
  cases scope <;> rfl

theorem runs_remove {id : DictionaryId} {s : Shared} (htable : s.tableHeld = false)
    (hlock : ∀ lock, s.lock? id = some lock → s.held lock = false) :
    Runs (removal (.only id) .called, s)
      (removal (.only id) (.returned (s.side.pending.remove id).1),
        s.withPending (s.side.pending.remove id).2) := by
  refine runs_removal htable fun entry hentry => ?_
  obtain ⟨lock, hfound, rfl⟩ := List.mem_map.1 hentry
  exact hlock lock (Option.mem_toList.1 hfound)

theorem runs_clear {s : Shared} (htable : s.tableHeld = false)
    (hlocks : ∀ id lock, s.lock? id = some lock → s.held lock = false) :
    ∃ dropped, dropped.length = s.side.pending.clear.1 ∧
      Runs (removal .all .called, s)
        (removal .all (.returned dropped), s.withPending s.side.pending.clear.2) := by
  refine ⟨_, rfl, runs_removal htable fun entry hentry => ?_⟩
  exact hlocks entry.1 entry.2 (OrderedMap.get?_eq_some_iff.2 hentry)

end Call

/-- Root and epoch read in one go are those that `Dictionary.published` returns. -/
theorem Dictionary.runs_publication {d : Dictionary} {service : Service} {s : Shared}
    (h : s.side.storage = service.backends.get d.storage) :
    Call.Runs (.publication d.id d.publicKey .called, s)
      (.publication d.id d.publicKey (.returned (d.published service).1),
        s.withStorage ((d.published service).2.backends.get d.storage)) := by
  rcases hroot : Storage.loadRoot d.id (service.backends.get d.storage) with ⟨e | root, storage₁⟩
  · have hrootRead : Service.onStorage d.storage (Storage.loadRoot d.id) service =
        (.error e, { service with backends := service.backends.set d.storage storage₁ }) := by
      rw [Service.onStorage_apply, hroot]
    rw [published, Action.bind_error hrootRead]
    refine .single ⟨0, ?_⟩
    simp [Call.next?, PublicationStage.next?, h, hroot, Backends.get_set_self]
  · have hrootRead : Service.onStorage d.storage (Storage.loadRoot d.id) service =
        (.ok root, { service with backends := service.backends.set d.storage storage₁ }) := by
      rw [Service.onStorage_apply, hroot]
    have hstep : (Call.publication d.id d.publicKey .called).next? 0 s =
        some (.publication d.id d.publicKey (.rootRead root), s.withStorage storage₁) := by
      simp [Call.next?, PublicationStage.next?, h, hroot]
    rw [published, Action.bind_ok hrootRead]
    refine .head ⟨0, hstep⟩ (.single ⟨0, ?_⟩)
    rcases hepoch : Storage.loadEpoch d.id storage₁ with ⟨e | epoch, storage₂⟩
    · rw [Action.bind_error (by rw [Service.onStorage_apply, Backends.get_set_self, hepoch])]
      simp [Call.next?, PublicationStage.next?, Shared.withStorage, hepoch, Backends.get_set_self]
    · rw [Action.bind_ok (by rw [Service.onStorage_apply, Backends.get_set_self, hepoch])]
      simp [Call.next?, PublicationStage.next?, Shared.withStorage, hepoch, Backends.get_set_self]

end AuthDict
