import AuthDict.Proofs.Dictionary.Operations
import AuthDict.Proofs.Schedule
import Mathlib.Logic.Function.Basic
import Mathlib.Logic.Relation

/-!
# Writers

Insertions that run at the same time, broken up into atomic steps. An insertion asks the registry
once for the write lock of its dictionary and gives it to its writers, one for an entry and one per
shard for a batch. A writer takes the lock for each entry anew: under it, it loads the element under
the key, and saves the entry if there is none. A writer that fails stops the others of its
insertion. Between the steps, the registry's state of a dictionary may be released, and then the
table has no lock any more and the next insertion is given a new one.

Which calls of the backend fail is up to its outages. A writer that nobody disturbs does with an
entry what `Dictionary.writeEntry` does, and with its share of a batch what `Shards.writeShard` does.
-/
namespace AuthDict.Writing

open Relation (ReflTransGen)

inductive Stage where
  /-- About to take the next entry, if the insertion has not been stopped. -/
  | choosing
  | waiting (e : Entry)
  | holding (e : Entry)
  /-- It has the lock and has found nothing under the key. -/
  | free (e : Entry)
  | leaving (e : Entry) (result : Except Error Update)
  | failing (error : Error)
  | ended (error : Option Error)

structure Writer where
  handle : Dictionary
  /-- The lock that the insertion was given. -/
  lock : Nat
  insertion : Nat
  rest : List Entry
  stage : Stage := .choosing
  written : List (Entry × Update) := []

structure Shared where
  registry : Registry
  storage : Storage
  /-- Which of the minted locks are held. -/
  held : Nat → Bool := fun _ => false
  /-- Which of the insertions have been stopped. -/
  stopped : Nat → Bool := fun _ => false

namespace Shared

def withStorage (s : Shared) (storage : Storage) : Shared := { s with storage }

def setHeld (s : Shared) (lock : Nat) (held : Bool) : Shared :=
  { s with held := Function.update s.held lock held }

def stop (s : Shared) (insertion : Nat) : Shared :=
  { s with stopped := Function.update s.stopped insertion true }

def element? (s : Shared) (id : DictionaryId) (key : Bytes) : Option StoredElement :=
  s.storage.elements.get? ⟨id, key⟩

/-- The lock that the registry has for a dictionary. -/
def lock? (s : Shared) (id : DictionaryId) : Option Nat := s.registry.writeLocks.locks.get? id

theorem element?_withStorage {s : Shared} {storage : Storage} (h : s.storage.Agrees storage) :
    (s.withStorage storage).element? = s.element? := by
  funext id key
  exact congrArg (·.get? ⟨id, key⟩) h.elements

end Shared

namespace Writer

/-- Where a writer goes when an attempt to write has ended. -/
def after (p : Writer) (e : Entry) : Except Error Update → Writer
  | .ok update => { p with stage := .choosing, written := p.written ++ [(e, update)] }
  | .error x => { p with stage := .failing x }

def next? (s : Shared) (p : Writer) : Option (Writer × Shared) :=
  match p.stage with
  | .choosing =>
    match p.rest with
    | [] => some ({ p with stage := .ended none }, s)
    | e :: rest =>
      if s.stopped p.insertion then some ({ p with stage := .ended none }, s)
      else some ({ p with stage := .waiting e, rest }, s)
  | .waiting e =>
    if s.held p.lock then none else some ({ p with stage := .holding e }, s.setHeld p.lock true)
  | .holding e =>
    match Storage.loadElement p.handle.id e.key s.storage with
    | (.ok none, storage) => some ({ p with stage := .free e }, s.withStorage storage)
    | (.ok (some _), storage) =>
      some ({ p with stage := .leaving e (.error (.duplicateKey e.key)) }, s.withStorage storage)
    | (.error x, storage) => some ({ p with stage := .leaving e (.error x) }, s.withStorage storage)
  | .free e =>
    match Storage.saveElement p.handle.id e.key e.element s.storage with
    | (.ok _, storage) =>
      some ({ p with stage := .leaving e (.ok (p.handle.updateOf e)) }, s.withStorage storage)
    | (.error x, storage) => some ({ p with stage := .leaving e (.error x) }, s.withStorage storage)
  | .leaving e result => some (p.after e result, s.setHeld p.lock false)
  | .failing x => some ({ p with stage := .ended (some x) }, s.stop p.insertion)
  | .ended _ => none

/-- Whether the writer may still use the lock that it was given. -/
def knows (p : Writer) : Bool :=
  match p.stage with
  | .failing _ | .ended _ => false
  | _ => true

def isInside (p : Writer) : Bool :=
  match p.stage with
  | .holding _ | .free _ | .leaving .. => true
  | _ => false

def holds (lock : Nat) (p : Writer) : Bool := p.isInside && p.lock = lock

/-- The entries that were written: each attempt has succeeded, or does so with the next step. -/
def accepted (p : Writer) : List Entry :=
  p.written.map (·.1) ++ match p.stage with
    | .leaving e (.ok _) => [e]
    | _ => []

end Writer

structure State where
  shared : Shared
  writers : List Writer := []
  /-- The number of insertions begun so far. -/
  begun : Nat := 0

inductive Move where
  /-- An insertion asks for the lock and starts its writers. -/
  | insert (handle : Dictionary) (shards : List (List Entry))
  | advance (writer : Nat)
  | release (id : DictionaryId)

namespace State

def insert (w : State) (handle : Dictionary) (shards : List (List Entry)) : State :=
  let (lock, registry) := w.shared.registry.writeLock handle.id
  { shared := { w.shared with registry }
    writers := w.writers ++ shards.map fun rest => { handle, lock, insertion := w.begun, rest }
    begun := w.begun + 1 }

def release (w : State) (id : DictionaryId) : State :=
  { w with shared := { w.shared with registry := w.shared.registry.release id } }

def next? (w : State) : Move → Option State
  | .insert handle shards => some (w.insert handle shards)
  | .advance i => do
    let p ← w.writers[i]?
    let (p, shared) ← p.next? w.shared
    return { w with shared, writers := w.writers.set i p }
  | .release id => some (w.release id)

/-- The entries of a dictionary that were written. -/
def accepted (id : DictionaryId) (w : State) : List Entry :=
  (w.writers.filter (·.handle.id = id)).flatMap Writer.accepted

/-- No insertion has begun. -/
structure Quiet (w : State) : Prop where
  writers : w.writers = []
  held : ∀ lock, w.shared.held lock = false

/-- A state with a backend and nothing else. -/
def initial (storage : Storage) : State := { shared := { registry := {}, storage } }

theorem quiet_initial (storage : Storage) : (initial storage).Quiet := ⟨rfl, fun _ => rfl⟩

end State

/-- The steps of a writer, with what is shared before and after. -/
inductive Writer.Step (s : Shared) (p : Writer) : Writer → Shared → Prop
  | finish : p.stage = .choosing → Step s p { p with stage := .ended none } s
  | choose {e rest} : p.stage = .choosing → Step s p { p with stage := .waiting e, rest } s
  | acquire {e} : p.stage = .waiting e → s.held p.lock = false →
      Step s p { p with stage := .holding e } (s.setHeld p.lock true)
  | find {e storage} : p.stage = .holding e → s.element? p.handle.id e.key = none →
      s.storage.Agrees storage → Step s p { p with stage := .free e } (s.withStorage storage)
  | refuse {e x storage} : p.stage = .holding e ∨ p.stage = .free e → s.storage.Agrees storage →
      Step s p { p with stage := .leaving e (.error x) } (s.withStorage storage)
  | save {e storage} : p.stage = .free e →
      storage.elements = s.storage.elements.insert ⟨p.handle.id, e.key⟩ e.element →
      Step s p { p with stage := .leaving e (.ok (p.handle.updateOf e)) } (s.withStorage storage)
  | leave {e result} : p.stage = .leaving e result →
      Step s p (p.after e result) (s.setHeld p.lock false)
  | fail {x} : p.stage = .failing x →
      Step s p { p with stage := .ended (some x) } (s.stop p.insertion)

theorem Writer.next?_step {s s' : Shared} {p p' : Writer} (h : p.next? s = some (p', s')) :
    Step s p p' s' := by
  unfold next? at h
  split at h
  · next hstage =>
    split at h
    · cases h
      exact .finish hstage
    · split at h
      · cases h
        exact .finish hstage
      · cases h
        exact .choose hstage
  · next e hstage =>
    split at h
    · contradiction
    · next hfree =>
      cases h
      exact .acquire hstage (by simpa using hfree)
  · next e hstage =>
    have hagrees := Storage.loadElement_agrees p.handle.id e.key s.storage
    split at h
    · next hload =>
      rw [hload] at hagrees
      cases h
      exact .find hstage (Storage.loadElement_ok hload).symm hagrees
    · next hload =>
      rw [hload] at hagrees
      cases h
      exact .refuse (.inl hstage) hagrees
    · next hload =>
      rw [hload] at hagrees
      cases h
      exact .refuse (.inl hstage) hagrees
  · next e hstage =>
    split at h
    · next hsave =>
      cases h
      exact .save hstage (Storage.saveElement_ok hsave).1
    · next hsave =>
      cases h
      exact .refuse (.inr hstage) (Storage.saveElement_error hsave)
  · next hstage =>
    cases h
    exact .leave hstage
  · next hstage =>
    cases h
    exact .fail hstage
  · contradiction

inductive State.Step : State → Move → State → Prop
  | insert {w handle shards} : Step w (.insert handle shards) (w.insert handle shards)
  | writer {s s' before after begun p p'} : Writer.Step s p p' s' →
      Step ⟨s, before ++ p :: after, begun⟩ (.advance before.length)
        ⟨s', before ++ p' :: after, begun⟩
  | release {w id} : Step w (.release id) (w.release id)

theorem State.next?_step {w w' : State} {m : Move} (h : w.next? m = some w') : Step w m w' := by
  cases m with
  | insert handle shards =>
    cases h
    exact .insert
  | release id =>
    cases h
    exact .release
  | advance i =>
    simp only [next?, Option.pure_def, Option.bind_eq_bind, Option.bind_eq_some_iff] at h
    obtain ⟨p, hp, ⟨p', s'⟩, hnext, hw⟩ := h
    obtain ⟨before, after, hwriters, rfl, hset⟩ := exists_around_of_set hp p'
    obtain ⟨s, writers, begun⟩ := w
    dsimp only at hwriters hset hnext hw
    subst hwriters
    rw [hset] at hw
    cases hw
    exact .writer (Writer.next?_step hnext)

/-- Some steps of one writer. -/
def Writer.Runs : Writer × Shared → Writer × Shared → Prop :=
  ReflTransGen fun a b => a.1.next? a.2 = some b

theorem Shared.setHeld_setHeld_of_free {s : Shared} {lock : Nat} (h : s.held lock = false)
    (storage : Storage) :
    ((s.setHeld lock true).withStorage storage).setHeld lock false = s.withStorage storage := by
  have hheld : Function.update (Function.update s.held lock true) lock false = s.held := by
    rw [Function.update_idem, ← h, Function.update_eq_self]
  simp only [setHeld, withStorage, hheld]

/-- With the lock, an attempt to write goes as `Dictionary.writeEntry` does. -/
theorem Writer.runs_holding {p : Writer} {e : Entry} {s : Shared} {service : Service}
    (hstage : p.stage = .holding e)
    (hstorage : s.storage = service.backends.get p.handle.storage) :
    Runs (p, s) ({ p with stage := .leaving e (p.handle.writeEntry e service).1 },
      s.withStorage ((p.handle.writeEntry e service).2.backends.get p.handle.storage)) := by
  rcases hload : Storage.loadElement p.handle.id e.key (service.backends.get p.handle.storage) with
    ⟨x | found, storage₁⟩
  · have hloaded : Service.onStorage p.handle.storage (Storage.loadElement p.handle.id e.key)
        service = (.error x, { service with
          backends := service.backends.set p.handle.storage storage₁ }) := by
      rw [Service.onStorage_apply, hload]
    rw [Dictionary.writeEntry, Action.bind_error hloaded, Backends.get_set_self]
    refine .single ?_
    simp only [next?, hstage, hstorage, hload]
  · have hloaded : Service.onStorage p.handle.storage (Storage.loadElement p.handle.id e.key)
        service = (.ok found, { service with
          backends := service.backends.set p.handle.storage storage₁ }) := by
      rw [Service.onStorage_apply, hload]
    rw [Dictionary.writeEntry, Action.bind_ok hloaded]
    cases found with
    | some element =>
      refine .single ?_
      simp only [next?, hstage, hstorage, hload, Action.fail, Backends.get_set_self]
    | none =>
      have hfound : p.next? s = some ({ p with stage := .free e }, s.withStorage storage₁) := by
        simp only [next?, hstage, hstorage, hload]
      refine .head hfound (.single ?_)
      dsimp only
      rcases hsave : Storage.saveElement p.handle.id e.key ⟨e.payload, e.randomness⟩ storage₁ with
        ⟨x | u, storage₂⟩
      · rw [Action.bind_error (by rw [Service.onStorage_apply, Backends.get_set_self, hsave])]
        simp only [next?, Shared.withStorage, Entry.element, hsave, Backends.get_set_self]
      · rw [Action.bind_ok (by rw [Service.onStorage_apply, Backends.get_set_self, hsave])]
        simp only [next?, Shared.withStorage, Entry.element, hsave, Backends.get_set_self,
          Action.pure_apply]

/-- A writer that finds its lock free writes an entry as `Dictionary.writeEntry` does, and gives the
lock back. -/
theorem Writer.runs_writeEntry {p : Writer} {e : Entry} {s : Shared} {service : Service}
    (hstage : p.stage = .waiting e) (hfree : s.held p.lock = false)
    (hstorage : s.storage = service.backends.get p.handle.storage) :
    Runs (p, s) (p.after e (p.handle.writeEntry e service).1,
      s.withStorage ((p.handle.writeEntry e service).2.backends.get p.handle.storage)) := by
  have hacquire : p.next? s = some ({ p with stage := .holding e }, s.setHeld p.lock true) := by
    simp [next?, hstage, hfree]
  have hholding : Runs ({ p with stage := .holding e }, s.setHeld p.lock true) _ :=
    runs_holding rfl hstorage
  refine .head hacquire (hholding.tail ?_)
  rw [← Shared.setHeld_setHeld_of_free hfree]
  generalize (p.handle.writeEntry e service).1 = result
  cases result <;> rfl

/-- A writer that nobody disturbs writes its shard as `Shards.writeShard` does. -/
theorem Writer.runs_writeShard {entries : List Entry} {p : Writer} {s : Shared} {service : Service}
    (hstage : p.stage = .choosing) (hrest : p.rest = entries) (hfree : s.held p.lock = false)
    (hgoes : s.stopped p.insertion = false)
    (hstorage : s.storage = service.backends.get p.handle.storage) :
    ∃ p' s', Runs (p, s) (p', s') ∧
      p'.stage = .ended (Shards.writeShard p.handle.writeEntry entries service).1.error ∧
      p'.written.map (·.2) = p.written.map (·.2) ++
        (Shards.writeShard p.handle.writeEntry entries service).1.updates ∧
      s'.storage = (Shards.writeShard p.handle.writeEntry entries service).2.backends.get
        p.handle.storage := by
  induction entries generalizing p s service with
  | nil =>
    have hfinish : p.next? s = some ({ p with stage := .ended none }, s) := by
      simp only [next?, hstage, hrest]
    exact ⟨_, _, .single hfinish, rfl, by simp [Shards.writeShard], hstorage⟩
  | cons e rest ih =>
    have hchoose : p.next? s = some ({ p with stage := .waiting e, rest }, s) := by
      simp [next?, hstage, hrest, hgoes]
    have hwrites : Runs ({ p with stage := .waiting e, rest }, s) _ :=
      runs_writeEntry rfl hfree hstorage
    rcases hwrite : p.handle.writeEntry e service with ⟨x | update, service₁⟩
    · simp only [hwrite] at hwrites
      refine ⟨_, _, .head hchoose (hwrites.tail rfl), ?_, ?_, ?_⟩
      · simp only [Shards.writeShard, hwrite]
      · simp [Shards.writeShard, hwrite, after]
      · simp only [Shards.writeShard, hwrite]
        rfl
    · simp only [hwrite] at hwrites
      obtain ⟨p', s', hruns, hended, hwritten, hleft⟩ := ih
        (p := ({ p with stage := .waiting e, rest } : Writer).after e (.ok update))
        (s := s.withStorage (service₁.backends.get p.handle.storage)) rfl rfl hfree hgoes rfl
      refine ⟨p', s', .head hchoose (hwrites.trans hruns), ?_, ?_, ?_⟩
      · rw [hended]
        simp only [Shards.writeShard, after, hwrite]
      · rw [hwritten]
        simp [Shards.writeShard, after, hwrite]
      · rw [hleft]
        simp only [Shards.writeShard, after, hwrite]

end AuthDict.Writing
