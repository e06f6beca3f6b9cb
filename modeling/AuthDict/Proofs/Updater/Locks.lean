import AuthDict.Proofs.Updater.Effects
import Mathlib.Data.List.Basic

/-!
# What calls know and hold

A cycle knows the lock of its dictionary from the moment it has asked for it, and it holds the lock
while it is inside. A removal holds the table, and it knows the locks that it has taken out of it
until it finds them free. For a given dictionary, what a step does to this knowledge is one of four
things, the constructors of `Call.LockEffect`.
-/
namespace AuthDict

namespace LockTable

variable (t : LockTable) {id id' : DictionaryId}

theorem locks_get (id : DictionaryId) : (t.get id).2.locks.get? id = some (t.get id).1 := by
  unfold get
  split
  · assumption
  · exact OrderedMap.get?_insert_self ..

theorem locks_get_of_ne (h : id' ≠ id) : (t.get id).2.locks.get? id' = t.locks.get? id' := by
  unfold get
  split
  · rfl
  · exact OrderedMap.get?_insert_of_ne _ _ h

theorem get_of_locks {t : LockTable} {lock : Nat} (h : t.locks.get? id = some lock) :
    (t.get id).1 = lock := by
  simp only [get, h]

end LockTable

namespace Scope

variable {x : Scope} {t : LockTable} {id : DictionaryId}

theorem mem_locks {lock : Nat} :
    (id, lock) ∈ x.locks t ↔ x.Covers id ∧ t.locks.get? id = some lock := by
  cases x with
  | only id' =>
    simp only [locks, List.mem_map, Option.mem_toList, Prod.mk.injEq, Covers]
    constructor
    · rintro ⟨_, hlock, rfl, rfl⟩
      exact ⟨rfl, hlock⟩
    · rintro ⟨rfl, hlock⟩
      exact ⟨lock, hlock, rfl, rfl⟩
  | all => simp [locks, Covers, OrderedMap.get?_eq_some_iff]

theorem locks_eraseLocks (h : x.Covers id) : (x.eraseLocks t).locks.get? id = none := by
  cases x with
  | only id' =>
    obtain rfl : id = id' := h
    exact OrderedMap.get?_erase_self ..
  | all => exact OrderedMap.get?_empty id

theorem locks_eraseLocks_of_not (h : ¬ x.Covers id) :
    (x.eraseLocks t).locks.get? id = t.locks.get? id := by
  cases x with
  | only id' => exact OrderedMap.get?_erase_of_ne _ h
  | all => exact absurd trivial h

end Scope

namespace Call

/-- The dictionary of a cycle that knows its lock, and the lock. -/
def handle? : Call → Option (DictionaryId × Nat)
  | cycle id _ (.waiting lock) => some (id, lock)
  | cycle id _ (.inside lock _) => some (id, lock)
  | _ => none

def holds (lock : Nat) : Call → Bool
  | cycle _ _ (.inside held _) => held = lock
  | _ => false

def hasTable : Call → Bool
  | removal _ .atTable => true
  | removal _ (.waiting _) => true
  | removal _ (.emptied _) => true
  | _ => false

/-- The locks that a removal has taken out of the table and not found free yet. -/
def removing : Call → List (DictionaryId × Nat)
  | removal _ (.waiting locks) => locks
  | _ => []

/-- The lock that a removal finds free in its next step. -/
def passes? (pick : Nat) (c : Call) : Option (DictionaryId × Nat) := c.removing[pick]?

/-- Whether a cycle of the dictionary has its lock. -/
def isInside (id : DictionaryId) (c : Call) : Bool := (c.work? id).isSome

end Call

namespace Call

variable {pick : Nat} {s s' : Shared} {c c' : Call}

/-- What a step does to the locks of a dictionary. -/
inductive LockEffect (id : DictionaryId) (pick : Nat) (s s' : Shared) (c c' : Call) : Prop
  | same : s'.lock? id = s.lock? id → (∀ l, (id, l) ∈ c'.removing ↔ (id, l) ∈ c.removing) →
      (∀ l, c'.handle? = some (id, l) → c.handle? = some (id, l)) → LockEffect id pick s s' c c'
  /-- A cycle is given the lock in the table, which may have been minted for it. -/
  | asked (lock : Nat) : s.tableHeld = false → (∀ l, s.lock? id = some l → l = lock) →
      s'.lock? id = some lock → c'.removing = [] → c'.handle? = some (id, lock) →
      LockEffect id pick s s' c c'
  /-- A removal takes the lock out of the table. -/
  | taken : s'.lock? id = none → c.removing = [] →
      (∀ l, (id, l) ∈ c'.removing ↔ s.lock? id = some l) → c'.handle? = none →
      LockEffect id pick s s' c c'
  /-- A removal finds the lock free. -/
  | passed (lock : Nat) : s'.lock? id = s.lock? id → c.passes? pick = some (id, lock) →
      (∀ l, (id, l) ∈ c'.removing → (id, l) ∈ c.removing) →
      (∀ l, (id, l) ∈ c.removing → (id, l) ∈ c'.removing ∨ l = lock) → c'.handle? = none →
      LockEffect id pick s s' c c'

theorem mem_eraseIdx_or {α : Type} {xs : List α} {x y : α} {i : Nat} (hy : xs[i]? = some y)
    (hx : x ∈ xs) : x ∈ xs.eraseIdx i ∨ x = y := by
  obtain ⟨j, hj⟩ := List.mem_iff_getElem?.1 hx
  by_cases h : j = i
  · subst h
    exact .inr (Option.some.inj (hj.symm.trans hy))
  · exact .inl (List.mem_eraseIdx_iff_getElem?.2 ⟨j, h, hj⟩)

theorem Step.lockEffect (h : Step pick s c c' s') (id : DictionaryId) :
    LockEffect id pick s s' c c' := by
  cases h with
  | @lookUp id' policy htable =>
    by_cases hid : id' = id
    · subst hid
      refine .asked _ htable (fun l hl => (LockTable.get_of_locks hl).symm)
        (LockTable.locks_get ..) rfl rfl
    · refine .same (LockTable.locks_get_of_ne _ (Ne.symm hid)) (fun _ => .rfl) fun l hl => ?_
      exact absurd (congrArg Prod.fst (Option.some.inj hl)) hid
  | acquire _ => exact .same rfl (fun _ => .rfl) fun _ hl => hl
  | work hwork =>
    have hlocks := (Work.next?_spec hwork).2.applyLocks
    exact .same (congrArg (·.locks.get? id) hlocks) (fun _ => .rfl) fun _ hl => hl
  | release => exact .same rfl (fun _ => .rfl) fun _ hl => absurd hl (by simp [handle?])
  | takeTable _ => exact .same rfl (fun _ => .rfl) fun _ hl => hl
  | @takeLocks scope =>
    by_cases hcovers : scope.Covers id
    · refine .taken (Scope.locks_eraseLocks hcovers) rfl (fun l => ?_) rfl
      exact Scope.mem_locks.trans (and_iff_right hcovers)
    · refine .same (Scope.locks_eraseLocks_of_not hcovers) (fun l => ?_) fun _ hl => hl
      simp [removing, Scope.mem_locks, hcovers]
  | @pass scope locks entry hentry _ =>
    obtain ⟨id', lock⟩ := entry
    by_cases hid : id' = id
    · subst hid
      refine .passed lock rfl hentry (fun l hl => List.mem_of_mem_eraseIdx hl) (fun l hl => ?_) rfl
      exact (mem_eraseIdx_or hentry hl).imp_right fun heq => congrArg Prod.snd heq
    · refine .same rfl (fun l => ⟨fun hl => List.mem_of_mem_eraseIdx hl, fun hl => ?_⟩)
        fun _ hl => hl
      refine (mem_eraseIdx_or hentry hl).resolve_right fun heq => ?_
      exact hid (congrArg Prod.fst heq).symm
  | @empty scope =>
    refine .same ?_ (fun _ => .rfl) fun _ hl => hl
    exact congrArg (·.locks.get? id) (Scope.applyLocks_eraseQueues scope s.side.pending)
  | freeTable => exact .same rfl (fun _ => .rfl) fun _ hl => hl
  | publish hnext =>
    obtain ⟨storage, -, rfl⟩ := PublicationStage.next?_storage hnext
    exact .same rfl (fun _ => .rfl) fun _ hl => hl

theorem Step.holds_balance (h : Step pick s c c' s') {lock : Nat}
    (hheld : c.holds lock = true → s.held lock = true) :
    (c'.holds lock).toNat + (s.held lock).toNat =
      (c.holds lock).toNat + (s'.held lock).toNat := by
  cases h with
  | @acquire _ _ lock' hfree =>
    by_cases hlock : lock = lock'
    · subst hlock
      simp [holds, Shared.setHeld, hfree]
    · simp [holds, Shared.setHeld, Function.update_of_ne hlock, Ne.symm hlock]
  | @release _ _ lock' _ =>
    by_cases hlock : lock = lock'
    · subst hlock
      simp [holds, Shared.setHeld, hheld]
    · simp [holds, Shared.setHeld, Function.update_of_ne hlock, Ne.symm hlock]
  | publish hnext =>
    obtain ⟨storage, -, rfl⟩ := PublicationStage.next?_storage hnext
    rfl
  | _ => rfl

theorem Step.hasTable_balance (h : Step pick s c c' s')
    (htable : c.hasTable = true → s.tableHeld = true) :
    c'.hasTable.toNat + s.tableHeld.toNat = c.hasTable.toNat + s'.tableHeld.toNat := by
  cases h with
  | takeTable hfree => simp [hasTable, hfree]
  | freeTable =>
    have hheld := htable rfl
    simp [hasTable, hheld]
  | publish hnext =>
    obtain ⟨storage, -, rfl⟩ := PublicationStage.next?_storage hnext
    rfl
  | _ => rfl

theorem hasTable_of_mem_removing {entry : DictionaryId × Nat} (h : entry ∈ c.removing) :
    c.hasTable = true := by
  cases c with
  | removal scope stage =>
    cases stage with
    | waiting locks => rfl
    | _ => contradiction
  | _ => contradiction

/-- A call that has not taken a step knows and holds nothing. -/
theorem of_isNew (h : c.isNew = true) :
    (∀ lock, c.holds lock = false) ∧ c.hasTable = false ∧ c.removing = [] ∧ c.handle? = none := by
  obtain ⟨id, policy, rfl⟩ | ⟨scope, rfl⟩ | ⟨id, key, rfl⟩ := isNew_cases h <;>
    exact ⟨fun _ => rfl, rfl, rfl, rfl⟩

theorem work?_of_isNew {id : DictionaryId} (h : c.isNew = true) : c.work? id = none := by
  obtain ⟨id', policy, rfl⟩ | ⟨scope, rfl⟩ | ⟨id', key, rfl⟩ := isNew_cases h <;> rfl

theorem handle?_of_isInside {id : DictionaryId} (h : c.isInside id = true) :
    ∃ lock, c.handle? = some (id, lock) ∧ c.holds lock = true := by
  cases c with
  | cycle id' policy stage =>
    cases stage with
    | inside lock work =>
      obtain rfl : id' = id := by simpa [isInside, work?] using h
      exact ⟨lock, rfl, decide_eq_true rfl⟩
    | _ => contradiction
  | _ => contradiction

end Call

end AuthDict
