import AuthDict.Metrics
import AuthDict.Storage

/-!
# Queriers

A querier answers lookups in the trie of one dictionary. In cached mode it answers from the copy it
loaded last and may lag behind until it is refreshed; in direct mode it reads the backend for each
lookup. A refresh that fails keeps the copy.
-/
namespace AuthDict

/-- The name of a backend within a process. -/
abbrev StorageRef := Nat

/-- The backends of a process. A name that was never used stands for an empty backend. -/
structure Backends where
  table : OrderedMap StorageRef Storage := ∅

namespace Backends

def get (b : Backends) (ref : StorageRef) : Storage := (b.table.get? ref).getD {}

def set (b : Backends) (ref : StorageRef) (s : Storage) : Backends := ⟨b.table.insert ref s⟩

def on {α : Type} (ref : StorageRef) (x : Action Storage α) : Action Backends α :=
  Action.within (·.get ref) (fun s b => b.set ref s) x

@[simp] theorem get_set_self (b : Backends) (ref : StorageRef) (s : Storage) :
    (b.set ref s).get ref = s := by
  simp [get, set]

theorem get_set_of_ne (b : Backends) {ref ref' : StorageRef} (s : Storage) (h : ref' ≠ ref) :
    (b.set ref s).get ref' = b.get ref' := by
  simp [get, set, OrderedMap.get?_insert_of_ne _ s h]

end Backends

structure Querier where
  index : Nat
  id : DictionaryId
  storage : StorageRef
  mode : QueryMode
  /-- The copy that a cached querier answers from. -/
  snapshot : Option Trie := none
  /-- The number of lookup calls, failed ones included. -/
  served : Nat := 0

namespace Querier

/-- The answer of a trie, or of the empty one if there is none. -/
def answer (trie : Option Trie) (label : Label) : LookupPath :=
  match trie with
  | some trie => trie.lookup label
  | none => .empty label

/-- A storage error in the words of a querier. -/
def lookupError (q : Querier) : Error → Error
  | .storage fault => .lookup q.index q.id Storage.name fault
  | e => e

def load (q : Querier) : Action Backends (Option Trie) := fun b =>
  match Backends.on q.storage (Storage.loadTrie q.id) b with
  | (.ok trie, b) => (.ok trie, b)
  | (.error e, b) => (.error (q.lookupError e), b)

/-- The querier after a reload. A direct querier has nothing to reload. -/
def refresh (q : Querier) : Action Backends Querier := do
  match q.mode with
  | .direct => return q
  | .cached => return { q with snapshot := ← q.load }

def create (index : Nat) (id : DictionaryId) (storage : StorageRef) (mode : QueryMode) :
    Action Backends Querier :=
  refresh { index, id, storage, mode }

/-- The trie that a lookup is answered from. -/
def current (q : Querier) : Action Backends (Option Trie) :=
  match q.mode with
  | .cached => pure q.snapshot
  | .direct => q.load

/-- Counts a lookup call and returns the trie that answers it. -/
def serve : Action (Querier × Backends) (Option Trie) := fun (q, b) =>
  let (r, b) := q.current b
  (r, ({ q with served := q.served + 1 }, b))

def lookup (label : Label) : Action (Querier × Backends) LookupPath := do
  return answer (← serve) label

def lookupMany (labels : List Label) : Action (Querier × Backends) (List LookupPath) := do
  return labels.map (answer (← serve))

def epoch (q : Querier) : Action Backends Epoch := do
  match ← q.current with
  | some trie => return trie.epoch
  | none => return 0

end Querier

end AuthDict
