import AuthDict.Element

/-!
# Pending updates

The queues of updates that wait for the next commit, one for each dictionary, and the locks that
keep the commits of one dictionary apart. A lock is minted when it is first asked for and stays the
same until it is dropped from the table.
-/
namespace AuthDict

/-- The locks of a table, named by the order in which they were minted. -/
structure LockTable where
  locks : OrderedMap DictionaryId Nat := ∅
  minted : Nat := 0
deriving DecidableEq

namespace LockTable

/-- The lock of a dictionary, minted if there is none. -/
def get (t : LockTable) (id : DictionaryId) : Nat × LockTable :=
  match t.locks.get? id with
  | some lock => (lock, t)
  | none => (t.minted, { locks := t.locks.insert id t.minted, minted := t.minted + 1 })

def erase (t : LockTable) (id : DictionaryId) : LockTable := { t with locks := t.locks.erase id }

def clear (t : LockTable) : LockTable := { t with locks := ∅ }

end LockTable

structure PendingTable where
  queues : OrderedMap DictionaryId (List Update) := ∅
  applyLocks : LockTable := {}
deriving DecidableEq

namespace PendingTable

instance : Inhabited PendingTable := ⟨{}⟩

/-- The updates that wait, in the order in which they will be applied. -/
def queue (t : PendingTable) (id : DictionaryId) : List Update := (t.queues.get? id).getD []

def pendingCount (t : PendingTable) (id : DictionaryId) : Nat := (t.queue id).length

/-- The number of dictionaries with a queue, which may be empty. -/
def dictionaryCount (t : PendingTable) : Nat := t.queues.size

def setQueue (t : PendingTable) (id : DictionaryId) (updates : List Update) : PendingTable :=
  { t with queues := t.queues.insert id updates }

/-- Appends updates to a queue, which is made if there is none. -/
def enqueue (t : PendingTable) (id : DictionaryId) (updates : List Update) : PendingTable :=
  t.setQueue id (t.queue id ++ updates)

/-- Takes all updates and leaves an empty queue. -/
def drain (t : PendingTable) (id : DictionaryId) : List Update × PendingTable :=
  (t.queue id, if t.queues.contains id then t.setQueue id [] else t)

/-- Puts a drained batch back ahead of what has been enqueued since. -/
def requeueFront (t : PendingTable) (id : DictionaryId) (batch : List Update) : PendingTable :=
  if batch.isEmpty then t else t.setQueue id (batch ++ t.queue id)

def applyLock (t : PendingTable) (id : DictionaryId) : Nat × PendingTable :=
  let (lock, applyLocks) := t.applyLocks.get id
  (lock, { t with applyLocks })

def remove (t : PendingTable) (id : DictionaryId) : List Update × PendingTable :=
  (t.queue id, { queues := t.queues.erase id, applyLocks := t.applyLocks.erase id })

/-- Forgets every dictionary and returns how many updates were pending. -/
def clear (t : PendingTable) : Nat × PendingTable :=
  (t.queues.values.flatten.length, { queues := ∅, applyLocks := t.applyLocks.clear })

@[simp] theorem queue_setQueue_self (t : PendingTable) (id : DictionaryId) (us : List Update) :
    (t.setQueue id us).queue id = us := by
  simp [queue, setQueue]

theorem queue_setQueue_of_ne (t : PendingTable) {id id' : DictionaryId} (us : List Update)
    (h : id' ≠ id) : (t.setQueue id us).queue id' = t.queue id' := by
  simp [queue, setQueue, OrderedMap.get?_insert_of_ne _ us h]

end PendingTable

end AuthDict
