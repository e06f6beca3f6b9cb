import AuthDict.Error

/-!
# Storage backends

A backend keeps the stored elements of every dictionary, one for each key, and one trie for each
dictionary. Its calls may be down: an `Outage` tells for each call, by its number, whether it
fails, and a call that fails changes nothing else.
-/
namespace AuthDict

/-- What an element is filed under. -/
structure ElementKey where
  owner : DictionaryId
  key : Bytes
deriving DecidableEq, Repr

namespace ElementKey

instance : Ord ElementKey where
  compare := compareLex (compareOn owner) (compareOn key)

instance : Std.TransOrd ElementKey :=
  inferInstanceAs (Std.TransCmp (compareLex (compareOn owner) (compareOn key)))

instance : Std.LawfulEqOrd ElementKey where
  compare_self := Std.ReflOrd.compare_self
  eq_of_compare {a b} h := by
    have h' : (compare a.owner b.owner).then (compare a.key b.key) = .eq := h
    rw [Ordering.then_eq_eq] at h'
    cases a; cases b
    simp_all

end ElementKey

/-- Which calls of one kind fail, by number, and how many have been made. -/
structure Outage where
  down : Nat → Bool := fun _ => false
  calls : Nat := 0

namespace Outage

/-- Whether the next call fails, and the calls after it. -/
def next (o : Outage) : Bool × Outage := (o.down o.calls, { o with calls := o.calls + 1 })

/-- Every call fails after as many more have passed. -/
def after (o : Outage) (passed : Nat) : Outage :=
  { o with down := fun call => o.calls + passed ≤ call }

/-- No further call fails. -/
def ended (o : Outage) : Outage := { o with down := fun _ => false }

end Outage

structure Storage where
  elements : OrderedMap ElementKey StoredElement := ∅
  tries : OrderedMap DictionaryId Trie := ∅
  trieLoads : Outage := {}
  trieSaves : Outage := {}
  elementLoads : Outage := {}
  elementSaves : Outage := {}

namespace Storage

instance : Inhabited Storage := ⟨{}⟩

/-- The name of the backend in messages. -/
def name : String := "memory"

def setOutage (s : Storage) (call : StorageCall) (f : Outage → Outage) : Storage :=
  match call with
  | .loadTrie => { s with trieLoads := f s.trieLoads }
  | .saveTrie => { s with trieSaves := f s.trieSaves }
  | .loadElement => { s with elementLoads := f s.elementLoads }
  | .saveElement => { s with elementSaves := f s.elementSaves }

def loadTrie (id : DictionaryId) : Action Storage (Option Trie) := fun s =>
  let (down, trieLoads) := s.trieLoads.next
  let s := { s with trieLoads }
  if down then (.error (.storage (.unavailable .loadTrie)), s) else (.ok (s.tries.get? id), s)

def saveTrie (id : DictionaryId) (trie : Trie) : Action Storage Unit := fun s =>
  let (down, trieSaves) := s.trieSaves.next
  let s := { s with trieSaves }
  if down then (.error (.storage (.trieWriteRejected id)), s)
  else (.ok (), { s with tries := s.tries.insert id trie })

def loadElement (id : DictionaryId) (key : Bytes) : Action Storage (Option StoredElement) := fun s =>
  let (down, elementLoads) := s.elementLoads.next
  let s := { s with elementLoads }
  if down then (.error (.storage (.unavailable .loadElement)), s)
  else (.ok (s.elements.get? ⟨id, key⟩), s)

def saveElement (id : DictionaryId) (key : Bytes) (element : StoredElement) :
    Action Storage Unit := fun s =>
  let (down, elementSaves) := s.elementSaves.next
  let s := { s with elementSaves }
  if down then (.error (.storage (.unavailable .saveElement)), s)
  else (.ok (), { s with elements := s.elements.insert ⟨id, key⟩ element })

def elementCount (s : Storage) (id : DictionaryId) : Nat :=
  s.elements.keys.countP fun k => k.owner = id

/-- The root that a dictionary publishes, read from the backend at each call so that it is never
stale. -/
def loadRoot (id : DictionaryId) : Action Storage Digest := do
  match ← loadTrie id with
  | some trie => return trie.root
  | none => return emptyDigest

def loadEpoch (id : DictionaryId) : Action Storage Epoch := do
  match ← loadTrie id with
  | some trie => return trie.epoch
  | none => return 0

end Storage

/-- The backends a dictionary is given: one to write, and one to read if it is another. -/
structure StorageChoice (σ : Type) where
  write : Option σ := none
  query : Option σ := none

namespace StorageChoice

variable {σ : Type}

def writeStorage (c : StorageChoice σ) : Except Error σ :=
  match c.write with
  | some s => .ok s
  | none => .error (.configuration .noWriteStorage)

def queryStorage (c : StorageChoice σ) : Except Error σ :=
  match c.query with
  | some s => .ok s
  | none => c.writeStorage

/-- A text that shows which backends are given. -/
def shown (c : StorageChoice σ) (name : σ → String) : String :=
  let part (s : Option σ) : String :=
    match s with
    | some s => "Some(\"" ++ name s ++ "\")"
    | none => "None"
  "StorageConfig \x7b write: " ++ part c.write ++ ", query: " ++ part c.query ++ " \x7d"

end StorageChoice

end AuthDict
