import AuthDict.Answer
import AuthDict.Dictionary.Shards
import AuthDict.Label.Cache
import AuthDict.Service

/-!
# Dictionaries

One logical key-value store whose every answer can be checked against a published root. Inserted
keys are stored at once; queries see them when a cycle has applied them and the queriers have been
refreshed. A key is inserted once and its payload never changes.

All randomness is passed in: the randomness of each commitment, the byte that picks a querier, and
the draws of a new dictionary.
-/
namespace AuthDict

structure Dictionary where
  id : DictionaryId
  config : Config
  secret : LabelSecret Ristretto
  cache : LabelCache
  storage : StorageRef
  /-- The backend that queries read. -/
  queryStorage : StorageRef
  registry : RegistryRef
  router : Router
  updater : Updater
  scheduler : Option SchedulerRef

structure PublishedState where
  root : Digest
  epoch : Epoch
  /-- The key that label proofs are checked with. -/
  publicKey : Option PublicKey
deriving DecidableEq, Repr

/-- An entry to insert, with the randomness of its commitment. -/
structure Entry where
  key : Bytes
  payload : Bytes
  randomness : Randomness
deriving DecidableEq, Repr

namespace Dictionary

open Service

def updateOf (d : Dictionary) (e : Entry) : Update :=
  ⟨d.secret.label e.key, d.config.commitmentScheme.commit e.payload e.randomness⟩

/-- Stores an entry unless its key is stored already. -/
def writeEntry (d : Dictionary) (e : Entry) : Action Service Update := do
  match ← onStorage d.storage (Storage.loadElement d.id e.key) with
  | some _ => Action.fail (.duplicateKey e.key)
  | none =>
    onStorage d.storage (Storage.saveElement d.id e.key ⟨e.payload, e.randomness⟩)
    return d.updateOf e

/-- Asks for the lock under which the dictionary's elements are written. -/
def takeWriteLock (d : Dictionary) : Action Service Nat :=
  onRegistry d.registry (·.writeLock d.id)

def insert (d : Dictionary) (e : Entry) : Action Service Unit := do
  let _ ← d.takeWriteLock
  let update ← d.writeEntry e
  d.updater.enqueue d.id [update]

/-- Inserts entries in shards. Those written before a failure stay inserted and are queued. -/
def insertBatch (d : Dictionary) (entries : List Entry) : Action Service Nat := do
  let _ ← d.takeWriteLock
  let shards := if entries.isEmpty then [] else Shards.split entries d.config.threadCount.toNat
  let outcome ← Action.total (Shards.writeAll d.writeEntry shards)
  d.updater.enqueue d.id outcome.updates
  match outcome.error with
  | some e => Action.fail e
  | none => return outcome.updates.length

/-- Derives the label of a key through the cache. -/
def deriveLabel (key : Bytes) : Action (Dictionary × Service) DerivedLabel :=
  Action.total fun (d, s) =>
    let (derived, cache) := d.cache.derive d.secret key
    (derived, ({ d with cache }, s))

def deriveLabels : List Bytes → Action (Dictionary × Service) (List DerivedLabel)
  | [] => pure []
  | key :: rest => do return (← deriveLabel key) :: (← deriveLabels rest)

def onRouter {α : Type} (x : DictionaryId → Action (Router × ReadSide) α) :
    Action (Dictionary × Service) α := fun (d, s) =>
  let (a, (router, s)) := Service.onRouter d.registry (x d.id) (d.router, s)
  (a, ({ d with router }, s))

def onService {α : Type} (x : Dictionary → Action Service α) : Action (Dictionary × Service) α :=
  fun (d, s) =>
    let (a, s) := x d s
    (a, (d, s))

/-- The answer that a path leads to. A member's payload is read from the query backend. -/
def resolve (key : Bytes) (path : LookupPath) (proof : Option LabelProof) (d : Dictionary) :
    Action Service Answer := do
  if path.isMember then
    match ← onStorage d.queryStorage (Storage.loadElement d.id key) with
    | some element => return .member element.payload element.randomness path proof
    | none => Action.fail (.missingElement path.label d.id)
  else return .absent path proof

/-- Resolves keys in order up to the first failure. -/
def resolveAll (d : Dictionary) :
    List Bytes → List DerivedLabel → List LookupPath → Action Service (List Answer)
  | key :: keys, derived :: rest, path :: paths => do
    return (← resolve key path derived.proof d) :: (← resolveAll d keys rest paths)
  | _, _, _ => pure []

/-- Looks up one key. The byte picks the querier. -/
def query (key : Bytes) (pick : UInt8) : Action (Dictionary × Service) Answer := do
  let derived ← deriveLabel key
  let path ← onRouter (Router.lookup · derived.label pick)
  onService (resolve key path derived.proof)

/-- Looks up several keys in one trie. -/
def queryMany (keys : List Bytes) (pick : UInt8) : Action (Dictionary × Service) (List Answer) := do
  let derived ← deriveLabels keys
  let paths ← onRouter (Router.lookupMany · (derived.map (·.label)) pick)
  onService fun d => resolveAll d keys derived paths

/-- Refreshes every querier of the dictionary. -/
def checkForUpdate : Action (Dictionary × Service) Unit := onRouter Router.checkForUpdate

def publicKey (d : Dictionary) : Option PublicKey := d.secret.publicKey

def epoch (d : Dictionary) : Action Service Epoch := onStorage d.storage (Storage.loadEpoch d.id)

/-- Root and epoch, which are read one after the other. -/
def published (d : Dictionary) : Action Service PublishedState := do
  let root ← onStorage d.storage (Storage.loadRoot d.id)
  let epoch ← onStorage d.storage (Storage.loadEpoch d.id)
  return ⟨root, epoch, d.publicKey⟩

def apply (d : Dictionary) : Action Service ApplyOutcome := d.updater.apply d.id

def pendingCount (d : Dictionary) (s : Service) : Nat := d.updater.pendingCount d.id s

def save (d : Dictionary) : Bytes :=
  Snapshot.toBytes
    { configBlob := Binary.encode d.config
      secretKey := d.secret.secretKey.map (·.bytes)
      id := d.id }

/-- Stops the background cycles, which ends with a last one. -/
def stopScheduler (d : Dictionary) : Action Service Unit :=
  match d.scheduler with
  | some task => Scheduler.stop task
  | none => pure ()

/-- The background task of the dictionary, if it was lost. -/
def lostTask? (d : Dictionary) (s : Service) : Option SchedulerRef :=
  d.scheduler.filter fun task => s.lost.contains task

/-- Stops the background cycles, applies what is pending and forgets the dictionary's state in the
registry. If the background task was lost or the updates cannot be applied, the error is returned
and the state stays, for a dictionary loaded later. -/
def shutDown (d : Dictionary) : Action Service Unit := do
  d.stopScheduler
  if let some task := ← Action.read d.lostTask? then Action.fail (.lostTask task)
  if 0 < (← Action.read d.pendingCount) then
    let _ ← d.apply
  onRegistry d.registry fun r => ((), r.release d.id)

end Dictionary

end AuthDict
