import AuthDict.Snapshot

/-!
# Errors

Why an operation of the dictionary fails, the wording of each cause, and actions: operations on a
state that may fail part of the way and keep what they have done so far.
-/
namespace AuthDict

inductive SetupFault where
  | config (fault : ConfigFault)
  | noWriteStorage
  | registryShutDown
  | noCommitInterval
  | zeroCommitInterval
  /-- Background cycles need something that runs them. -/
  | noRuntime
  | querierCount (count : Nat)
deriving DecidableEq, Repr

inductive StorageCall where
  | loadTrie
  | saveTrie
  | loadElement
  | saveElement
deriving DecidableEq, Repr

def StorageCall.name : StorageCall → String
  | loadTrie => "load_trie"
  | saveTrie => "save_trie"
  | loadElement => "load_element"
  | saveElement => "save_element"

inductive StorageFault where
  | trieWriteRejected (id : DictionaryId)
  | unavailable (call : StorageCall)
deriving DecidableEq, Repr

inductive FileFault where
  | notFound
  | isDirectory
  | notDirectory
  | nameTooLong
  | noSpace
  | outOfMemory
  | notText
  /-- Any other fault, in the words of the system. -/
  | other (message : String)
deriving DecidableEq, Repr

inductive Error where
  | configuration (fault : SetupFault)
  | duplicateKey (key : Bytes)
  /-- A label is in a trie, and its key has no element. -/
  | missingElement (label : Label) (id : DictionaryId)
  | snapshot (fault : SnapshotFault)
  /-- A querier could not read its trie from a backend. -/
  | lookup (querier : Nat) (id : DictionaryId) (backend : String) (cause : StorageFault)
  | storage (fault : StorageFault)
  | binary (fault : Binary.Fault)
  | json
  | file (fault : FileFault)
  /-- A background task could not set its first deadline. -/
  | lostTask (task : Nat)
deriving DecidableEq, Repr

def ConfigFault.message : ConfigFault → String
  | noThreads => "thread_count must be at least 1"
  | poolSize size =>
    "querier_pool_size must be in 1..=" ++ toString maxPoolSize ++ ", got " ++ toString size.toNat
  | zeroInterval => "commit_interval must be non-zero"

def SetupFault.message : SetupFault → String
  | config fault => fault.message
  | noWriteStorage => "write storage handle is required"
  | registryShutDown => "registry has been shut down"
  | noCommitInterval => "scheduler needs a commit interval"
  | zeroCommitInterval => "commit interval must be non-zero"
  | noRuntime => "scheduler needs a tokio runtime"
  | querierCount count =>
    "querier pool size must be in 1..=" ++ toString maxPoolSize ++ ", got " ++ toString count

def StorageFault.message : StorageFault → String
  | trieWriteRejected id => "trie write rejected for " ++ id.hex
  | unavailable call => "injected " ++ call.name ++ " failure"

def FileFault.message : FileFault → String
  | notFound => "No such file or directory (os error 2)"
  | isDirectory => "Is a directory (os error 21)"
  | notDirectory => "Not a directory (os error 20)"
  | nameTooLong => "File name too long (os error 36)"
  | noSpace => "No space left on device (os error 28)"
  | outOfMemory => "out of memory"
  | notText => "stream did not contain valid UTF-8"
  | other text => text

namespace Error

/-- A storage fault as an error of its own. -/
def storageMessage (fault : StorageFault) : String := "Storage error: " ++ fault.message

def message : Error → String
  | configuration fault => "Configuration error: " ++ fault.message
  | duplicateKey key => "Duplicate key: 0x" ++ Hex.encode key
  | missingElement label id =>
    "Inconsistent state: label " ++ label.hex ++ " is in the trie of " ++ id.hex
      ++ " but its key has no stored element"
  | snapshot fault => "Snapshot error: " ++ fault.message
  | lookup querier id backend cause =>
    "Lookup error: querier " ++ toString querier ++ " could not read the trie of " ++ id.hex
      ++ " from " ++ backend ++ ": " ++ storageMessage cause
  | storage fault => storageMessage fault
  | binary fault => "Bincode error: " ++ fault.message
  | json => "JSON error"
  | file fault => "IO error: " ++ fault.message
  | lostTask task =>
    "Worker failed: task " ++ toString task
      ++ " panicked with message \"overflow when adding duration to instant\""

/-- The wording of the error beneath, for errors that pass on another. -/
def cause? : Error → Option String
  | snapshot fault => some fault.message
  | binary fault => some fault.message
  | file fault => some fault.message
  | _ => none

end Error

/-- An operation on a state. A failure keeps the state it was reached in. -/
def Action (σ α : Type) : Type := σ → Except Error α × σ

namespace Action

variable {σ τ α β : Type}

instance : Monad (Action σ) where
  pure a := fun s => (.ok a, s)
  bind x f := fun s =>
    match x s with
    | (.ok a, s') => f a s'
    | (.error e, s') => (.error e, s')

def fail (e : Error) : Action σ α := fun s => (.error e, s)

/-- An operation that cannot fail. -/
def total (f : σ → α × σ) : Action σ α := fun s =>
  let (a, s') := f s
  (.ok a, s')

def read (f : σ → α) : Action σ α := fun s => (.ok (f s), s)

def update (f : σ → σ) : Action σ Unit := fun s => (.ok (), f s)

/-- An operation on a part of the state. -/
def within (get : σ → τ) (set : τ → σ → σ) (x : Action τ α) : Action σ α := fun s =>
  let (r, t) := x (get s)
  (r, set t s)

/-- The outcome of an operation as a value. -/
def attempt (x : Action σ α) : Action σ (Except Error α) := fun s =>
  let (r, s') := x s
  (.ok r, s')

def lift (r : Except Error α) : Action σ α := fun s => (r, s)

end Action

end AuthDict
