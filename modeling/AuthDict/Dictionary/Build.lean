import AuthDict.Dictionary.Basic

/-!
# Building dictionaries

A dictionary is built fresh from a configuration or restored from a snapshot record, with backends
and a registry given anew. Everything is checked before anything is started.
-/
namespace AuthDict

/-- What a new dictionary draws at random. -/
structure Draws where
  /-- The seed of a plain dictionary that was configured without one. -/
  labelSeed : Seed
  /-- The secret of a verifiable dictionary that was configured without a seed. -/
  secret : Seed
  id : DictionaryId
deriving DecidableEq, Repr

/-- What a dictionary is built from. -/
structure Blueprint where
  config : Config
  storage : StorageChoice StorageRef := {}
  registry : RegistryRef
  hook : Option HookRef := none
  /-- The secret and the identifier of a dictionary that is restored. -/
  restored : Option (LabelSecret Ristretto × DictionaryId) := none

namespace Blueprint

/-- The label secret of a snapshot. Whether it holds a secret key has to agree with the label
scheme. -/
def secretOf (config : Config) (key : Option Bytes) :
    Except SnapshotFault (LabelSecret Ristretto) :=
  match config.labelScheme, key with
  | .verifiable, some bytes =>
    match Block.ofBytes? 32 bytes with
    | some secret => .ok (.ofBytes .verifiable secret)
    | none => .error (.secretKeySize bytes.length)
  | .plain, none =>
    match config.labelSeed with
    | some seed => .ok (.ofSeed .plain seed)
    | none => .error .plainWithoutSeed
  | scheme, key => .error (.secretKeyPresence (scheme == .verifiable) key.isSome)

def ofSnapshot (registry : RegistryRef) (data : Bytes) : Except SnapshotFault Blueprint := do
  let snapshot ← Snapshot.ofBytes data
  match Binary.decode snapshot.configBlob with
  | .error fault => .error (.badConfig fault)
  | .ok config =>
    let secret ← secretOf config snapshot.secretKey
    return { config, registry, restored := some (secret, snapshot.id) }

/-- The configuration with a seed, if plain labels need one: they are derived again from it after a
load. -/
def pinSeed (config : Config) (seed : Seed) : Config :=
  if config.labelScheme = .plain ∧ config.labelSeed.isNone then
    { config with labelSeed := some seed }
  else config

/-- The secret of a fresh dictionary. -/
def freshSecret (config : Config) (draws : Draws) : LabelSecret Ristretto :=
  match config.labelSeed with
  | some seed => .ofSeed config.labelScheme seed
  | none => .ofBytes config.labelScheme draws.secret

def identity (b : Blueprint) (draws : Draws) : Config × LabelSecret Ristretto × DictionaryId :=
  match b.restored with
  | some (secret, id) => (b.config, secret, id)
  | none =>
    let config := pinSeed b.config draws.labelSeed
    (config, freshSecret config draws, draws.id)

def routerOf (config : Config) (storage : StorageRef) : Router :=
  if config.querierPoolSize = 1 then .single { storage, mode := config.queryMode }
  else .pooled ⟨storage, config.queryMode, config.querierPoolSize.toNat⟩

/-- The configured checks, and the backends to write and to read. -/
def checked (b : Blueprint) (s : Service) : Except Error (StorageRef × StorageRef) := do
  match b.config.fault? with
  | some fault => .error (.configuration (.config fault))
  | none =>
    let storage ← b.storage.writeStorage
    let queryStorage ← b.storage.queryStorage
    (s.registry b.registry).requireOpen
    return (storage, queryStorage)

/-- Builds the dictionary and starts its background cycles if it has a commit interval. -/
def build (b : Blueprint) (draws : Draws) (hasRuntime : Bool) : Action Service Dictionary := do
  let (storage, queryStorage) ← (fun s => (b.checked s, s) : Action Service _)
  let (config, secret, id) := b.identity draws
  let updater : Updater :=
    { config := config.updater, registry := b.registry, storage, hook := b.hook }
  let scheduler ← match config.commitInterval with
    | some _ => do pure (some (← updater.spawn id (some b.registry) hasRuntime))
    | none => pure none
  return {
    id, config, secret, storage, queryStorage, updater, scheduler
    cache := .empty config.labelCacheSize.toNat
    registry := b.registry
    router := routerOf config queryStorage }

end Blueprint

end AuthDict
