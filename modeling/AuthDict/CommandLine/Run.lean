import AuthDict.CommandLine.Arguments
import AuthDict.Config.File
import AuthDict.Entropy

/-!
# The command line program

The program runs a dictionary in memory: it inserts generated entries, commits them, queries two
keys and checks the answers, and may save a snapshot. With `--load` it shows the identity of a saved
dictionary instead. What it needs of its surroundings is a `Host`: files and a clock.
-/
namespace AuthDict.CommandLine

class Host (m : Type → Type) where
  readFile : String → m (Except FileFault Bytes)
  writeFile : String → Bytes → m (Except FileFault Unit)
  now : m Nat

/-- Why the program stopped: a message, and the message beneath it if there is one. -/
structure Failure where
  message : String
  cause : Option String := none
deriving DecidableEq, Repr

def Failure.ofError (e : Error) : Failure := ⟨e.message, e.cause?⟩

def Failure.text (f : Failure) : String :=
  "Error: " ++ f.message ++
    match f.cause with
    | some cause => "\n\nCaused by:\n    " ++ cause
    | none => ""

inductive Halt where
  | failure (f : Failure)
  /-- Room was asked for whose bytes cannot be counted. -/
  | sizeOverflow
  /-- More room was asked for than there is. -/
  | outOfMemory
deriving DecidableEq, Repr

structure Report where
  /-- A program that lacks memory is stopped without a code. -/
  exitCode : Option UInt32
  stdout : List String := []
  stderr : Option String := none
deriving DecidableEq, Repr

variable {m : Type → Type} [Monad m] [Host m]

/-- A part of a run: it prints lines, collected in reverse, and may stop the program. -/
abbrev Script (m : Type → Type) (α : Type) := ExceptT Halt (StateT (List String) m) α

namespace Script

def print (line : String) : Script m Unit := modify (line :: ·)

def host {α : Type} (x : m α) : Script m α := ExceptT.lift (StateT.lift x)

def fail {α : Type} (f : Failure) : Script m α := throw (.failure f)

/-- Asks for room. The bytes are counted in a signed 64-bit number, and a tebibyte is more than there
is. -/
def makeRoom (bytes : Nat) : Script m Unit :=
  if 1 <<< 63 ≤ bytes then throw .sizeOverflow
  else if 1 <<< 40 ≤ bytes then throw .outOfMemory
  else pure ()

/-- Hands on a result whose error stops the program. -/
def orStop {α : Type} : Except Error α → Script m α
  | .ok a => pure a
  | .error e => fail (.ofError e)

/-- Runs an operation on a state, whose error stops the program. -/
def perform {σ α : Type} (x : Action σ α) (s : σ) : Script m (α × σ) :=
  match x s with
  | (.ok a, s) => pure (a, s)
  | (.error e, _) => fail (.ofError e)

end Script

open Script

/-- The registry and the backend of the program. -/
def registry : RegistryRef := 0

def storage : StorageRef := 0

/-- Builds a dictionary in memory. Once it stands, room is made for its label cache. -/
def buildWith (plan : Blueprint) (draws : Draws) : Script m (Dictionary × Service) := do
  let (d, s) ← perform ({ plan with storage := { write := some storage } }.build draws true) {}
  makeRoom (LabelCache.tableSize d.cache.capacity)
  return (d, s)

/-- Restores a saved dictionary and prints what identifies it. -/
def showSaved (path : String) (draws : Draws) : Script m Unit := do
  match ← host (Host.readFile path) with
  | .error fault => fail ⟨"reading " ++ path, some fault.message⟩
  | .ok bytes =>
    match Blueprint.ofSnapshot registry bytes with
    | .error fault => fail (.ofError (.snapshot fault))
    | .ok plan =>
      let (d, _) ← buildWith plan draws
      print ("id:           " ++ d.id.hex)
      print ("label scheme: " ++ d.config.labelScheme.name)
      print ("config hash:  " ++ d.config.fingerprint)
      match d.publicKey with
      | some pk => print ("public key:   0x" ++ pk.hex)
      | none => pure ()

def loadConfig (path : String) : Script m Config := do
  match ← host (Host.readFile path) with
  | .error fault => fail (.ofError (.file fault))
  | .ok bytes => orStop (Config.ofFile bytes)

/-- The configuration with the options that replace its fields. -/
def Options.apply (o : Options) (c : Config) : Config :=
  { c with
    threadCount := o.threads.getD c.threadCount
    querierPoolSize := o.queriers.getD c.querierPoolSize
    labelScheme := if o.verifiable then .verifiable else c.labelScheme
    commitInterval := (o.commitIntervalMs.map fun ms => some (Duration.ofMillis ms)).getD
      c.commitInterval }

/-- The bytes of an entry, apart from those of its two texts. -/
def entrySize : Nat := 48

/-- The generated entries: `key-0` with `value-0`, and so on. -/
def generated (count : Nat) : List (Bytes × Bytes) :=
  (List.range count).map fun i =>
    (Utf8.encode ("key-" ++ toString i).toList, Utf8.encode ("value-" ++ toString i).toList)

/-- A text filled up with blanks to eight characters. -/
def padded (text : String) : String := text ++ String.ofList (List.replicate (8 - text.length) ' ')

def answerLine (key : String) (a : Answer) (verified : Bool) : String :=
  let payload := match a.payload? with
    | some bytes =>
      "Some(\"" ++ (match Utf8.decode bytes with | .ok cs => String.ofList cs | .error _ => "") ++ "\")"
    | none => "None"
  "[OK] " ++ padded key ++ " member=" ++ toString a.isMember ++ " verified=" ++ toString verified
    ++ " payload=" ++ payload

/-- Queries a key and prints the answer and whether it holds. -/
def ask (published : PublishedState) (key : String) (pick : UInt8) (d : Dictionary × Service) :
    Script m (Dictionary × Service) := do
  let bytes := Utf8.encode key.toList
  let (a, d) ← perform (Dictionary.query bytes pick) d
  let verified := a.verify bytes published.root published.publicKey d.1.config.commitmentScheme
  print (answerLine key a verified)
  return d

def saveTo (path : String) (d : Dictionary) : Script m Unit := do
  let bytes := d.save
  match ← host (Host.writeFile path bytes) with
  | .error fault => fail ⟨"writing " ++ path, some fault.message⟩
  | .ok () =>
    print ("[OK] Saved snapshot (" ++ toString bytes.length ++ " bytes) to " ++ path)

/-- Inserts, commits, queries, saves and shuts down. -/
def demonstrate (o : Options) (entropy : Entropy) : Script m Unit := do
  let config ← match o.config with
    | some path => loadConfig path
    | none => pure {}
  let (draws, entropy) := entropy.draws
  let (d, s) ← buildWith { config := o.apply config, registry } draws
  let count := (o.entries.getD defaultEntries).toNat
  makeRoom (entrySize * count)
  let (entries, entropy) := entropy.entries (generated count)
  let start ← host Host.now
  let (written, s) ← perform (d.insertBatch entries) s
  let stop ← host Host.now
  print ("[OK] Inserted " ++ toString written ++ " entries in " ++ toString (stop - start) ++ "ms")
  let (_, s) ← match d.config.commitInterval with
    | some period => perform (Scheduler.elapse period) s
    | none => pure ((), s)
  let (_, s) ← perform d.apply s
  let (_, (d, s)) ← perform Dictionary.checkForUpdate (d, s)
  let (published, s) ← perform d.published s
  print ("[OK] Epoch " ++ toString published.epoch.toNat ++ " root 0x" ++ published.root.hex)
  let (first, entropy) := entropy.pick
  let (second, _) := entropy.pick
  let d ← ask published "key-0" first (d, s)
  let (d, s) ← ask published "missing" second d
  match o.save with
  | some path => saveTo path d
  | none => pure ()
  let (_, s) ← perform d.shutDown s
  let (dropped, _) ← perform (Service.shutDownRegistry registry) s
  if 0 < dropped then fail ⟨toString dropped ++ " updates were never applied", none⟩

/-- A run of the program. -/
def run (args : List String) (seed : Seed) : m Report := do
  match parse {} args with
  | .help => return { exitCode := some 0 }
  | .badUsage => return { exitCode := some 2 }
  | .run o =>
    let entropy : Entropy := { seed }
    let script : Script m Unit := match o.load with
      | some path => showSaved path entropy.draws.1
      | none => demonstrate o entropy
    let (outcome, lines) ← (script.run).run []
    match outcome with
    | .ok () => return { exitCode := some 0, stdout := lines.reverse }
    | .error (.failure f) =>
      return { exitCode := some 1, stdout := lines.reverse, stderr := some f.text }
    | .error .sizeOverflow => return { exitCode := some 101, stdout := lines.reverse }
    | .error .outOfMemory => return { exitCode := none, stdout := lines.reverse }

end AuthDict.CommandLine
