import AuthDict.CommandLine.Path
import AuthDict.CommandLine.Run

/-!
# Directories in memory

A directory of files without subdirectories, as a host for the command line program. It is the
working directory and lies in a system of which the standing directories and a few devices are
known; what is written to other places of the system is not kept. Its clock stands still.

A path is walked step by step, each from a directory. What stands in the way of a step is reported
before anything about the steps behind it.
-/
namespace AuthDict.CommandLine

structure Directory where
  files : List (String × Bytes) := []

/-- A place that exists and holds others. -/
inductive Place where
  | root
  /-- The directory of temporary directories, of which the working directory is one. -/
  | temporary
  | working
  | devices
  /-- Another standing directory beneath the root. -/
  | standing
deriving DecidableEq, Repr

inductive Device where
  | null
  | zero
  /-- A device without room. -/
  | full
deriving DecidableEq, Repr

/-- What a path leads to. -/
inductive Node where
  | directory (place : Place)
  | file (content : Bytes)
  | device (device : Device)
deriving DecidableEq, Repr

namespace Place

def parent : Place → Place
  | .working => .temporary
  | _ => .root

/-- The other directories that stand beneath the root. -/
def standingNames : List String :=
  ["bin", "boot", "etc", "home", "lib", "mnt", "opt", "proc", "root", "run", "sbin", "srv", "sys",
    "usr", "var"]

end Place

namespace Device

/-- The bytes of a device. Some come to no end, and reading them exhausts the memory. -/
def read : Device → Except FileFault Bytes
  | .null => .ok []
  | .zero | .full => .error .outOfMemory

def write : Device → Except FileFault Unit
  | .null | .zero => .ok ()
  | .full => .error .noSpace

end Device

namespace Directory

def file? (d : Directory) (name : String) : Option Bytes :=
  (d.files.find? fun f => f.1 == name).map (·.2)

def entry? (d : Directory) : Place → String → Option Node
  | .working, name => (d.file? name).map .file
  | .root, "tmp" => some (.directory .temporary)
  | .root, "dev" => some (.directory .devices)
  | .root, name => if name ∈ Place.standingNames then some (.directory .standing) else none
  | .devices, "null" => some (.device .null)
  | .devices, "zero" => some (.device .zero)
  | .devices, "full" => some (.device .full)
  | _, _ => none

/-- Looks a name up, which may be too long for any place. -/
def lookUp (d : Directory) (p : Place) (name : String) : Except FileFault (Option Node) :=
  if Path.maxNameSize < name.utf8ByteSize then .error .nameTooLong else .ok (d.entry? p name)

def step (d : Directory) (p : Place) : Step → Except FileFault Node
  | .stay => .ok (.directory p)
  | .up => .ok (.directory p.parent)
  | .down name => do
    match ← d.lookUp p name with
    | some node => .ok node
    | none => .error .notFound

/-- Only a directory leads on. -/
def place : Node → Except FileFault Place
  | .directory p => .ok p
  | _ => .error .notDirectory

def walk (d : Directory) (p : Place) (steps : List Step) : Except FileFault Place :=
  steps.foldlM (fun p s => do place (← d.step p s)) p

def start (path : Path) : Place := if path.fromRoot then .root else .working

def node (d : Directory) (path : Path) : Except FileFault Node := do
  let p ← d.walk (start path) path.steps.dropLast
  let found ← d.step p (path.steps.getLast?.getD .stay)
  if path.endsInSlash then return .directory (← place found)
  return found

/-- The path of a text, which is neither empty nor too long. -/
def path? (text : String) : Except FileFault Path :=
  if text = "" then .error .notFound
  else if text.utf8ByteSize < Path.sizeLimit then .ok (.ofText text)
  else .error .nameTooLong

def read (d : Directory) (text : String) : Except FileFault Bytes := do
  match ← d.node (← path? text) with
  | .directory _ => .error .isDirectory
  | .file content => .ok content
  | .device device => device.read

/-- Puts a file in the place of any of its name. -/
def put (d : Directory) (name : String) (content : Bytes) : Directory :=
  ⟨(name, content) :: d.files.filter fun f => f.1 != name⟩

/-- Writes a file. A path that can only mean a directory is refused before its last name is looked
up. -/
def write (d : Directory) (text : String) (content : Bytes) : Except FileFault Directory := do
  let path ← path? text
  let p ← d.walk (start path) path.steps.dropLast
  match path.steps.getLast?.getD .stay with
  | .stay | .up => .error .isDirectory
  | .down name =>
    if path.endsInSlash then .error .isDirectory else
    match ← d.lookUp p name with
    | some (.directory _) => .error .isDirectory
    | some (.device device) =>
      device.write
      return d
    | some (.file _) => return d.put name content
    | none => return if p = .working then d.put name content else d

instance : Host (StateM Directory) where
  readFile path := fun d => (d.read path, d)
  writeFile path bytes := fun d =>
    match d.write path bytes with
    | .ok d => (.ok (), d)
    | .error fault => (.error fault, d)
  now := pure 0

end Directory

end AuthDict.CommandLine
