import AuthDict.Config.Form
import AuthDict.Element

/-!
# Snapshot records

What is saved of a dictionary: its configuration, its secret key if the label scheme has one, and
its identifier. A record starts with four magic bytes, a version and its own length, and every
variable part is preceded by its length; all numbers are little-endian. The parser accepts a record
only as a whole, with no byte missing or left over.
-/
namespace AuthDict

inductive SnapshotField where
  | magic
  | version
  | totalLength
  | configLength
  | configBlob
  | secretKeyFlag
  | secretKeyLength
  | secretKey
  | dictionaryId
deriving DecidableEq, Repr

def SnapshotField.name : SnapshotField → String
  | magic => "magic"
  | version => "version"
  | totalLength => "total length"
  | configLength => "config length"
  | configBlob => "config blob"
  | secretKeyFlag => "secret key flag"
  | secretKeyLength => "secret key length"
  | secretKey => "secret key"
  | dictionaryId => "dictionary id"

/-- Why bytes are not a record, or a record no dictionary. -/
inductive SnapshotFault where
  | tooShort (actual : Nat)
  | badMagic (actual : Bytes)
  | badVersion (actual : Nat)
  | lengthMismatch (expected actual : Nat)
  | truncated (field : SnapshotField) (needed available : Nat)
  | badFlag (actual : UInt8)
  | secretKeySize (actual : Nat)
  /-- Only the verifiable label scheme comes with a secret key. -/
  | secretKeyPresence (expected actual : Bool)
  | badConfig (fault : Binary.Fault)
  /-- Plain labels can be derived again from a seed only. -/
  | plainWithoutSeed
deriving DecidableEq, Repr

structure Snapshot where
  version : Nat := 1
  configBlob : Bytes
  secretKey : Option Bytes
  id : DictionaryId
deriving DecidableEq, Repr

namespace Snapshot

def currentVersion : Nat := 1

def magicBytes : Bytes := [0x56, 0x4b, 0x44, 0x31]

/-- The length of magic, version and total length. -/
def headLength : Nat := 10

def secretKeyLength : Nat := 32

/-- The bytes after the total length. -/
def body (s : Snapshot) : Bytes :=
  leBytes 4 s.configBlob.length ++ s.configBlob ++
    (match s.secretKey with
      | some key => 1 :: (leBytes 4 key.length ++ key)
      | none => [0]) ++
    s.id.bytes

def toBytes (s : Snapshot) : Bytes :=
  magicBytes ++ leBytes 2 s.version ++ leBytes 4 (headLength + s.body.length) ++ s.body

/-- Takes the next `n` bytes, which are those of a field. -/
def takeField (field : SnapshotField) (n : Nat) : StateT Bytes (Except SnapshotFault) Bytes :=
  fun bs =>
    if bs.length < n then .error (.truncated field n bs.length) else .ok (bs.take n, bs.drop n)

/-- Takes the next `n` bytes as a block. -/
def takeBlock (field : SnapshotField) (n : Nat) : StateT Bytes (Except SnapshotFault) (Block n) :=
  fun bs =>
    if h : n ≤ bs.length then .ok (⟨bs.take n, by simp [h]⟩, bs.drop n)
    else .error (.truncated field n bs.length)

/-- The part of a record that says whether a secret key follows, and the key. -/
def readSecretKey : StateT Bytes (Except SnapshotFault) (Option Bytes) := do
  match ← takeField .secretKeyFlag 1 with
  | [0] => return none
  | [1] =>
    let length := ofLE (← takeField .secretKeyLength 4)
    if length ≠ Snapshot.secretKeyLength then throw (.secretKeySize length)
    return some (← takeField .secretKey length)
  | flag => throw (.badFlag (flag.headD 0))

def read (size : Nat) : StateT Bytes (Except SnapshotFault) Snapshot := do
  let magic ← takeField .magic 4
  if magic ≠ magicBytes then throw (.badMagic magic)
  let version := ofLE (← takeField .version 2)
  if version ≠ currentVersion then throw (.badVersion version)
  let total := ofLE (← takeField .totalLength 4)
  if total ≠ size then throw (.lengthMismatch total size)
  let configLength := ofLE (← takeField .configLength 4)
  let configBlob ← takeField .configBlob configLength
  let secretKey ← readSecretKey
  let id ← takeBlock .dictionaryId 16
  let rest ← get
  if rest ≠ [] then throw (.lengthMismatch (size - rest.length) size)
  return { version, configBlob, secretKey, id }

def ofBytes (data : Bytes) : Except SnapshotFault Snapshot :=
  if data.length < headLength then .error (.tooShort data.length)
  else (read data.length data).map (·.1)

def hasMagic (data : Bytes) : Bool := data.take 4 == magicBytes

end Snapshot

namespace SnapshotFault

/-- Bytes as a list of decimal numbers. -/
def listed (bs : Bytes) : String :=
  "[" ++ ", ".intercalate (bs.map fun b => toString b.toNat) ++ "]"

def message : SnapshotFault → String
  | tooShort actual =>
    "Snapshot too short: need " ++ toString Snapshot.headLength ++ " bytes, got " ++ toString actual
  | badMagic actual =>
    "Invalid magic: expected " ++ listed Snapshot.magicBytes ++ ", got " ++ listed actual
  | badVersion actual =>
    "Unsupported snapshot version " ++ toString actual ++ " (supported: "
      ++ toString Snapshot.currentVersion ++ ")"
  | lengthMismatch expected actual =>
    "Snapshot length mismatch: expected " ++ toString expected ++ " bytes, got " ++ toString actual
  | truncated field needed available =>
    "Truncated " ++ field.name ++ ": need " ++ toString needed ++ " bytes, " ++ toString available
      ++ " available"
  | badFlag actual => "Invalid secret key flag: " ++ toString actual.toNat
  | secretKeySize actual =>
    "Secret key size mismatch: expected " ++ toString Snapshot.secretKeyLength ++ " bytes, got "
      ++ toString actual
  | secretKeyPresence expected actual =>
    "Secret key presence mismatch: label scheme expects present=" ++ toString expected
      ++ ", snapshot has present=" ++ toString actual
  | badConfig fault => "Invalid configuration blob: " ++ fault.message
  | plainWithoutSeed => "Invalid configuration blob: plain label scheme without a seed"

end SnapshotFault

end AuthDict
