import AuthDict.Binary
import AuthDict.Config.Basic
import AuthDict.Json.Form

/-!
# Written configurations

The JSON and binary forms of a configuration. A seed is written as hexadecimal text in both; it is
read in either case and with or without a leading `0x`. In JSON every field may be left out.
-/
namespace AuthDict

/-- The written names of a choice between two. -/
structure Choice (α : Type) where
  name : α → String
  first : α
  second : α

namespace Choice

variable {α : Type}

def ofName? (c : Choice α) (name : String) : Option α :=
  if name = c.name c.first then some c.first
  else if name = c.name c.second then some c.second
  else none

def toJson (c : Choice α) (a : α) : Json := .string (c.name a)

def ofJson? (c : Choice α) (j : Json) : Option α := j.constant?.bind c.ofName?

def encode [DecidableEq α] (c : Choice α) (a : α) : Bytes := leBytes 4 (if a = c.first then 0 else 1)

def reader (c : Choice α) : Binary.Reader α := do
  match ← .choice 2 with
  | 0 => return c.first
  | _ => return c.second

end Choice

def CommitmentScheme.choice : Choice CommitmentScheme := ⟨name, .keccak256, .sha3⟩

def LabelScheme.choice : Choice LabelScheme := ⟨name, .plain, .verifiable⟩

def QueryMode.choice : Choice QueryMode := ⟨name, .cached, .direct⟩

def FailurePolicy.choice : Choice FailurePolicy := ⟨name, .requeue, .discard⟩

instance : JsonForm CommitmentScheme := ⟨CommitmentScheme.choice.toJson, CommitmentScheme.choice.ofJson?⟩

instance : JsonForm LabelScheme := ⟨LabelScheme.choice.toJson, LabelScheme.choice.ofJson?⟩

instance : JsonForm QueryMode := ⟨QueryMode.choice.toJson, QueryMode.choice.ofJson?⟩

instance : JsonForm FailurePolicy := ⟨FailurePolicy.choice.toJson, FailurePolicy.choice.ofJson?⟩

instance : BinaryForm CommitmentScheme := ⟨CommitmentScheme.choice.encode, CommitmentScheme.choice.reader⟩

instance : BinaryForm LabelScheme := ⟨LabelScheme.choice.encode, LabelScheme.choice.reader⟩

instance : BinaryForm QueryMode := ⟨QueryMode.choice.encode, QueryMode.choice.reader⟩

instance : BinaryForm FailurePolicy := ⟨FailurePolicy.choice.encode, FailurePolicy.choice.reader⟩

namespace SeedText

def write (seed : Seed) : List Char := Hex.chars seed.bytes

/-- The text without a leading `0x`. -/
def digits : List Char → List Char
  | '0' :: 'x' :: rest => rest
  | cs => cs

def read (cs : List Char) : Except Binary.Fault Seed :=
  match Hex.decode (Utf8.encode (digits cs)) with
  | .error fault => .error (.badHex fault)
  | .ok bs =>
    match Block.ofBytes? 32 bs with
    | some seed => .ok seed
    | none => .error .seedLength

def toJson : Option Seed → Json
  | none => .null
  | some seed => .string (String.ofList (write seed))

def ofJson? : Json → Option (Option Seed)
  | .null => some none
  | .text (some s) => (read s.toList).toOption.map some
  | _ => none

def encode : Option Seed → Bytes
  | none => [0]
  | some seed => 1 :: (leBytes 8 (write seed).length ++ Utf8.encode (write seed))

def reader : Binary.Reader (Option Seed) := do
  match ← Binary.Reader.option .text with
  | none => return none
  | some cs =>
    match read cs with
    | .ok seed => return some seed
    | .error fault => .fail fault

end SeedText

namespace Config

def toJson (c : Config) : Json := .object
  [Json.field "commitment_scheme" (JsonForm.toJson c.commitmentScheme),
   Json.field "label_scheme" (JsonForm.toJson c.labelScheme),
   Json.field "trie_storage_mode" (JsonForm.toJson c.queryMode),
   Json.field "label_seed" (SeedText.toJson c.labelSeed),
   Json.field "label_cache_size" (JsonForm.toJson c.labelCacheSize),
   Json.field "thread_count" (JsonForm.toJson c.threadCount),
   Json.field "querier_pool_size" (JsonForm.toJson c.querierPoolSize),
   Json.field "commit_interval" (JsonForm.toJson c.commitInterval),
   Json.field "on_apply_failure" (JsonForm.toJson c.onApplyFailure)]

def fieldNames : List String :=
  ["commitment_scheme", "label_scheme", "trie_storage_mode", "label_seed", "label_cache_size",
   "thread_count", "querier_pool_size", "commit_interval", "on_apply_failure"]

def ofJson? (j : Json) : Option Config := do
  let default : Config := {}
  match ← j.record? false fieldNames with
  | [commitment, label, mode, seed, cache, threads, pool, interval, failure] =>
    return {
      commitmentScheme := ← Json.fieldOr default.commitmentScheme commitment
      labelScheme := ← Json.fieldOr default.labelScheme label
      queryMode := ← Json.fieldOr default.queryMode mode
      labelSeed := ← match seed with
        | some j => SeedText.ofJson? j
        | none => some none
      labelCacheSize := ← Json.fieldOr default.labelCacheSize cache
      threadCount := ← Json.fieldOr default.threadCount threads
      querierPoolSize := ← Json.fieldOr default.querierPoolSize pool
      commitInterval := ← Json.fieldOr default.commitInterval interval
      onApplyFailure := ← Json.fieldOr default.onApplyFailure failure }
  | _ => none

instance : JsonForm Config := ⟨toJson, ofJson?⟩

instance : BinaryForm Config where
  encode c :=
    Binary.encode c.commitmentScheme ++ Binary.encode c.labelScheme ++ Binary.encode c.queryMode
      ++ SeedText.encode c.labelSeed ++ Binary.encode c.labelCacheSize
      ++ Binary.encode c.threadCount ++ Binary.encode c.querierPoolSize
      ++ Binary.encode c.commitInterval ++ Binary.encode c.onApplyFailure
  reader := do
    return {
      commitmentScheme := ← BinaryForm.reader
      labelScheme := ← BinaryForm.reader
      queryMode := ← BinaryForm.reader
      labelSeed := ← SeedText.reader
      labelCacheSize := ← BinaryForm.reader
      threadCount := ← BinaryForm.reader
      querierPoolSize := ← BinaryForm.reader
      commitInterval := ← BinaryForm.reader
      onApplyFailure := ← BinaryForm.reader }

def fileText (c : Config) : String := c.toJson.pretty

def ofFileText? (text : List Char) : Option Config := (Json.parseChars? text).bind ofJson?

end Config

namespace UpdaterConfig

instance : JsonForm UpdaterConfig where
  toJson c := .object
    [Json.field "commit_interval" (JsonForm.toJson c.commitInterval),
     Json.field "on_apply_failure" (JsonForm.toJson c.onApplyFailure),
     Json.field "flush_on_shutdown" (JsonForm.toJson c.flushOnShutdown)]
  ofJson? j := do
    match ← j.record? false ["commit_interval", "on_apply_failure", "flush_on_shutdown"] with
    | [interval, failure, flush] =>
      return ⟨← Json.fieldOr none interval, ← Json.required failure, ← Json.required flush⟩
    | _ => none

instance : BinaryForm UpdaterConfig where
  encode c :=
    Binary.encode c.commitInterval ++ Binary.encode c.onApplyFailure
      ++ Binary.encode c.flushOnShutdown
  reader := do
    return ⟨← BinaryForm.reader, ← BinaryForm.reader, ← BinaryForm.reader⟩

end UpdaterConfig

end AuthDict
