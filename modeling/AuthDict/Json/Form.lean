import AuthDict.Duration
import AuthDict.Json.Parse
import AuthDict.Text.Utf8

/-!
# Values as JSON documents

A type with a `JsonForm` has a document for each value and a reader that may accept more documents
than the writer makes. A record is written as an object and may also be read from an array of its
fields in order; fields of other names are skipped, but a field must not come twice.
-/
namespace AuthDict

class JsonForm (α : Type) where
  toJson : α → Json
  ofJson? : Json → Option α

export JsonForm (toJson)

namespace Json

def ofJson? {α : Type} [JsonForm α] (j : Json) : Option α := JsonForm.ofJson? j

/-- The values of a name among fields whose names are all Unicode text. -/
def valuesOf (name : String) (fields : List (JsonText × Json)) : List Json :=
  (fields.filter fun f => f.1 == some name).map (·.2)

/-- The value of a field that must not come twice. -/
def valueOf? (fields : List (JsonText × Json)) (name : String) : Option (Option Json) :=
  match valuesOf name fields with
  | [] => some none
  | [j] => some (some j)
  | _ => none

/-- The fields of a record by position, none for an absent one. A closed record refuses fields of
other names. -/
def record? (closed : Bool) (names : List String) : Json → Option (List (Option Json))
  | array items =>
    if items.length ≤ names.length then
      some (items.map some ++ List.replicate (names.length - items.length) none)
    else none
  | object fields =>
    if fields.all fun f => f.1.isSome && (!closed || names.any fun n => f.1 == some n) then
      names.mapM (valueOf? fields)
    else none
  | _ => none

/-- Reads a field, with a value for an absent one. -/
def fieldOr {α : Type} [JsonForm α] (default : α) : Option Json → Option α
  | some j => j.ofJson?
  | none => some default

def required {α : Type} [JsonForm α] (field : Option Json) : Option α := field.bind (·.ofJson?)

/-- The name of a constant, written as a text or as the name of a null field. -/
def constant? : Json → Option String
  | text name => name
  | object [(name, null)] => name
  | _ => none

def below? (bound : Nat) : Json → Option Nat
  | nat n => if n < bound then some n else none
  | _ => none

end Json

instance : JsonForm Bool where
  toJson := .bool
  ofJson?
    | .bool b => some b
    | _ => none

instance : JsonForm UInt8 where
  toJson b := .nat b.toNat
  ofJson? j := (j.below? UInt8.size).map UInt8.ofNat

instance : JsonForm UInt64 where
  toJson n := .nat n.toNat
  ofJson? j := (j.below? UInt64.size).map UInt64.ofNat

instance {α : Type} [JsonForm α] : JsonForm (Option α) where
  toJson
    | some a => toJson a
    | none => .null
  ofJson?
    | .null => some none
    | j => (j.ofJson?).map some

instance {α : Type} [JsonForm α] : JsonForm (List α) where
  toJson as := .array (as.map toJson)
  ofJson?
    | .array items => items.mapM fun j => j.ofJson?
    | _ => none

instance {n : Nat} : JsonForm (Block n) where
  toJson b := toJson b.bytes
  ofJson? j := do Block.ofBytes? n (← j.ofJson?)

instance : JsonForm Duration where
  toJson d := .object [Json.field "secs" (toJson d.secs), Json.field "nanos" (.nat d.nanos)]
  ofJson? j := do
    match ← j.record? true ["secs", "nanos"] with
    | [some secs, some nanos] => Duration.ofParts? (← secs.below? UInt64.size) (← nanos.below? UInt32.size)
    | _ => none

end AuthDict
