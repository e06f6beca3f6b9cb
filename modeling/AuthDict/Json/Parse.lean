import AuthDict.Json.Token

/-!
# Reading JSON documents

The parser reads one token at a time and keeps the arrays and objects that are still open on a
stack, so a document may nest to any depth.
-/
namespace AuthDict.Json

/-- An array or object that is still open, with what it holds so far in reverse. An open object
waits for the value of its last name. -/
inductive Frame where
  | array (items : List Json)
  | object (fields : List (JsonText × Json)) (name : JsonText)

/-- What may come next. -/
inductive ParseState where
  | value (stack : List Frame)
  /-- The first item of an array, or its end. -/
  | firstItem (stack : List Frame)
  /-- The first name of an object, or its end. -/
  | firstName (stack : List Frame)
  /-- Another name of an object. -/
  | nextName (fields : List (JsonText × Json)) (stack : List Frame)
  /-- The colon after a name. -/
  | colon (fields : List (JsonText × Json)) (name : JsonText) (stack : List Frame)
  /-- A value has ended: a comma or the end of what surrounds it. -/
  | done (value : Json) (stack : List Frame)

namespace ParseState

/-- The state after the first token of a value. -/
def startValue (stack : List Frame) : Token → Option ParseState
  | .atom j => some (done j stack)
  | .openArray => some (firstItem stack)
  | .openObject => some (firstName stack)
  | _ => none

def step : ParseState → Token → Option ParseState
  | value stack, t => startValue stack t
  | firstItem stack, .closeArray => some (done (.array []) stack)
  | firstItem stack, t => startValue (.array [] :: stack) t
  | firstName stack, .closeObject => some (done (.object []) stack)
  | firstName stack, .atom (.text name) => some (colon [] name stack)
  | nextName fields stack, .atom (.text name) => some (colon fields name stack)
  | colon fields name stack, .colon => some (value (.object fields name :: stack))
  | done j (.array items :: stack), .comma => some (value (.array (j :: items) :: stack))
  | done j (.array items :: stack), .closeArray => some (done (.array (j :: items).reverse) stack)
  | done j (.object fields name :: stack), .comma => some (nextName ((name, j) :: fields) stack)
  | done j (.object fields name :: stack), .closeObject =>
    some (done (.object ((name, j) :: fields).reverse) stack)
  | _, _ => none

def run (s : ParseState) : List Token → Option ParseState
  | [] => some s
  | t :: ts =>
    match s.step t with
    | some s' => run s' ts
    | none => none

end ParseState

def parseChars? (cs : List Char) : Option Json := do
  match (ParseState.value []).run (← tokens? cs) with
  | some (.done j []) => some j
  | _ => none

def parse? (text : String) : Option Json := parseChars? text.toList

end AuthDict.Json
