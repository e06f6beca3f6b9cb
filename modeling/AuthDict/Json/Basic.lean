/-!
# JSON documents

A document keeps what its readers tell apart: a short natural number from any other number, the
order and the repetitions of an object's fields, and texts whose escapes leave a surrogate
unpaired, which are written but stand for no Unicode text.

`Json.compact` prints without blanks and `Json.pretty` with two spaces a level.
-/
namespace AuthDict

/-- The value of a written text, or none if it leaves a surrogate unpaired. -/
abbrev JsonText := Option String

inductive Json where
  | null
  | bool (b : Bool)
  /-- A number written in digits alone, in no more of them than words have. -/
  | nat (n : Nat)
  /-- Any other number, as written. -/
  | number (literal : String)
  | text (s : JsonText)
  | array (items : List Json)
  | object (fields : List (JsonText × Json))
deriving Inhabited

namespace Json

def string (s : String) : Json := text (some s)

def field (name : String) (value : Json) : JsonText × Json := (some name, value)

/-- A character inside a text: quotes, backslashes and control characters are escaped. -/
def escape (c : Char) : List Char :=
  if c = '"' then ['\\', '"']
  else if c = '\\' then ['\\', '\\']
  else if c = '\n' then ['\\', 'n']
  else if c = '\r' then ['\\', 'r']
  else if c = '\t' then ['\\', 't']
  else if c.toNat = 8 then ['\\', 'b']
  else if c.toNat = 12 then ['\\', 'f']
  else if c.toNat < 32 then
    ['\\', 'u', '0', '0', Nat.digitChar (c.toNat / 16), Nat.digitChar (c.toNat % 16)]
  else [c]

/-- A quoted text. One that stands for no Unicode text is written as an unpaired surrogate. -/
def quote : JsonText → List Char
  | some s => '"' :: (s.toList.flatMap escape ++ ['"'])
  | none => ['"', '\\', 'u', 'd', '8', '0', '0', '"']

/-- A document that is neither an array nor an object. -/
def atomChars : Json → List Char
  | bool true => ['t', 'r', 'u', 'e']
  | bool false => ['f', 'a', 'l', 's', 'e']
  | nat n => Nat.toDigits 10 n
  | number literal => literal.toList
  | text s => quote s
  | _ => ['n', 'u', 'l', 'l']

mutual

def compactChars : Json → List Char
  | array items => '[' :: (compactItems items ++ [']'])
  | object fields => '\x7b' :: (compactFields fields ++ ['\x7d'])
  | j => atomChars j

def compactItems : List Json → List Char
  | [] => []
  | [item] => compactChars item
  | item :: rest => compactChars item ++ ',' :: compactItems rest

def compactFields : List (JsonText × Json) → List Char
  | [] => []
  | [(name, value)] => quote name ++ ':' :: compactChars value
  | (name, value) :: rest => quote name ++ ':' :: (compactChars value ++ ',' :: compactFields rest)

end

/-- A new line with its indentation. -/
def newline (level : Nat) : List Char := '\n' :: List.replicate (2 * level) ' '

mutual

/-- A document whose lines after the first are indented by a level. -/
def prettyChars (level : Nat) : Json → List Char
  | array [] => ['[', ']']
  | array (item :: rest) =>
    '[' :: (newline (level + 1) ++ prettyChars (level + 1) item ++ prettyItems (level + 1) rest ++
      newline level ++ [']'])
  | object [] => ['\x7b', '\x7d']
  | object ((name, value) :: rest) =>
    '\x7b' :: (newline (level + 1) ++ quote name ++ [':', ' '] ++ prettyChars (level + 1) value ++
      prettyFields (level + 1) rest ++ newline level ++ ['\x7d'])
  | j => atomChars j

/-- The items after the first, each preceded by a comma and a new line. -/
def prettyItems (level : Nat) : List Json → List Char
  | [] => []
  | item :: rest => ',' :: (newline level ++ prettyChars level item ++ prettyItems level rest)

/-- The fields after the first, each preceded by a comma and a new line. -/
def prettyFields (level : Nat) : List (JsonText × Json) → List Char
  | [] => []
  | (name, value) :: rest =>
    ',' :: (newline level ++ quote name ++ [':', ' '] ++ prettyChars level value ++
      prettyFields level rest)

end

def compact (j : Json) : String := String.ofList (compactChars j)

def pretty (j : Json) : String := String.ofList (prettyChars 0 j)

end Json

end AuthDict
