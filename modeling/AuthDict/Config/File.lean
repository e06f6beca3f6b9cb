import AuthDict.Error

/-!
# Configuration files

A configuration is kept in a file as JSON text in UTF-8.
-/
namespace AuthDict.Config

def toFile (c : Config) : Bytes := Utf8.encode c.fileText.toList

/-- Reads a file. That it is no text is a fault of the file, and any other fault one of its JSON. -/
def ofFile (bytes : Bytes) : Except Error Config :=
  match Utf8.decode bytes with
  | .error _ => .error (.file .notText)
  | .ok text =>
    match ofFileText? text with
    | some config => .ok config
    | none => .error .json

end AuthDict.Config
