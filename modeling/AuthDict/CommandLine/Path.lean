/-!
# Paths

A path names a file by the steps that lead to it from the root or from the working directory.
-/
namespace AuthDict.CommandLine

/-- A step from one directory. -/
inductive Step where
  | stay
  | up
  | down (name : String)
deriving DecidableEq, Repr

structure Path where
  fromRoot : Bool
  steps : List Step
  /-- A slash at the end asks for a directory. -/
  endsInSlash : Bool
deriving DecidableEq, Repr

namespace Path

/-- Paths are shorter than this, in bytes. -/
def sizeLimit : Nat := 4096

/-- The most bytes of a name. -/
def maxNameSize : Nat := 255

def stepOf : String → Step
  | "." => .stay
  | ".." => .up
  | name => .down name

/-- The steps between the slashes, of which several count as one. -/
def ofText (text : String) : Path :=
  { fromRoot := text.startsWith "/"
    steps := ((text.splitOn "/").filter (· != "")).map stepOf
    endsInSlash := text.endsWith "/" }

end Path

end AuthDict.CommandLine
