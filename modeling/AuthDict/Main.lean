import AuthDict.CommandLine.Run

/-!
# The program

Runs the command line on the files and the clock of the system.
-/
namespace AuthDict.CommandLine

/-- What a system error means for the program. -/
def fileFaultOf : IO.Error → FileFault
  | .noFileOrDirectory .. => .notFound
  | e => .other (toString e)

instance : Host IO where
  readFile path := do
    try return .ok (← IO.FS.readBinFile path).toList
    catch e => return .error (fileFaultOf e)
  writeFile path bytes := do
    try
      IO.FS.writeBinFile path ⟨bytes.toArray⟩
      return .ok ()
    catch e => return .error (fileFaultOf e)
  now := IO.monoMsNow

def usage : String :=
  "Usage: authdict [--config FILE] [--entries N] [--threads N] [--queriers N] [--verifiable]\n"
    ++ "                [--commit-interval-ms N] [--save FILE] [--load FILE]"

end AuthDict.CommandLine

open AuthDict AuthDict.CommandLine

def main (args : List String) : IO UInt32 := do
  let noise := (← IO.getRandomBytes 32).toList
  let seed := (Block.ofBytes? 32 noise).getD (Block.zero 32)
  let report ← (run args seed : IO Report)
  for line in report.stdout do
    IO.println line
  match report.stderr with
  | some text => IO.eprintln text
  | none => pure ()
  if parse {} args = .help then IO.println usage
  if report.exitCode = some 2 then IO.eprintln usage
  return report.exitCode.getD 134
