import RailsSchema.CommandLine.Run

/-!
# The program

Runs the command line on the files of the machine.
-/

namespace RailsSchema.CommandLine

/-- What the system says about a file. -/
def FileError.ofSystem : IO.Error → FileError
  | .noFileOrDirectory .. => .missing
  | .inappropriateType .. => .isDirectory
  | error => .other (toString error)

/-- The files of the machine. -/
def machineFiles : FileAccess IO where
  read path := do
    try
      match String.fromUTF8? (← IO.FS.readBinFile path) with
      | some text => return .ok text
      | none => return .error .notText
    catch error => return .error (.ofSystem error)
  write path contents := do
    try
      IO.FS.writeFile path contents
      return .ok ()
    catch error => return .error (.ofSystem error)

end RailsSchema.CommandLine

open RailsSchema RailsSchema.CommandLine in
/-- Runs the program. -/
def main (arguments : List String) : IO UInt32 := do
  let threshold := Log.Threshold.ofSetting ((← IO.getEnv "RUST_LOG").getD "")
  let outcome ← run machineFiles threshold arguments
  (← IO.getStderr).putStr outcome.stderr
  (← IO.getStdout).putStr outcome.stdout
  return outcome.exitCode.toUInt32
