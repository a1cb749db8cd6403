import RailsSchema.CommandLine.Arguments
import RailsSchema.CommandLine.Files
import RailsSchema.Log.Line

/-!
# Runs

A run reads one file, and prints its schema or writes it to another file. Whatever goes wrong is
said on the error stream, and then nothing is printed and the exit code is 1; log lines go to the
error stream as well.
-/

namespace RailsSchema.CommandLine

/-- What a run leaves besides the files. -/
structure Outcome where
  exitCode : Nat
  stdout : String
  stderr : String
  deriving DecidableEq, Repr

namespace Outcome

/-- A run that went well. -/
def success (stdout log : String) : Outcome := ⟨0, stdout, log⟩

/-- A run that went wrong. -/
def failure (stderr : String) : Outcome := ⟨1, "", stderr⟩

end Outcome

/-- The result of a run on a text, and what it logs. -/
def process (threshold : Log.Threshold) (invocation : Invocation) (text : String) :
    String × String :=
  let reading := Schema.read invocation.settings English.singular text
  (reading.schema.exportAs invocation.format,
    Log.text threshold (Schema.events invocation.settings text reading.diagnostics))

/-- Does what an invocation asks for. -/
def perform {m : Type → Type} [Monad m] (files : FileAccess m) (threshold : Log.Threshold)
    (invocation : Invocation) : m Outcome := do
  match ← files.read invocation.input with
  | .error error =>
    return .failure ("Failed to read " ++ invocation.input ++ ": " ++ error.message ++ "\n")
  | .ok text =>
    let (result, log) := process threshold invocation text
    match invocation.output with
    | none => return .success result log
    | some path =>
      match ← files.write path result with
      | .ok () => return .success "" log
      | .error error =>
        return .failure (log ++ "Failed to write " ++ path ++ ": " ++ error.message ++ "\n")

/-- Runs the program with the given arguments. -/
def run {m : Type → Type} [Monad m] (files : FileAccess m) (threshold : Log.Threshold)
    (arguments : List String) : m Outcome :=
  match Invocation.ofArguments arguments with
  | .ok invocation => perform files threshold invocation
  | .error refusal => return .failure refusal.message

/-- Runs the program on a file tree. -/
def runOn (files : FileSystem) (threshold : Log.Threshold) (arguments : List String) :
    Outcome × FileSystem :=
  (run FileSystem.access threshold arguments).run files

end RailsSchema.CommandLine
