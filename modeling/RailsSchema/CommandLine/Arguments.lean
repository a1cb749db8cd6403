import RailsSchema.Export

/-!
# Arguments of the command line

The first argument is the file to read, whatever it looks like. The others are flags; a flag given
twice counts the last time, and a flag in last place that lacks its value is passed over. The first
argument that is no flag, or a flag with a value that does not suit it, ends the program.
-/

namespace RailsSchema.CommandLine

/-- What a run is asked to do. -/
structure Invocation where
  /-- The file to read. -/
  input : String
  /-- The file to write; without one the result is printed. -/
  output : Option String := none
  format : Format := .json
  settings : Settings := {}
  deriving Repr

/-- Why arguments ask for no run. -/
inductive Refusal where
  /-- There is no argument, or help is asked for. -/
  | usage
  | badFormat (name : String)
  | badArrayFilter (name : String)
  | badDepth (text : String)
  | unknownOption (argument : String)
  deriving DecidableEq, Repr

/-- The flags that take a value. -/
inductive ValueFlag where
  | output
  | format
  | arrayFilter
  | maxDepth
  deriving DecidableEq, Repr

/-- The flags. -/
inductive Flag where
  | help
  | legacyArrays
  | withValue (flag : ValueFlag)
  deriving DecidableEq, Repr

/-- The flag that an argument is. -/
def Flag.ofArgument? (argument : String) : Option Flag :=
  match argument with
  | "-o" => some (.withValue .output)
  | "--output" => some (.withValue .output)
  | "-f" => some (.withValue .format)
  | "--format" => some (.withValue .format)
  | "--array-filter" => some (.withValue .arrayFilter)
  | "--legacy-arrays" => some .legacyArrays
  | "--max-depth" => some (.withValue .maxDepth)
  | "-h" => some .help
  | "--help" => some .help
  | _ => none

/-- The depth that a text gives: decimal digits after an optional plus sign, below 2^64. -/
def depth? (text : String) : Option Nat :=
  let digits :=
    match text.toList with
    | '+' :: cs => cs
    | cs => cs
  if digits.isEmpty || !Numeral.areDigits digits then none
  else
    let number := Numeral.digitsValue digits
    if number < Nat.pow 2 64 then some number else none

namespace Invocation

/-- Keeps the items that a filter keeps. -/
def withArrayFilter (invocation : Invocation) (filter : ArrayFilter) : Invocation :=
  { invocation with settings := { invocation.settings with arrayFilter := filter } }

/-- Gives a flag its value. -/
def set (invocation : Invocation) (flag : ValueFlag) (value : String) :
    Except Refusal Invocation :=
  match flag with
  | .output => .ok { invocation with output := some value }
  | .format =>
    match Format.ofName? value with
    | some format => .ok { invocation with format := format }
    | none => .error (.badFormat value)
  | .arrayFilter =>
    match ArrayFilter.ofName? value with
    | some filter => .ok (invocation.withArrayFilter filter)
    | none => .error (.badArrayFilter value)
  | .maxDepth =>
    match depth? value with
    | some depth =>
      .ok { invocation with settings := { invocation.settings with maxDepth := depth } }
    | none => .error (.badDepth value)

/-- Reads the arguments behind the first. -/
def readFlags (invocation : Invocation) : List String → Except Refusal Invocation
  | [] => .ok invocation
  | argument :: arguments =>
    match Flag.ofArgument? argument with
    | none => .error (.unknownOption argument)
    | some .help => .error .usage
    | some .legacyArrays => (invocation.withArrayFilter .legacyTruthy).readFlags arguments
    | some (.withValue flag) =>
      match arguments with
      | [] => .ok invocation
      | value :: others =>
        match invocation.set flag value with
        | .ok changed => changed.readFlags others
        | .error refusal => .error refusal

/-- Reads the arguments of a run. -/
def ofArguments : List String → Except Refusal Invocation
  | [] => .error .usage
  | input :: flags => readFlags { input := input } flags

end Invocation

/-- How the program is to be called. -/
def usage : String :=
  "Usage: schemarb <schema.rb> [options]\n\n"
    ++ "Options:\n"
    ++ "  -o, --output <file>    Output file (default: stdout)\n"
    ++ "  -f, --format <format>  Output format: json, text (default: json)\n"
    ++ "  --array-filter <mode>  Array literal filter: present, legacy (default: present)\n"
    ++ "  --legacy-arrays        Same as --array-filter legacy\n"
    ++ "  --max-depth <n>        Deepest accepted literal nesting (default: "
    ++ toString ({} : Settings).maxDepth ++ ")\n\n"
    ++ "Set RUST_LOG to control diagnostics (default: warn).\n"

/-- What is said about arguments that ask for no run. -/
def Refusal.message : Refusal → String
  | .usage => CommandLine.usage
  | .badFormat name => "Invalid format: " ++ name ++ "\n"
  | .badArrayFilter name => "Invalid array filter: " ++ name ++ "\n"
  | .badDepth text => "Invalid depth: " ++ text ++ "\n"
  | .unknownOption argument => "Unknown option: " ++ argument ++ "\n"

end RailsSchema.CommandLine
