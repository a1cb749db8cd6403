import RailsSchema.Value.Numeral
import RailsSchema.Value.Basic

/-!
# Reading settings

Two settings decide how literals are read: which items a list keeps, and how deep lists and maps may
nest. An array filter is chosen by a name in any mixture of cases; ASCII lower-casing is enough for
that, since no other character has a letter of these names as its lower case form.
-/

namespace RailsSchema

/-- Which of the items read in a list are kept. -/
inductive ArrayFilter where
  /-- All of them. -/
  | present
  /-- Those that are not empty, zero, `false` or `nil`. -/
  | legacyTruthy
  deriving DecidableEq, Repr

/-- The filter that goes by a name. -/
def ArrayFilter.ofName? (name : String) : Option ArrayFilter :=
  match name.toLower with
  | "present" => some .present
  | "legacy" => some .legacyTruthy
  | "truthy" => some .legacyTruthy
  | _ => none

/-- Whether the legacy filter keeps a value: empty strings and numerals that are zero in double
precision count as absent, like `false` and `nil`. -/
def Value.isLegacyTruthy : Value → Bool
  | .str text => text != ""
  | .numeric text =>
    match Numeral.toDouble? text.toList with
    | some number => !number.isZero
    | none => true
  | value => value.isTruthy

/-- Whether a filter keeps a value. -/
def ArrayFilter.keeps : ArrayFilter → Value → Bool
  | .present, _ => true
  | .legacyTruthy, value => value.isLegacyTruthy

/-- How literals are read. -/
structure Settings where
  arrayFilter : ArrayFilter := .present
  /-- The deepest nesting of lists and maps that is read. -/
  maxDepth : Nat := 64
  deriving DecidableEq, Repr

/-- The settings with the filter of a name, if there is such a filter, and with a depth; what is not
given is as usual. -/
def Settings.ofNames? (arrayFilter : Option String) (maxDepth : Option Nat) : Option Settings :=
  let usual : Settings := {}
  match arrayFilter with
  | none => some ⟨usual.arrayFilter, maxDepth.getD usual.maxDepth⟩
  | some name => (ArrayFilter.ofName? name).map fun filter =>
    ⟨filter, maxDepth.getD usual.maxDepth⟩

end RailsSchema
