import RailsSchema.Json.Schema
import RailsSchema.Report.Basic
import RailsSchema.Singular

/-!
# Exports

A schema is exported as a JSON text with an item a line, or as the text report. A format is chosen
by a name in any mixture of cases; ASCII lower-casing is enough for that, since no other character
has a letter of these names as its lower case form.
-/

namespace RailsSchema

/-- What a schema is written as. -/
inductive Format where
  | json
  | text
  deriving DecidableEq, Repr, Inhabited

/-- The format that goes by a name. -/
def Format.ofName? (name : String) : Option Format :=
  match name.toLower with
  | "json" => some .json
  | "raw" => some .json
  | "text" => some .text
  | "schema" => some .text
  | _ => none

/-- A schema in a format. -/
def Schema.exportAs (schema : Schema) : Format → String
  | .json => schema.toJson.pretty
  | .text => Report.render {} schema

/-- The schema that a text declares, in the format of the given name or as JSON if there is no such
format; settings and singulars are the usual ones. -/
def exportText (text : String) (format : Option String) : String :=
  (Schema.read {} English.singular text).schema.exportAs ((format.bind Format.ofName?).getD .json)

end RailsSchema
