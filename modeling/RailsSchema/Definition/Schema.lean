import RailsSchema.Definition.Table

/-!
# Schemas

A schema is read in two passes over one text: the first collects the tables, a later block of a name
replacing an earlier one in its place, and the second gives each foreign key to the table that it
points from. A foreign key that mentions an unknown table is left out and reported; the source is
looked up first.
-/

namespace RailsSchema

/-- The tables of a schema, in the order in which their names first appear. -/
abbrev Schema := OrderedMap Table

/-- A foreign key that mentions an unknown table. -/
inductive Diagnostic where
  /-- The table that the key points to is unknown. -/
  | missingDestination (fromTable toTable : String)
  /-- The table that the key points from is unknown. -/
  | missingSource (fromTable toTable : String)
  deriving DecidableEq, Repr

/-- The wording of a diagnostic. -/
def Diagnostic.message : Diagnostic → String
  | .missingDestination fromTable toTable =>
    "destination table `" ++ toTable ++ "` not found for foreign key on `" ++ fromTable ++ "`"
  | .missingSource fromTable toTable =>
    "source table `" ++ fromTable ++ "` not found for foreign key to `" ++ toTable ++ "`"

/-- The outcome of reading a text. -/
structure Reading where
  schema : Schema := []
  diagnostics : List Diagnostic := []
  deriving Repr

namespace Schema

/-- The tables that a text declares, without foreign keys. -/
def declared (settings : Settings) (text : String) : Schema :=
  OrderedMap.ofEntries
    ((TableBlock.all text).map fun block => (block.name, Table.ofBlock settings block))

/-- What is wrong with a foreign key in a schema. -/
def problem? (schema : Schema) (key : ForeignKey) : Option Diagnostic :=
  if !OrderedMap.contains schema key.fromTable then
    some (.missingSource key.fromTable key.toTable)
  else if !OrderedMap.contains schema key.toTable then
    some (.missingDestination key.fromTable key.toTable)
  else none

/-- Gives a foreign key to its table, or reports it. -/
def resolve (reading : Reading) (key : ForeignKey) : Reading :=
  match problem? reading.schema key with
  | some diagnostic =>
    { reading with diagnostics := reading.diagnostics ++ [diagnostic] }
  | none =>
    { reading with
      schema := OrderedMap.modify reading.schema key.fromTable (Table.addForeignKey · key) }

/-- Reads a schema. -/
def read (settings : Settings) (singular : String → String) (text : String) : Reading :=
  (ForeignKey.all settings singular text).foldl resolve ⟨declared settings text, []⟩

end Schema

end RailsSchema
