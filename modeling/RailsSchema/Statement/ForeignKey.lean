import RailsSchema.Text.Site

/-!
# Foreign key statements

A foreign key is declared as `add_foreign_key "from", "to", options`. The options are all that is
left of the line, whatever it is.
-/

namespace RailsSchema

open Text

/-- A foreign key statement. -/
structure ForeignKeyStatement where
  fromTable : String
  toTable : String
  /-- The rest of the line, without one comma in front. -/
  options : String
  deriving DecidableEq, Repr

namespace ForeignKeyStatement

/-- The foreign key statement behind `add_foreign_key`. -/
def read? (cs : List Char) : Option ForeignKeyStatement := do
  let (fromTable, behind) ← quotedName? (← skipSome? isBlank cs)
  let next ← after? [','] behind
  let (toTable, rest) ← quotedName? (trimStart next)
  return {
    fromTable := String.ofList fromTable
    toTable := String.ofList toTable
    options := String.ofList (trim (line (skipComma rest))) }

/-- The foreign key statements in a text, in order. -/
def all (text : String) : List ForeignKeyStatement :=
  (sites "add_foreign_key" text.toList).filterMap fun site => read? site.rest

end ForeignKeyStatement

end RailsSchema
