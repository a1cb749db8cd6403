import RailsSchema.Text.Site

/-!
# Column statements

A column is declared as `t.type "name", options` or as `t.column "name", "type", options`, in either
case on one line. A line with anything else behind the names declares nothing.
-/

namespace RailsSchema

open Text

/-- A column statement. -/
structure ColumnStatement where
  name : String
  type : String
  /-- The rest of the line, without the comma in front. -/
  options : String
  deriving DecidableEq, Repr

namespace ColumnStatement

/-- A name in double quotes that is not empty, and what follows it. -/
def name? (cs : List Char) : Option (List Char × List Char) :=
  (quotedName? cs).filter fun found => !found.1.isEmpty

/-- The words behind `t.` that are no column types. -/
def otherStatements : List (List Char) := ["column".toList, "index".toList]

/-- The column statement behind `t.` that names its type. -/
def typed? (cs : List Char) : Option ColumnStatement := do
  let type := cs.takeWhile isWordChar
  guard (!type.isEmpty && !otherStatements.contains type)
  let (name, behind) ← name? (← skipSome? isInlineBlank (cs.dropWhile isWordChar))
  let options ← trailingOptions? behind
  return ⟨String.ofList name, String.ofList type, String.ofList options⟩

/-- The column statement behind `t.column`. -/
def generic? (cs : List Char) : Option ColumnStatement := do
  let (name, behind) ← name? (← skipSome? isInlineBlank cs)
  let next ← after? [','] (behind.dropWhile isInlineBlank)
  let (type, rest) ← name? (next.dropWhile isInlineBlank)
  let options ← trailingOptions? rest
  return ⟨String.ofList name, String.ofList type, String.ofList options⟩

/-- The statements of the form `t.type "name"` in a text, in order. -/
def allTyped (text : String) : List ColumnStatement :=
  (sites "t." text.toList).filterMap fun site => typed? site.rest

/-- The statements of the form `t.column "name", "type"` in a text, in order. -/
def allGeneric (text : String) : List ColumnStatement :=
  (sites "t.column" text.toList).filterMap fun site => generic? site.rest

end ColumnStatement

end RailsSchema
