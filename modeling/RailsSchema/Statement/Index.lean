import RailsSchema.Text.Site
import RailsSchema.Text.Bracket

/-!
# Index statements

An index is declared as `t.index [columns], options`. The list of columns may run over several
lines and must not be blank; the options end with the line on which the list ends.
-/

namespace RailsSchema

open Text

/-- An index statement. -/
structure IndexStatement where
  /-- The list of columns as written, brackets included. -/
  columns : String
  /-- The rest of the line, without the comma in front. -/
  options : String
  deriving DecidableEq, Repr

namespace IndexStatement

/-- The index statement behind `t.index`. -/
def read? (cs : List Char) : Option IndexStatement := do
  let list ← skipSome? isBlank cs
  let group ← group? list
  guard (group.bracket = .square && !(trim group.inner).isEmpty)
  let options ← trailingOptions? group.rest
  return ⟨String.ofList (upTo list group.rest), String.ofList options⟩

/-- The index statements in a text, in order. -/
def all (text : String) : List IndexStatement :=
  (sites "t.index" text.toList).filterMap fun site => read? site.rest

end IndexStatement

end RailsSchema
