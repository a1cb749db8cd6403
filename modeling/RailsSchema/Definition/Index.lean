import RailsSchema.Literal.Listing
import RailsSchema.Value.Display
import RailsSchema.Statement.Index

/-!
# Indexes

An index covers some columns of a table. Two options of its statement are attributes of their own:
`unique` and `name`. The index of a primary key is the one with a name set apart for it.
-/

namespace RailsSchema

/-- An index of a table. -/
structure Index where
  columns : List String
  unique : Bool
  name : Option String
  /-- The options that are no attributes, in order. -/
  options : Options
  deriving Repr

namespace Index

/-- The name of the index of a primary key. -/
def primaryKeyName : String := "PRIMARY_KEY"

/-- The index of a primary key on the given columns. -/
def primaryKey (columns : List String) : Index where
  columns := columns
  unique := true
  name := some primaryKeyName
  options := []

/-- Whether an index is that of a primary key. -/
def isPrimaryKey (index : Index) : Bool := index.name == some primaryKeyName

/-- The index on the given columns with the given options. -/
def ofOptions (columns : List String) (options : Options) : Index where
  columns := columns
  unique := ((OrderedMap.get? options "unique").map Value.isTruthy).getD false
  name := (OrderedMap.get? options "name").map Value.display
  options := OrderedMap.erase (OrderedMap.erase options "unique") "name"

/-- The columns that a list names; values that do not read as a name are left out. -/
def columnNames (settings : Settings) (list : String) : List String :=
  (parseArray settings list).filterMap Value.name?

/-- The index that a statement declares, if it names a column. -/
def ofStatement? (settings : Settings) (statement : IndexStatement) : Option Index :=
  match columnNames settings statement.columns with
  | [] => none
  | columns => some (ofOptions columns (parseOptions settings statement.options))

/-- The indexes that a table body declares. -/
def all (settings : Settings) (body : String) : List Index :=
  (IndexStatement.all body).filterMap (ofStatement? settings)

end Index

end RailsSchema
