import RailsSchema.Report.ColumnType
import RailsSchema.Definition.Schema

/-!
# Rows of the report

What the report says of a field, of an index and of a foreign key, cell by cell, in the order of the
headers. The last cell lists some of the options, and is the only one in which line breaks are
replaced.
-/

namespace RailsSchema

/-- The mark for what holds. -/
def yesIf (holds : Bool) : String := if holds then "Yes" else ""

/-- The text of an option with its key in front. -/
def describeOption? (options : Options) (key : String) : Option String :=
  (OrderedMap.get? options key).map fun value => key ++ ": " ++ value.display

/-- The options with the given keys that are present, in the order of the keys and on one line. -/
def describeOptions (keys : List String) (options : Options) : String :=
  (", ".intercalate (keys.filterMap (describeOption? options))).map fun c =>
    if c = '\n' then ' ' else c

namespace Field

/-- What the cells of a field's row say. -/
def headers : List String :=
  ["Field Name", "Data Type", "Default", "Not Null?", "Notes", "Others"]

/-- The row of a field. -/
def row (field : Field) : List String :=
  [field.name,
   field.displayType,
   (field.default.map Value.display).getD "",
   yesIf !field.nullable,
   field.comment.getD "",
   describeOptions ["precision", "scale", "collation"] field.options]

end Field

namespace Index

/-- What the cells of an index's row say. -/
def headers : List String := ["Index Name", "Column", "Unique?", "Notes"]

/-- The row of an index. -/
def row (index : Index) : List String :=
  [index.name.getD "",
   ", ".intercalate index.columns,
   yesIf index.unique,
   describeOptions ["order", "length", "where"] index.options]

end Index

namespace ForeignKey

/-- What the cells of a foreign key's row say. -/
def headers : List String :=
  ["Foreign Key", "Column", "Destination", "Destination Column", "Notes"]

/-- The row of a foreign key. -/
def row (key : ForeignKey) : List String :=
  [key.name.getD "",
   key.column,
   key.toTable,
   key.toColumn,
   describeOptions ["on_delete", "on_update", "validate"] key.options]

end ForeignKey

end RailsSchema
