import RailsSchema.Definition.Field
import RailsSchema.Definition.Index
import RailsSchema.Definition.ForeignKey
import RailsSchema.Statement.Table

/-!
# Tables

A table has the fields and the indexes that its body declares, and a primary key. The key consists
of the columns that the `primary_key` option names; if it names none, the key is the implicit `id`
column, unless the `id` option says that there is none. The index of the key comes first.
-/

namespace RailsSchema

/-- A table. -/
structure Table where
  /-- The options but `id` and `primary_key`, in order. -/
  options : Options
  fields : List Field
  indexes : List Index
  foreignKeys : List ForeignKey
  deriving Repr

namespace Table

/-- The first field of a name. -/
def field? (table : Table) (name : String) : Option Field :=
  table.fields.find? fun field => field.name == name

/-- The columns that a `primary_key` option names; empty names do not count. -/
def keyColumns (primaryKey : Option Value) : List String :=
  let columns :=
    match primaryKey with
    | some (.array items) => items.filterMap Value.name?
    | some (.str name) => [name]
    | some (.symbol name) => [name]
    | _ => []
  columns.filter (· != "")

/-- The `id` option of a table, which is `true` unless it is given. -/
def idOption (options : Options) : Value :=
  (OrderedMap.get? options "id").getD (.keyword .true)

/-- The table with the given options, declared fields and declared indexes. -/
def ofDeclared (options : Options) (fields : List Field) (indexes : List Index) : Table :=
  let others := OrderedMap.erase (OrderedMap.erase options "id") "primary_key"
  match keyColumns (OrderedMap.get? options "primary_key") with
  | [] =>
    if (idOption options).isTruthy then
      ⟨others, Field.implicitId (idOption options) :: fields,
        Index.primaryKey [Field.idName] :: indexes, []⟩
    else ⟨others, fields, indexes, []⟩
  | columns => ⟨others, fields, Index.primaryKey columns :: indexes, []⟩

/-- The table with the given body and the given option text. -/
def read (settings : Settings) (body options : String) : Table :=
  ofDeclared (parseOptions settings options) (Field.all settings body) (Index.all settings body)

/-- The table that a block declares. -/
def ofBlock (settings : Settings) (block : TableBlock) : Table :=
  read settings block.body block.options

/-- Adds a foreign key to those of a table. -/
def addForeignKey (table : Table) (key : ForeignKey) : Table :=
  { table with foreignKeys := table.foreignKeys ++ [key] }

end Table

end RailsSchema
