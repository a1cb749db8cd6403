import RailsSchema.Literal.Listing
import RailsSchema.Value.Display
import RailsSchema.Statement.ForeignKey

/-!
# Foreign keys

A foreign key points from a column of one table to a column of another. Where the statement does not
name the columns, the first is the singular of the other table's name followed by `_id`, and the
second is `id`; an empty name counts as none.
-/

namespace RailsSchema

/-- A foreign key. -/
structure ForeignKey where
  fromTable : String
  toTable : String
  column : String
  toColumn : String
  name : Option String
  /-- The options that are no attributes, in order. -/
  options : Options
  deriving Repr

namespace ForeignKey

/-- The text of an option, an empty text counting as none. -/
def text? (options : Options) (key : String) : Option String :=
  ((OrderedMap.get? options key).map Value.display).filter (· != "")

/-- The foreign key between two tables with the given options; `singular` is how names are brought
into the singular. -/
def ofOptions (singular : String → String) (fromTable toTable : String) (options : Options) :
    ForeignKey where
  fromTable := fromTable
  toTable := toTable
  column := (text? options "column").getD (singular toTable ++ "_id")
  toColumn := (text? options "primary_key").getD "id"
  name := text? options "name"
  options :=
    OrderedMap.erase (OrderedMap.erase (OrderedMap.erase options "column") "primary_key") "name"

/-- The foreign key that a statement declares. -/
def ofStatement (settings : Settings) (singular : String → String)
    (statement : ForeignKeyStatement) : ForeignKey :=
  ofOptions singular statement.fromTable statement.toTable (parseOptions settings statement.options)

/-- The foreign keys that a text declares, wherever they stand. -/
def all (settings : Settings) (singular : String → String) (text : String) : List ForeignKey :=
  (ForeignKeyStatement.all text).map (ofStatement settings singular)

end ForeignKey

end RailsSchema
