import RailsSchema.Literal.Listing
import RailsSchema.Value.Display
import RailsSchema.Statement.Column

/-!
# Fields

A field is a column of a table. Three options of its statement are attributes of their own: `null`,
`default` and `comment`; the others stay options. `Field.implicitId` is the field that a table has
when its statement does not say otherwise.
-/

namespace RailsSchema

/-- A column of a table. -/
@[ext]
structure Field where
  name : String
  type : String
  nullable : Bool
  default : Option Value
  comment : Option String
  /-- The options that are no attributes, in order. -/
  options : Options
  deriving Repr

namespace Field

/-- The field with the given options: it is nullable unless `null` is `false`, and its comment is
the text of whatever value `comment` has. -/
def ofOptions (name type : String) (options : Options) : Field where
  name := name
  type := type
  nullable :=
    match OrderedMap.get? options "null" with
    | some (.keyword .false) => false
    | _ => true
  default := OrderedMap.get? options "default"
  comment := (OrderedMap.get? options "comment").map Value.display
  options :=
    OrderedMap.erase (OrderedMap.erase (OrderedMap.erase options "null") "default") "comment"

/-- The value of an option. -/
def option? (field : Field) (key : String) : Option Value := OrderedMap.get? field.options key

/-- The field that a column statement declares. -/
def ofStatement (settings : Settings) (statement : ColumnStatement) : Field :=
  ofOptions statement.name statement.type (parseOptions settings statement.options)

/-- The column statements of a table body, those that name the type last coming first. -/
def statements (body : String) : List ColumnStatement :=
  ColumnStatement.allGeneric body ++ ColumnStatement.allTyped body

/-- The fields that a table body declares. -/
def all (settings : Settings) (body : String) : List Field :=
  (statements body).map (ofStatement settings)

/-! ## The implicit key column -/

/-- The name of the implicit key column. -/
def idName : String := "id"

/-- The implicit key column, its type being chosen by the `id` option of the table. -/
def plainId (id : Value) : Field where
  name := idName
  type :=
    match id with
    | .str type => type
    | .symbol type => type
    | _ => "primary_key"
  nullable := false
  default := none
  comment := some "AUTO_INCREMENT"
  options := []

/-- Lets one entry of the `id` option change the implicit key column. -/
def override (field : Field) (entry : String × Value) : Field :=
  match entry.1 with
  | "type" => { field with type := entry.2.name?.getD field.type }
  | "null" => { field with nullable := entry.2.isTruthy }
  | "default" => { field with default := some entry.2 }
  | "comment" => { field with comment := some entry.2.display }
  | key => { field with options := OrderedMap.insert field.options key entry.2 }

/-- The implicit key column of a table with the given `id` option. -/
def implicitId (id : Value) : Field := (id.entries?.getD []).foldl override (plainId id)

end Field

end RailsSchema
