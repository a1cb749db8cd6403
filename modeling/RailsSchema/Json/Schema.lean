import RailsSchema.Json.Basic
import RailsSchema.Definition.Schema

/-!
# Schemas as JSON

Which tree each definition is written as. The options of a definition are members of its own object,
before the other members of a table and after those of fields, indexes and foreign keys, so an
option may repeat the key of another member. Strings, callables, numerals and symbols are all
strings; an attribute that is absent has no member.
-/

namespace RailsSchema

mutual

/-- A value as a tree. -/
def Value.toJson : Value → Json
  | .str text => .str text
  | .callable source => .str source
  | .numeric text => .str text
  | .symbol name => .str name
  | .keyword .true => .bool true
  | .keyword .false => .bool false
  | .keyword .nil => .null
  | .array items => .arr (Value.itemsToJson items)
  | .hash entries => .obj (Value.entriesToJson entries)

/-- The items of a list as trees. -/
def Value.itemsToJson : List Value → List Json
  | [] => []
  | item :: items => item.toJson :: Value.itemsToJson items

/-- The entries of a map as members. -/
def Value.entriesToJson : List (String × Value) → List (String × Json)
  | [] => []
  | (key, value) :: entries => (key, value.toJson) :: Value.entriesToJson entries

end

/-- A list of texts as a tree. -/
def Json.ofTexts (texts : List String) : Json := .arr (texts.map .str)

/-- The member for an attribute, if the attribute is present. -/
def Json.member? (key : String) (value : Option Json) : List (String × Json) :=
  (value.map fun json => (key, json)).toList

/-- A field as a tree. -/
def Field.toJson (field : Field) : Json :=
  .obj ([("name", .str field.name), ("type", .str field.type), ("nullable", .bool field.nullable)]
    ++ Json.member? "default" (field.default.map Value.toJson)
    ++ Json.member? "comment" (field.comment.map .str)
    ++ Value.entriesToJson field.options)

/-- An index as a tree. -/
def Index.toJson (index : Index) : Json :=
  .obj ([("columns", .ofTexts index.columns), ("unique", .bool index.unique)]
    ++ Json.member? "name" (index.name.map .str)
    ++ Value.entriesToJson index.options)

/-- A foreign key as a tree; the table that holds the key is the one it points from. -/
def ForeignKey.toJson (key : ForeignKey) : Json :=
  .obj ([("toTable", .str key.toTable), ("column", .str key.column),
      ("toColumn", .str key.toColumn)]
    ++ Json.member? "name" (key.name.map .str)
    ++ Value.entriesToJson key.options)

/-- A table as a tree. -/
def Table.toJson (table : Table) : Json :=
  .obj (Value.entriesToJson table.options
    ++ [("fields", .arr (table.fields.map Field.toJson)),
      ("indexes", .arr (table.indexes.map Index.toJson)),
      ("foreignKeys", .arr (table.foreignKeys.map ForeignKey.toJson))])

/-- A schema as a tree. -/
def Schema.toJson (schema : Schema) : Json :=
  .obj (schema.map fun entry => (entry.1, entry.2.toJson))

theorem Value.itemsToJson_eq_map (items : List Value) :
    Value.itemsToJson items = items.map Value.toJson := by
  induction items with
  | nil => rfl
  | cons item items ih => simp [Value.itemsToJson, ih]

theorem Value.entriesToJson_eq_map (entries : List (String × Value)) :
    Value.entriesToJson entries = entries.map fun entry => (entry.1, entry.2.toJson) := by
  induction entries with
  | nil => rfl
  | cons entry entries ih => simp [Value.entriesToJson, ih]

end RailsSchema
