import RailsSchema.Export
import RailsSchema.Proofs.Json.Text
import RailsSchema.Proofs.Value.Nesting

/-!
# What exports denote

The document that a schema is exported as, said without going through a tree: which members each
definition has, in which order, and what stands under each. An exported text denotes just that
document, whatever the names, options and values of the schema are
(`Schema.read?_exportAs`).

The members are laid out as in the interface of the exports: the options of a table come before its
own members, those of a field, of an index and of a foreign key behind them, and a foreign key does
not say which table it belongs to.
-/

namespace RailsSchema

open Json

mutual

/-- The document that a value is exported as. -/
def Value.document : Value → Document
  | .str text | .callable text | .numeric text | .symbol text => .str text
  | .keyword .true => .bool true
  | .keyword .false => .bool false
  | .keyword .nil => .null
  | .array items => .arr (Value.itemDocuments items)
  | .hash entries => .obj (Value.entryDocuments entries)

/-- The documents of the items of a list. -/
def Value.itemDocuments : List Value → List Document
  | [] => []
  | item :: items => item.document :: Value.itemDocuments items

/-- The members for the entries of a map. -/
def Value.entryDocuments : List (String × Value) → List (String × Document)
  | [] => []
  | (key, value) :: entries => (key, value.document) :: Value.entryDocuments entries

end

/-- The members for options. -/
def Options.members (options : Options) : List (String × Document) :=
  options.map fun option => (option.1, option.2.document)

/-- The members of a field that are not its options. -/
def Field.ownMembers (field : Field) : List (String × Document) :=
  [("name", .str field.name), ("type", .str field.type), ("nullable", .bool field.nullable)] ++
    (field.default.toList.map fun value => ("default", value.document)) ++
    field.comment.toList.map fun text => ("comment", .str text)

/-- The document that a field is exported as. -/
def Field.document (field : Field) : Document := .obj (field.ownMembers ++ field.options.members)

/-- The members of an index that are not its options. -/
def Index.ownMembers (index : Index) : List (String × Document) :=
  [("columns", .arr (index.columns.map .str)), ("unique", .bool index.unique)] ++
    index.name.toList.map fun name => ("name", .str name)

/-- The document that an index is exported as. -/
def Index.document (index : Index) : Document := .obj (index.ownMembers ++ index.options.members)

/-- The members of a foreign key that are not its options. -/
def ForeignKey.ownMembers (key : ForeignKey) : List (String × Document) :=
  [("toTable", .str key.toTable), ("column", .str key.column), ("toColumn", .str key.toColumn)] ++
    key.name.toList.map fun name => ("name", .str name)

/-- The document that a foreign key is exported as. -/
def ForeignKey.document (key : ForeignKey) : Document :=
  .obj (key.ownMembers ++ key.options.members)

/-- The members of a table that are not its options. -/
def Table.ownMembers (table : Table) : List (String × Document) :=
  [("fields", .arr (table.fields.map Field.document)),
    ("indexes", .arr (table.indexes.map Index.document)),
    ("foreignKeys", .arr (table.foreignKeys.map ForeignKey.document))]

/-- The document that a table is exported as. -/
def Table.document (table : Table) : Document := .obj (table.options.members ++ table.ownMembers)

/-- The document that a schema is exported as. -/
def Schema.document (schema : Schema) : Document :=
  .obj (schema.map fun entry => (entry.1, entry.2.document))

/-! ## The trees stand for the documents -/

namespace Value

theorem itemDocuments_eq_map (items : List Value) : itemDocuments items = items.map document := by
  induction items with
  | nil => rfl
  | cons item items ih => rw [itemDocuments, ih, List.map_cons]

theorem entryDocuments_eq_members (entries : Options) :
    entryDocuments entries = Options.members entries := by
  induction entries with
  | nil => rfl
  | cons entry entries ih =>
    rw [entryDocuments, ih]
    rfl

theorem document_toJson (value : Value) : value.toJson.document = value.document := by
  induction value using Value.induction with
  | array items ih =>
    show Document.arr (Json.itemDocuments (itemsToJson items)) = .arr (itemDocuments items)
    rw [Json.itemDocuments_eq_map, itemsToJson_eq_map, itemDocuments_eq_map, List.map_map]
    exact congrArg Document.arr (List.map_congr_left ih)
  | hash entries ih =>
    show Document.obj (memberDocuments (entriesToJson entries)) = .obj (entryDocuments entries)
    rw [memberDocuments_eq_map, entriesToJson_eq_map, entryDocuments_eq_members, List.map_map]
    exact congrArg Document.obj (List.map_congr_left fun entry hentry =>
      congrArg (entry.1, ·) (ih entry hentry))
  | keyword word => cases word <;> rfl
  | _ => rfl

end Value

theorem Options.memberDocuments_entriesToJson (options : Options) :
    memberDocuments (Value.entriesToJson options) = options.members := by
  rw [memberDocuments_eq_map, Value.entriesToJson_eq_map, List.map_map]
  exact List.map_congr_left fun option _ => congrArg (option.1, ·) option.2.document_toJson

theorem Json.memberDocuments_append (members more : List (String × Json)) :
    memberDocuments (members ++ more) = memberDocuments members ++ memberDocuments more := by
  simp only [memberDocuments_eq_map, List.map_append]

theorem Json.memberDocuments_member? (key : String) (value : Option Json) :
    memberDocuments (Json.member? key value) =
      value.toList.map fun json => (key, json.document) := by
  cases value <;> rfl

theorem Field.document_toJson (field : Field) : field.toJson.document = field.document := by
  show Document.obj (memberDocuments _) = .obj (field.ownMembers ++ field.options.members)
  simp only [memberDocuments_append, memberDocuments_member?, Options.memberDocuments_entriesToJson,
    Option.toList_map, List.map_map, Function.comp_def, Value.document_toJson, Field.ownMembers]
  rfl

theorem Index.document_toJson (index : Index) : index.toJson.document = index.document := by
  have hcolumns : (Json.ofTexts index.columns).document = .arr (index.columns.map .str) := by
    show Document.arr (Json.itemDocuments (index.columns.map .str)) = _
    rw [Json.itemDocuments_eq_map, List.map_map]
    rfl
  show Document.obj (memberDocuments _) = .obj (index.ownMembers ++ index.options.members)
  simp only [memberDocuments_append, memberDocuments_member?, Options.memberDocuments_entriesToJson,
    Option.toList_map, List.map_map, Function.comp_def, memberDocuments, hcolumns,
    Index.ownMembers]
  rfl

theorem ForeignKey.document_toJson (key : ForeignKey) : key.toJson.document = key.document := by
  show Document.obj (memberDocuments _) = .obj (key.ownMembers ++ key.options.members)
  simp only [memberDocuments_append, memberDocuments_member?, Options.memberDocuments_entriesToJson,
    Option.toList_map, List.map_map, Function.comp_def, ForeignKey.ownMembers]
  rfl

theorem Table.document_toJson (table : Table) : table.toJson.document = table.document := by
  have hfields := List.map_congr_left fun field (_ : field ∈ table.fields) => field.document_toJson
  have hindexes := List.map_congr_left fun index (_ : index ∈ table.indexes) =>
    index.document_toJson
  have hkeys := List.map_congr_left fun key (_ : key ∈ table.foreignKeys) => key.document_toJson
  show Document.obj (memberDocuments _) = .obj (table.options.members ++ table.ownMembers)
  simp only [memberDocuments_append, Options.memberDocuments_entriesToJson, memberDocuments,
    Json.document, Json.itemDocuments_eq_map, List.map_map, Function.comp_def, hfields, hindexes,
    hkeys, Table.ownMembers]

theorem Schema.document_toJson (schema : Schema) : schema.toJson.document = schema.document := by
  show Document.obj (memberDocuments _) = .obj _
  rw [memberDocuments_eq_map, List.map_map]
  exact congrArg Document.obj (List.map_congr_left fun entry _ =>
    congrArg (entry.1, ·) entry.2.document_toJson)

/-! ## Texts -/

/-- An exported text denotes the document of the schema, and so does the text of each part, with and
without white space. -/
theorem Schema.read?_exportAs (schema : Schema) :
    Document.read? (schema.exportAs .json) = some schema.document ∧
      (∀ table : Table, Document.read? table.toJson.compact = some table.document ∧
        Document.read? table.toJson.pretty = some table.document) ∧
      (∀ field : Field, Document.read? field.toJson.compact = some field.document ∧
        Document.read? field.toJson.pretty = some field.document) ∧
      ∀ value : Value, Document.read? value.toJson.compact = some value.document ∧
        Document.read? value.toJson.pretty = some value.document := by
  refine ⟨?_, fun table => ?_, fun field => ?_, fun value => ?_⟩
  · show Document.read? schema.toJson.pretty = _
    rw [read?_pretty, schema.document_toJson]
  · rw [read?_compact, read?_pretty, table.document_toJson]
    exact ⟨rfl, rfl⟩
  · rw [read?_compact, read?_pretty, field.document_toJson]
    exact ⟨rfl, rfl⟩
  · rw [read?_compact, read?_pretty, value.document_toJson]
    exact ⟨rfl, rfl⟩

end RailsSchema
