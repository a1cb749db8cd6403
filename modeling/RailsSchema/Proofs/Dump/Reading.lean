import RailsSchema.Proofs.Definition.ImplicitId
import RailsSchema.Proofs.Dump.Basic
import RailsSchema.Proofs.Value.Sound

/-!
# What a dump stands for

The schema of a dump, told from the options of its blocks, statements and keys as they are written:
an option is looked up in the list that it stands in, and what is no attribute stays in that list.
No function that reads a schema has a part in it.

* `Value.shown`: how a value shows where a text is asked for;
* `column`, `Statement.index?`, `idColumn`, `Block.table`, `Key.foreignKey`: what one part of a dump
  stands for;
* `Dump.reading`: the schema with its foreign keys, and what is said about those that mention a
  table that is not there;
* `Dump.built_eq_reading`: a dump in canonical form is built into what it stands for.
-/

namespace RailsSchema

open Text

/-! ## Values -/

namespace Value

mutual

/-- How a value shows in a text. -/
def shown : Value → List Char
  | .str text => text.toList
  | .callable source => source.toList
  | .hash entries =>
    Bracket.curly.opening :: (comma.intercalate (shownEntries entries) ++ [Bracket.curly.closing])
  | .array items =>
    Bracket.square.opening :: (comma.intercalate (shownItems items) ++ [Bracket.square.closing])
  | .numeric text => text.toList
  | .symbol name => name.toList
  | .keyword .true => ['t', 'r', 'u', 'e']
  | .keyword .false => ['f', 'a', 'l', 's', 'e']
  | .keyword .nil => ['n', 'u', 'l', 'l']

/-- How the items of a list show. -/
def shownItems : List Value → List (List Char)
  | [] => []
  | item :: items => item.shown :: shownItems items

/-- How the entries of a map show. -/
def shownEntries : List (String × Value) → List (List Char)
  | [] => []
  | (key, value) :: entries => (key.toList ++ ':' :: ' ' :: value.shown) :: shownEntries entries

end

/-- Whether a value is `false`. -/
def isFalse : Value → Bool
  | .keyword .false => true
  | _ => false

/-- Whether a value says no: it is `false` or `nil`. -/
def saysNo : Value → Bool
  | .keyword .false => true
  | .keyword .nil => true
  | _ => false

/-- The word that a value is: a string, a symbol or a numeral. -/
def word? : Value → Option String
  | .str text => some text
  | .symbol name => some name
  | .numeric text => some text
  | _ => none

/-- The words that a value names columns with: its own, if it is a string or a symbol, or those of
its items, if it is a list. -/
def words : Value → List String
  | .array items => items.filterMap word?
  | .str name => [name]
  | .symbol name => [name]
  | _ => []

end Value

namespace Dump

/-! ## Options -/

/-- The options but those of some keys. -/
def without (keys : List String) (options : Options) : Options :=
  options.filter fun option => option.1 ∉ keys

/-- The text that the value of an option shows as. -/
def textOf? (options : Options) (key : String) : Option String :=
  (options.lookup key).map fun value => String.ofList value.shown

/-- The text that the value of an option shows as, if it is not empty. -/
def givenText? (options : Options) (key : String) : Option String :=
  (textOf? options key).filter (· != "")

/-- Whether an option is there and its value does not say no. -/
def isOn (options : Options) (key : String) : Bool :=
  (options.lookup key).any fun value => !value.saysNo

/-! ## Columns and indexes -/

/-- The column of a name and a type with the options of its statement. -/
def column (name type : String) (options : Options) : Field where
  name := name
  type := type
  nullable := !(options.lookup "null").any Value.isFalse
  default := options.lookup "default"
  comment := textOf? options "comment"
  options := without ["null", "default", "comment"] options

namespace Statement

/-- The column of a statement that names the type first. -/
def typedColumn? : Statement → Option Field
  | typed type name options => some (column name type options)
  | _ => none

/-- The column of a statement that names the type last. -/
def genericColumn? : Statement → Option Field
  | generic name type options => some (column name type options)
  | _ => none

def index? : Statement → Option Index
  | index columns options =>
    some ⟨columns, isOn options "unique", textOf? options "name",
      without ["unique", "name"] options⟩
  | _ => none

end Statement

/-! ## Tables -/

/-- The type of an implicit column: what the `id` option is, or what it has as its `type`. -/
def idType : Value → String
  | .str type => type
  | .symbol type => type
  | .hash options => ((options.lookup "type").bind Value.word?).getD "primary_key"
  | _ => "primary_key"

/-- The implicit column for an `id` option. -/
def idColumn (id : Value) : Field :=
  let options := match id with
    | .hash options => options
    | _ => []
  { name := "id"
    type := idType id
    nullable := isOn options "null"
    default := options.lookup "default"
    comment := (textOf? options "comment").or (some "AUTO_INCREMENT")
    options := without ["type", "null", "default", "comment"] options }

/-- The index of a primary key. -/
def keyIndex (columns : List String) : Index := ⟨columns, true, some "PRIMARY_KEY", []⟩

namespace Block

/-- The columns that the `primary_key` option names. -/
def namedKey (block : Block) : List String :=
  ((block.options.lookup "primary_key").elim [] Value.words).filter (· != "")

/-- The `id` option, which is `true` where it is missing. -/
def idOption (block : Block) : Value := (block.options.lookup "id").getD (.keyword .true)

/-- Whether a table has the implicit column: no key is named, and `id` does not say no. -/
def hasId (block : Block) : Bool := block.namedKey.isEmpty && !block.idOption.saysNo

/-- The columns of the primary key; without a key there are none. -/
def keyColumns (block : Block) : List String := if block.hasId then ["id"] else block.namedKey

/-- The table of a block, with its primary key in front of what its statements declare, and without
foreign keys. -/
def table (block : Block) : Table where
  options := without ["id", "primary_key"] block.options
  fields :=
    (if block.hasId then [idColumn block.idOption] else []) ++
      (block.statements.filterMap Statement.genericColumn? ++
        block.statements.filterMap Statement.typedColumn?)
  indexes :=
    (if block.keyColumns = [] then [] else [keyIndex block.keyColumns]) ++
      block.statements.filterMap Statement.index?
  foreignKeys := []

end Block

/-! ## Schemas -/

/-- The foreign key that is declared, its columns going by the name of the table that it points to
unless they are named. -/
def Key.foreignKey (singular : String → String) (key : Key) : ForeignKey where
  fromTable := key.fromTable
  toTable := key.toTable
  column := (givenText? key.options "column").getD (singular key.toTable ++ "_id")
  toColumn := (givenText? key.options "primary_key").getD "id"
  name := givenText? key.options "name"
  options := without ["column", "primary_key", "name"] key.options

def names (dump : Dump) : List String := dump.blocks.map Block.name

/-- The foreign keys of a table: those that point from it to a table of the dump. -/
def keysFrom (singular : String → String) (dump : Dump) (name : String) : List ForeignKey :=
  (dump.keys.filter fun key => key.fromTable = name ∧ key.toTable ∈ dump.names).map
    (Key.foreignKey singular)

/-- What is said about a foreign key if one of its tables is not in the dump. -/
def complaint? (dump : Dump) (key : Key) : Option Diagnostic :=
  if key.fromTable ∉ dump.names then some (.missingSource key.fromTable key.toTable)
  else if key.toTable ∉ dump.names then some (.missingDestination key.fromTable key.toTable)
  else none

/-- What a dump stands for. -/
def reading (singular : String → String) (dump : Dump) : Reading where
  schema := dump.blocks.map fun block =>
    (block.name, { block.table with foreignKeys := dump.keysFrom singular block.name })
  diagnostics := dump.keys.filterMap dump.complaint?

end Dump

/-! ## Values are shown as they are spelled -/

theorem Value.shownItems_eq_map (items : List Value) : shownItems items = items.map shown := by
  induction items with
  | nil => rfl
  | cons item items ih => simp [shownItems, ih]

theorem Value.shownEntries_eq_map (entries : List (String × Value)) :
    shownEntries entries =
      entries.map fun entry => entry.1.toList ++ ':' :: ' ' :: entry.2.shown := by
  induction entries with
  | nil => rfl
  | cons entry entries ih => simp [shownEntries, ih]

/-- The text of a value is what it shows as. -/
theorem Value.toList_display (value : Value) : value.display.toList = value.shown := by
  have hcomma : ", ".toList = comma := rfl
  induction value using Value.induction with
  | hash entries ih =>
    have hentries : (displayEntries entries).map String.toList = shownEntries entries := by
      rw [displayEntries_eq_map, shownEntries_eq_map, List.map_map]
      refine List.map_congr_left fun entry hentry => ?_
      simp [ih entry hentry]
    simp [display, shown, hentries, hcomma, Bracket.opening, Bracket.closing]
  | array items ih =>
    have hitems : (displayItems items).map String.toList = shownItems items := by
      rw [displayItems_eq_map, shownItems_eq_map, List.map_map]
      exact List.map_congr_left fun item hitem => ih item hitem
    simp [display, shown, hitems, hcomma, Bracket.opening, Bracket.closing]
  | keyword word => cases word <;> rfl
  | _ => rfl

theorem Value.isTruthy_eq_not_saysNo (value : Value) : value.isTruthy = !value.saysNo := by
  cases value with
  | keyword word => cases word <;> rfl
  | _ => rfl

theorem Value.name?_eq_word? : Value.name? = Value.word? := by
  funext value
  cases value <;> rfl

namespace Dump

/-! ## Options are found where they are written -/

theorem get?_eq_lookup {α : Type} (m : OrderedMap α) (key : String) :
    OrderedMap.get? m key = m.lookup key := by
  induction m with
  | nil => rfl
  | cons entry m ih =>
    rw [OrderedMap.get?, List.lookup_cons, ih]
    by_cases hkey : entry.1 = key
    · simp [hkey]
    · rw [if_neg hkey, beq_false_of_ne (Ne.symm hkey)]

variable (options : Options)

theorem map_display_lookup (key : String) :
    (options.lookup key).map Value.display = textOf? options key := by
  have hshown : Value.display = fun value => String.ofList value.shown := by
    funext value
    rw [← Value.toList_display, String.ofList_toList]
  rw [hshown, textOf?]

theorem getD_isTruthy_lookup (key : String) :
    ((options.lookup key).map Value.isTruthy).getD false = isOn options key := by
  rw [isOn]
  cases options.lookup key with
  | none => rfl
  | some value => exact value.isTruthy_eq_not_saysNo

theorem text?_eq_givenText? (key : String) :
    ForeignKey.text? options key = givenText? options key := by
  rw [ForeignKey.text?, get?_eq_lookup, map_display_lookup, givenText?]

theorem erase_eq_without (key : String) : OrderedMap.erase options key = without [key] options := by
  simp [OrderedMap.erase, without]

theorem without_without (keys more : List String) :
    without more (without keys options) = without (keys ++ more) options := by
  simp only [without, List.filter_filter]
  refine List.filter_congr fun option _ => ?_
  simp [Bool.and_comm]

/-! ## Columns and indexes are built as they should be -/

theorem ofOptions_eq_column (name type : String) :
    Field.ofOptions name type options = column name type options := by
  refine Field.ext rfl rfl ?_ (get?_eq_lookup options "default") ?_ ?_
  · simp only [Field.ofOptions, column, get?_eq_lookup]
    cases options.lookup "null" with
    | none => rfl
    | some value =>
      cases value with
      | keyword word => cases word <;> rfl
      | _ => rfl
  · simp only [Field.ofOptions, column, get?_eq_lookup, map_display_lookup]
  · simp only [Field.ofOptions, column, erase_eq_without, without_without]
    rfl

theorem builtTyped?_eq (statement : Statement) :
    statement.builtTyped? = statement.typedColumn? := by
  cases statement with
  | typed type name options => exact congrArg some (ofOptions_eq_column options name type)
  | _ => rfl

theorem builtGeneric?_eq (statement : Statement) :
    statement.builtGeneric? = statement.genericColumn? := by
  cases statement with
  | generic name type options => exact congrArg some (ofOptions_eq_column options name type)
  | _ => rfl

theorem builtIndex?_eq (statement : Statement) : statement.builtIndex? = statement.index? := by
  cases statement with
  | index columns options =>
    simp only [Statement.builtIndex?, Statement.index?, Index.ofOptions, get?_eq_lookup,
      getD_isTruthy_lookup, map_display_lookup, erase_eq_without, without_without]
    rfl
  | _ => rfl

/-! ## Tables are built as they should be -/

/-- The entries of an `id` option say of the implicit column what they say of their own, since no
key comes twice. -/
theorem implicitId_hash_eq_idColumn (h : (OrderedMap.keys options).Nodup) :
    Field.implicitId (.hash options) = idColumn (.hash options) := by
  refine Field.ext (Field.name_implicitId options) ?_ ?_ ?_ ?_ (Field.options_implicitId h)
  · rw [Field.type_implicitId h, get?_eq_lookup, Value.name?_eq_word?]
    rfl
  · rw [Field.nullable_implicitId h, get?_eq_lookup, getD_isTruthy_lookup]
    rfl
  · rw [Field.default_implicitId h, get?_eq_lookup]
    rfl
  · rw [Field.comment_implicitId h, get?_eq_lookup, map_display_lookup]
    rfl

theorem implicitId_eq_idColumn {plain : String → Prop} {id : Value} (h : id.Canonical plain) :
    Field.implicitId id = idColumn id := by
  cases id with
  | hash options => exact implicitId_hash_eq_idColumn options h.self.1
  | _ => rfl

theorem keyColumns_eq_namedKey (block : Block) :
    Table.keyColumns (OrderedMap.get? block.options "primary_key") = block.namedKey := by
  rw [get?_eq_lookup, Block.namedKey]
  cases block.options.lookup "primary_key" with
  | none => rfl
  | some value =>
    cases value with
    | array items => rw [Table.keyColumns, Value.name?_eq_word?]; rfl
    | _ => rfl

theorem idOption_eq (block : Block) : Table.idOption block.options = block.idOption := by
  rw [Table.idOption, get?_eq_lookup, Block.idOption]

variable {plain header body foot : String → Prop} {depth : Nat} {block : Block}

theorem canonical_idOption (h : CanonicalOptions plain depth block.options) :
    block.idOption.Canonical plain := by
  rw [← idOption_eq, Table.idOption]
  cases hid : OrderedMap.get? block.options "id" with
  | none => trivial
  | some value => exact h.value _ (OrderedMap.mem_of_get? hid)

/-- A block is built into the table that it stands for. -/
theorem Block.built_eq_table (h : CanonicalOptions plain depth block.options) :
    block.built = block.table := by
  have hcolumn := implicitId_eq_idColumn (canonical_idOption h)
  have htyped : Statement.builtTyped? = Statement.typedColumn? := funext builtTyped?_eq
  have hgeneric : Statement.builtGeneric? = Statement.genericColumn? := funext builtGeneric?_eq
  have hindex : Statement.builtIndex? = Statement.index? := funext builtIndex?_eq
  rw [Block.built, Table.ofDeclared, keyColumns_eq_namedKey, idOption_eq, hcolumn, htyped, hgeneric,
    hindex, erase_eq_without, erase_eq_without, without_without, Value.isTruthy_eq_not_saysNo]
  unfold Block.table Block.keyColumns Block.hasId
  cases block.namedKey with
  | nil => cases block.idOption.saysNo <;> rfl
  | cons name names => rfl

/-! ## Foreign keys are built and given away as they should be -/

theorem Key.built_eq_foreignKey (singular : String → String) (key : Key) :
    key.built singular = key.foreignKey singular := by
  simp only [Key.built, Key.foreignKey, ForeignKey.ofOptions, text?_eq_givenText?,
    erase_eq_without, without_without]
  rfl

theorem contains_builtSchema (dump : Dump) (name : String) :
    OrderedMap.contains dump.builtSchema name = decide (name ∈ dump.names) := by
  have hkeys : OrderedMap.keys dump.builtSchema = dump.names := by
    simp [OrderedMap.keys, builtSchema, names, Function.comp_def]
  rw [Bool.eq_iff_iff, OrderedMap.contains_iff_mem_keys, hkeys, decide_eq_true_iff]

theorem keysOf_eq_keysFrom (singular : String → String) (dump : Dump) (name : String) :
    Schema.keysOf dump.builtSchema (dump.keys.map (Key.built singular)) name =
      dump.keysFrom singular name := by
  have hbuilt : Key.built singular = Key.foreignKey singular :=
    funext (Key.built_eq_foreignKey singular)
  rw [Schema.keysOf, keysFrom, hbuilt, List.filter_map]
  refine congrArg (List.map (Key.foreignKey singular)) (List.filter_congr fun key _ => ?_)
  rw [Function.comp_apply, contains_builtSchema, Bool.decide_and]
  rfl

theorem problem?_eq_complaint? (singular : String → String) (dump : Dump) (key : Key) :
    Schema.problem? dump.builtSchema (key.built singular) = dump.complaint? key := by
  rw [Schema.problem?, complaint?, contains_builtSchema, contains_builtSchema]
  simp only [Bool.not_eq_true', decide_eq_false_iff_not]
  rfl

/-- A dump in canonical form is built into what it stands for. -/
theorem built_eq_reading (singular : String → String) {dump : Dump}
    (h : dump.Canonical header body foot depth) : dump.built singular = dump.reading singular := by
  have hschema : Schema.withKeys dump.builtSchema (dump.keys.map (Key.built singular)) =
      (dump.reading singular).schema := by
    simp only [Schema.withKeys, keysOf_eq_keysFrom]
    rw [builtSchema, List.map_map]
    refine List.map_congr_left fun block hblock => ?_
    rw [Function.comp_apply, Block.built_eq_table (h.blocks block hblock).options]
  have hdiagnostics : (dump.keys.map (Key.built singular)).filterMap
      (Schema.problem? dump.builtSchema) = (dump.reading singular).diagnostics := by
    rw [List.filterMap_map]
    exact List.filterMap_congr fun key _ => problem?_eq_complaint? singular dump key
  rw [built, hschema, hdiagnostics]

end Dump

end RailsSchema
