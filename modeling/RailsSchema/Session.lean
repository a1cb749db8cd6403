import RailsSchema.Export

/-!
# Readers and their callers

`SchemaReader` is the parser that the library offers: settings and a way to form singulars, of which
each can be replaced by itself. `Reading.same` is the equality of outcomes: it goes through all
fields of a definition in turn, lists count in order, and maps, those of tables and of options, do
not.

A `Session` is a caller of the library, a program that stays up between calls. It holds a reader and
the last outcome, looks tables and fields up in the outcome, and tells whether a text that it reads
makes a difference to it. Replacing something in a reader uses the reader up. So a caller that has
taken its reader out to give it other settings, and finds that the name of a filter is refused, is
left with the reader that it began with.
-/

namespace RailsSchema

/-- How texts are read. -/
structure SchemaReader where
  settings : Settings := {}
  singular : String → String := English.singular

/-- The schema that a text declares, and what is wrong with it. -/
def SchemaReader.read (reader : SchemaReader) (text : String) : Reading :=
  Schema.read reader.settings reader.singular text

/-! ## Sameness -/

/-- Whether two optional things are both absent, or both present and the same. -/
def sameOption {α : Type} (same : α → α → Bool) : Option α → Option α → Bool
  | none, none => true
  | some a, some b => same a b
  | _, _ => false

/-- Whether two lists are the same, item by item. -/
def sameList {α : Type} (same : α → α → Bool) : List α → List α → Bool
  | [], [] => true
  | a :: as, b :: bs => same a b && sameList same as bs
  | _, _ => false

/-- Whether two fields are the same; the order of options does not count. -/
def Field.same (a b : Field) : Bool :=
  a.name == b.name && a.type == b.type && a.nullable == b.nullable
    && sameOption Value.same a.default b.default && a.comment == b.comment
    && Options.same a.options b.options

/-- Whether two indexes are the same; the order of options does not count. -/
def Index.same (a b : Index) : Bool :=
  a.columns == b.columns && a.unique == b.unique && a.name == b.name
    && Options.same a.options b.options

/-- Whether two foreign keys are the same; the order of options does not count. -/
def ForeignKey.same (a b : ForeignKey) : Bool :=
  a.fromTable == b.fromTable && a.toTable == b.toTable && a.column == b.column
    && a.toColumn == b.toColumn && a.name == b.name && Options.same a.options b.options

/-- Whether two tables are the same; the order of options does not count. -/
def Table.same (a b : Table) : Bool :=
  Options.same a.options b.options && sameList Field.same a.fields b.fields
    && sameList Index.same a.indexes b.indexes
    && sameList ForeignKey.same a.foreignKeys b.foreignKeys

/-- Whether two schemas have the same tables, in whatever order. -/
def Schema.same (a b : Schema) : Bool :=
  a.length == b.length && a.all fun entry =>
    match OrderedMap.get? b entry.1 with
    | some table => entry.2.same table
    | none => false

/-- Whether two outcomes are the same; diagnostics count in order. -/
def Reading.same (a b : Reading) : Bool :=
  Schema.same a.schema b.schema && a.diagnostics == b.diagnostics

/-! ## The caller -/

/-- What a caller holds: a reader and the outcome of the last text read with it. -/
structure Session where
  reader : SchemaReader := {}
  reading : Reading := {}

namespace Session

/-- Gives the reader the settings with the filter of a name and with a depth, and answers with
them. A name that no filter has puts the whole reader back to what it was at first. In either case
the outcome stays. -/
def configure (session : Session) (arrayFilter : Option String) (maxDepth : Option Nat) :
    Option Settings × Session :=
  match Settings.ofNames? arrayFilter maxDepth with
  | some settings =>
    (some settings, { session with reader := { session.reader with settings := settings } })
  | none => (none, { session with reader := {} })

/-- Changes how singulars are formed; the outcome stays. -/
def inflect (session : Session) (singular : String → String) : Session :=
  { session with reader := { session.reader with singular := singular } }

/-- The default column that a foreign key to a table gets. -/
def defaultColumn (session : Session) (toTable : String) : String :=
  (ForeignKey.ofOptions session.reader.singular "" toTable []).column

/-- Reads a text, and tells whether the outcome is the same as the last one. -/
def read (session : Session) (text : String) : Bool × Session :=
  let reading := session.reader.read text
  (reading.same session.reading, { session with reading := reading })

/-- The table of a name. -/
def table? (session : Session) (name : String) : Option Table :=
  OrderedMap.get? session.reading.schema name

/-- The first field of a name in the table of a name. -/
def field? (session : Session) (table name : String) : Option Field :=
  (session.table? table).bind fun found => found.field? name

end Session

end RailsSchema
