import RailsSchema.Definition.Schema

/-!
# Events of a reading

What reading a schema has to say besides its outcome: where option lists were cut short, which
tables were defined again, and which foreign keys were left out. `Schema.events` lists them in the
order in which reading meets them.
-/

namespace RailsSchema

/-- Something that reading a schema has to say. -/
inductive Event where
  /-- The rest of an option list was dropped. -/
  | cut (cut : Cut)
  /-- A table of this name was there already. -/
  | redefined (table : String)
  /-- A foreign key was left out. -/
  | unresolved (diagnostic : Diagnostic)
  deriving DecidableEq, Repr

/-- The cuts met in reading an index statement; its options are read only if it names a column. -/
def IndexStatement.cuts (settings : Settings) (statement : IndexStatement) : List Cut :=
  arrayCuts settings statement.columns ++
    if (Index.columnNames settings statement.columns).isEmpty then []
    else optionCuts settings statement.options

/-- The cuts met in reading a table: in its fields, in its indexes, in its own options. -/
def TableBlock.cuts (settings : Settings) (block : TableBlock) : List Cut :=
  (Field.statements block.body).flatMap (fun statement => optionCuts settings statement.options)
    ++ (IndexStatement.all block.body).flatMap (IndexStatement.cuts settings)
    ++ optionCuts settings block.options

/-- The events of reading some blocks when tables with the names `seen` have been read. -/
def TableBlock.events (settings : Settings) : (seen : List String) → List TableBlock → List Event
  | _, [] => []
  | seen, block :: blocks =>
    (block.cuts settings).map .cut
      ++ (if seen.contains block.name then [.redefined block.name] else [])
      ++ TableBlock.events settings (block.name :: seen) blocks

/-- The events of reading a text, whose diagnostics are those given. -/
def Schema.events (settings : Settings) (text : String) (diagnostics : List Diagnostic) :
    List Event :=
  TableBlock.events settings [] (TableBlock.all text)
    ++ (ForeignKeyStatement.all text).flatMap (fun statement =>
      (optionCuts settings statement.options).map .cut)
    ++ diagnostics.map .unresolved

end RailsSchema
