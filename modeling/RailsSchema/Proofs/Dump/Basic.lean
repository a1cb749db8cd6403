import RailsSchema.Proofs.Definition.Resolution
import RailsSchema.Proofs.Literal.RoundTrip
import RailsSchema.Proofs.Text.Probes

/-!
# Schema dumps

A dump is a schema on its way to a text: blocks with their statements, and foreign keys behind them.

* `Dump.text`: the canonical text, with one statement on each line;
* `Dump.built`: what becomes of a dump once its statements are found, which is not said here but
  left to the functions that build fields, indexes, tables and keys from options;
* `Dump.Canonical`: names are words, option keys are distinct words, values nest no deeper than a
  given depth, and strings are plain, whatever that means at their place;
* `Dump.WellFormed`: strings contain none of the barred words.
-/

namespace RailsSchema

open Text

/-- Whether a text contains none of the barred words. -/
def IsPlain (text : String) : Prop :=
  ∀ word ∈ barredWords, ¬ word.toList <:+: text.toList

instance (text : String) : Decidable (IsPlain text) := inferInstanceAs (Decidable (∀ _ ∈ _, _))

namespace Value

/-- Whether a value may stand in a dump, provided that its members may. -/
def IsCanonical (plain : String → Prop) : Value → Prop
  | .str text => '"' ∉ text.toList ∧ '\n' ∉ text.toList ∧ plain text
  | .callable source => IsCallable source.toList ∧ '\n' ∉ source.toList ∧ IsPlain source
  | .hash entries =>
    (OrderedMap.keys entries).Nodup ∧ ∀ key ∈ OrderedMap.keys entries, IsWord key.toList
  | .array _ => True
  | .numeric text => Numeral.IsCanonical text.toList
  | .symbol name => IsWord name.toList ∧ Keyword.ofWord? name = none
  | .keyword _ => True

/-- Whether a value may stand in a dump. -/
def Canonical (plain : String → Prop) (value : Value) : Prop := value.Each (IsCanonical plain)

/-- The value that is read where a value was written: a filter has dropped items of its lists. -/
def under (filter : ArrayFilter) (value : Value) : Value := value.labelled.literal.value filter

end Value

namespace Dump

/-- A statement in a block. -/
inductive Statement where
  /-- `t.type "name", options` -/
  | typed (type name : String) (options : Options)
  /-- `t.column "name", "type", options` -/
  | generic (name type : String) (options : Options)
  /-- `t.index ["column", …], options` -/
  | index (columns : List String) (options : Options)

/-- A table with the statements that declare its columns and indexes. -/
structure Block where
  name : String
  options : Options
  statements : List Statement

/-- A foreign key. -/
structure Key where
  fromTable : String
  toTable : String
  options : Options

end Dump

/-- A schema on its way to a text. -/
structure Dump where
  blocks : List Dump.Block
  keys : List Dump.Key

namespace Dump

/-! ## The text -/

def quoted (name : String) : List Char := '"' :: (name.toList ++ ['"'])

/-- An option, its key written as a label. -/
def optionText (option : String × Value) : List Char :=
  KeyForm.label.text option.1 ++ option.2.labelled.text

/-- Options as they stand behind what they belong to, each behind a comma. -/
def optionsText (options : Options) : List Char :=
  options.flatMap fun option => comma ++ optionText option

namespace Statement

def options : Statement → Options
  | typed _ _ options => options
  | generic _ _ options => options
  | index _ options => options

/-- The word behind `t.` -/
def word : Statement → String
  | typed type _ _ => type
  | generic .. => "column"
  | index .. => "index"

/-- What stands between the word of a statement and its options. -/
def subject : Statement → List Char
  | typed _ name _ => quoted name
  | generic name type _ => quoted name ++ (comma ++ quoted type)
  | index columns _ => '[' :: (comma.intercalate (columns.map quoted) ++ [']'])

def text (statement : Statement) : List Char :=
  't' :: '.' :: (statement.word.toList ++
    ' ' :: (statement.subject ++ optionsText statement.options))

def line (statement : Statement) : List Char := '\n' :: ' ' :: ' ' :: statement.text

end Statement

/-- A block up to the `do` that opens it. -/
def Block.head (block : Block) : List Char :=
  "create_table ".toList ++ (quoted block.name ++ (optionsText block.options ++ [' ']))

def Block.text (block : Block) : List Char :=
  block.head ++
    ("do |t|".toList ++ (block.statements.flatMap Statement.line ++ "\nend\n".toList))

def Key.text (key : Key) : List Char :=
  "add_foreign_key ".toList ++
    (quoted key.fromTable ++ (comma ++ (quoted key.toTable ++ (optionsText key.options ++ ['\n']))))

/-- The canonical text of a dump. -/
def text (dump : Dump) : List Char :=
  dump.blocks.flatMap Block.text ++ dump.keys.flatMap Key.text

/-! ## What is built -/

/-- The column that is built for a statement that names the type first. -/
def Statement.builtTyped? : Statement → Option Field
  | typed type name options => some (Field.ofOptions name type options)
  | _ => none

/-- The column that is built for a statement that names the type last. -/
def Statement.builtGeneric? : Statement → Option Field
  | generic name type options => some (Field.ofOptions name type options)
  | _ => none

def Statement.builtIndex? : Statement → Option Index
  | index columns options => some (Index.ofOptions columns options)
  | _ => none

/-- The table that is built for a block. -/
def Block.built (block : Block) : Table :=
  Table.ofDeclared block.options
    (block.statements.filterMap Statement.builtGeneric? ++
      block.statements.filterMap Statement.builtTyped?)
    (block.statements.filterMap Statement.builtIndex?)

def Key.built (singular : String → String) (key : Key) : ForeignKey :=
  ForeignKey.ofOptions singular key.fromTable key.toTable key.options

def builtSchema (dump : Dump) : Schema := dump.blocks.map fun block => (block.name, block.built)

/-- What is built if every statement of a dump is found with the options that it has. -/
def built (singular : String → String) (dump : Dump) : Reading :=
  let keys := dump.keys.map (Key.built singular)
  ⟨Schema.withKeys dump.builtSchema keys, keys.filterMap (Schema.problem? dump.builtSchema)⟩

/-! ## Options changed throughout -/

def Statement.mapOptions (f : Options → Options) : Statement → Statement
  | typed type name options => typed type name (f options)
  | generic name type options => generic name type (f options)
  | index columns options => index columns (f options)

def Block.mapOptions (f : Options → Options) (block : Block) : Block where
  name := block.name
  options := f block.options
  statements := block.statements.map (Statement.mapOptions f)

def Key.mapOptions (f : Options → Options) (key : Key) : Key :=
  { key with options := f key.options }

def optionsUnder (filter : ArrayFilter) (options : Options) : Options :=
  options.map fun option => (option.1, option.2.under filter)

/-- A dump with the values that are read where its values were written. -/
def under (filter : ArrayFilter) (dump : Dump) : Dump where
  blocks := dump.blocks.map (Block.mapOptions (optionsUnder filter))
  keys := dump.keys.map (Key.mapOptions (optionsUnder filter))

/-! ## Canonical dumps -/

variable (plain header body foot : String → Prop) (depth : Nat)

/-- Whether options may stand in a dump. -/
structure CanonicalOptions (options : Options) : Prop where
  nodup : (OrderedMap.keys options).Nodup
  word : ∀ option ∈ options, IsWord option.1.toList
  value : ∀ option ∈ options, option.2.Canonical plain
  depth_le : ∀ option ∈ options, option.2.depth ≤ depth

def Statement.CanonicalSubject : Statement → Prop
  | typed type name _ =>
    IsWord type.toList ∧ type ≠ "column" ∧ type ≠ "index" ∧ IsWord name.toList
  | generic name type _ => IsWord name.toList ∧ IsWord type.toList
  | index columns _ => columns ≠ [] ∧ ∀ column ∈ columns, IsWord column.toList

structure Statement.Canonical (statement : Statement) : Prop where
  subject : statement.CanonicalSubject
  options : CanonicalOptions plain depth statement.options

structure Block.Canonical (block : Block) : Prop where
  name : IsWord block.name.toList
  options : CanonicalOptions header depth block.options
  statements : ∀ statement ∈ block.statements, statement.Canonical body depth

structure Key.Canonical (key : Key) : Prop where
  fromTable : IsWord key.fromTable.toList
  toTable : IsWord key.toTable.toList
  options : CanonicalOptions foot depth key.options

/-- Whether a dump is in canonical form, strings being plain in the sense of their place: in the
options of a block, of a statement, or of a foreign key. -/
structure Canonical (dump : Dump) : Prop where
  nodup : (dump.blocks.map Block.name).Nodup
  blocks : ∀ block ∈ dump.blocks, block.Canonical header body depth
  keys : ∀ key ∈ dump.keys, key.Canonical foot depth

/-- Whether a dump is in canonical form and its strings contain no barred word. -/
def WellFormed (dump : Dump) : Prop := dump.Canonical IsPlain IsPlain IsPlain depth

end Dump

end RailsSchema
