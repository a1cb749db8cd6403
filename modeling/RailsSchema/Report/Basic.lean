import RailsSchema.Report.Rows
import RailsSchema.Text.Width

/-!
# The text report

The report shows each table as its name and up to three sections of aligned columns: fields always,
indexes and foreign keys if there are any. A blank line parts the tables. Each column is as wide as
its widest cell, in whatever measure of width the style has.
-/

namespace RailsSchema

namespace Report

/-- How a report is laid out. -/
structure Style where
  /-- The number of spaces before each line of a section. -/
  indent : Nat := 2
  /-- How wide a text is. -/
  width : String → Nat := Text.columns

/-- A titled block of aligned columns. -/
structure Section where
  title : String
  headers : List String
  rows : List (List String)

/-- A text of one character, several times. -/
def fill (n : Nat) (c : Char) : String := String.ofList (List.replicate n c)

/-- The widths of columns that take in one more row. -/
def widen (width : String → Nat) (widths : List Nat) (row : List String) : List Nat :=
  List.zipWith (fun w cell => max w (width cell)) widths row

/-- The width of each column of a section. -/
def Section.widths (style : Style) (s : Section) : List Nat :=
  s.rows.foldl (widen style.width) (s.headers.map style.width)

/-- A cell filled up to the width of its column, and the bar behind it. -/
def cellText (style : Style) (cell : String) (width : Nat) : String :=
  " " ++ cell ++ fill (width - style.width cell) ' ' ++ " |"

/-- A line of cells. -/
def lineText (style : Style) (widths : List Nat) (cells : List String) : String :=
  fill style.indent ' ' ++ "|" ++ String.join (List.zipWith (cellText style) cells widths)

/-- The lines of a section: its title, the headers, a rule and the rows. -/
def Section.lines (style : Style) (s : Section) : List String :=
  let widths := s.widths style
  (fill style.indent ' ' ++ s.title)
    :: lineText style widths s.headers
    :: lineText style widths (widths.map (fill · '-'))
    :: s.rows.map (lineText style widths)

/-- The sections of a table. -/
def sections (table : Table) : List Section :=
  let fields : Section := ⟨"FIELDS", Field.headers, table.fields.map Field.row⟩
  let indexes : Section := ⟨"INDEXES", Index.headers, table.indexes.map Index.row⟩
  let keys : Section := ⟨"FOREIGN KEYS", ForeignKey.headers, table.foreignKeys.map ForeignKey.row⟩
  fields :: [indexes, keys].filter fun s => !s.rows.isEmpty

/-- The lines of a table: its name and its sections. -/
def tableLines (style : Style) (entry : String × Table) : List String :=
  entry.1 :: (sections entry.2).flatMap (Section.lines style)

/-- The lines of a report, with a blank one between two tables. -/
def lines (style : Style) (schema : Schema) : List String :=
  [""].intercalate (schema.map (tableLines style))

/-- The text of a report. -/
def render (style : Style) (schema : Schema) : String :=
  String.join ((lines style schema).map (· ++ "\n"))

end Report

end RailsSchema
