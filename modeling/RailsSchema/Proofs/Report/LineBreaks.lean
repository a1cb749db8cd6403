import RailsSchema.Proofs.Definition.OneLine
import RailsSchema.Proofs.Report.Columns
import Mathlib.Algebra.BigOperators.Group.List.Basic

/-!
# One line for each row

If no text in it has a line break, a report has a line for the name of each table, three lines above
the rows of each section, a line for each row, and a blank line between two tables. What a schema
has been read from decides which texts can have one: of all cells, only that of the columns of an
index, whose list can run over several lines, and that of the column of a foreign key, if the
inflection of a table's name puts one in. Each line break in such a cell makes the report a line
longer.

* `rowBreaks`: the line breaks in the cells of a row, which those of fields do not have
  (`Field.OneLine.rowBreaks_row`);
* `Report.lineBreaks_render`: the line breaks in any report;
* `Report.lineBreaks_render_read`: those in the report of a schema that is read from a text.
-/

namespace RailsSchema

open Text

/-! ## Cells -/

/-- The number of line breaks in the cells of a row. -/
def rowBreaks (cells : List String) : Nat := (cells.map lineBreaks).sum

theorem rowBreaks_eq_zero_iff {cells : List String} :
    rowBreaks cells = 0 ↔ ∀ cell ∈ cells, Text.OneLine cell := by
  rw [rowBreaks, List.sum_eq_zero_iff_forall_eq_nat, List.forall_mem_map]
  exact forall₂_congr fun _ _ => lineBreaks_eq_zero_iff

theorem oneLine_toString_nat (n : Nat) : Text.OneLine (toString n) := by
  intro hmem
  have hdigits : '\n' ∈ Nat.toDigits 10 n := by rwa [← Nat.toList_repr]
  exact absurd (Nat.isDigit_of_mem_toDigits (by decide) (by decide) hdigits) (by decide)

theorem oneLine_toString_int (n : Int) : Text.OneLine (toString n) := by
  cases n with
  | ofNat n => exact oneLine_toString_nat n
  | negSucc n => exact (by decide : Text.OneLine "-").append (oneLine_toString_nat (n + 1))

/-- Where options are listed, line breaks are replaced. -/
theorem oneLine_describeOptions (keys : List String) (options : Options) :
    Text.OneLine (describeOptions keys options) := by
  intro hmem
  rw [describeOptions, String.toList_map] at hmem
  obtain ⟨c, -, hc⟩ := List.mem_map.mp hmem
  split at hc
  · exact absurd hc (by decide)
  · next hne => exact hne hc

theorem oneLine_yesIf (holds : Bool) : Text.OneLine (yesIf holds) := by
  cases holds <;> decide

theorem oneLine_getD {text? : Option String} (h : ∀ text ∈ text?, Text.OneLine text) :
    Text.OneLine (text?.getD "") := by
  cases text? with
  | none => exact (by decide : Text.OneLine "")
  | some text => exact h text rfl

namespace Field

theorem OneLine.sizedType {field : Field} (h : field.OneLine) : Text.OneLine field.sizedType := by
  have hsize : Text.OneLine (((field.option? "size").map Value.display).getD "") :=
    oneLine_getD fun _ hsize => h.options.display hsize
  have hbase : Text.OneLine (if field.type = "string" then "varchar" else field.type) := by
    split
    · decide
    · exact h.type
  unfold Field.sizedType
  refine ((hsize.append hbase).append ?_).append ?_
  · split
    · exact ((by decide : Text.OneLine "(").append (oneLine_toString_int _)).append (by decide)
    · decide
  · split <;> decide

theorem OneLine.displayType {field : Field} (h : field.OneLine) :
    Text.OneLine field.displayType := by
  unfold Field.displayType
  split
  · exact h.sizedType
  split
  · decide
  split
  · decide
  · exact h.type

theorem OneLine.rowBreaks_row {field : Field} (h : field.OneLine) : rowBreaks field.row = 0 := by
  have hdefault : Text.OneLine ((field.default.map Value.display).getD "") := by
    refine oneLine_getD fun text htext => ?_
    obtain ⟨value, hvalue, rfl⟩ := Option.map_eq_some_iff.mp htext
    exact (h.default value hvalue).display
  rw [rowBreaks_eq_zero_iff, row]
  simp only [List.forall_mem_cons]
  exact ⟨h.name, h.displayType, hdefault, oneLine_yesIf _, oneLine_getD h.comment,
    oneLine_describeOptions _ _, List.forall_mem_nil _⟩

end Field

theorem Index.rowBreaks_row {index : Index} (h : ∀ name ∈ index.name, Text.OneLine name) :
    rowBreaks index.row = rowBreaks index.columns := by
  have hcolumns := lineBreaks_intercalate (by decide : Text.OneLine ", ") index.columns
  simp only [rowBreaks, row, List.map_cons, List.map_nil, List.sum_cons, List.sum_nil,
    (oneLine_getD h).lineBreaks, (oneLine_yesIf _).lineBreaks,
    (oneLine_describeOptions _ _).lineBreaks, hcolumns]
  omega

theorem ForeignKey.OneLine.rowBreaks_row {key : ForeignKey} (h : key.OneLine) :
    rowBreaks key.row = lineBreaks key.column := by
  simp only [rowBreaks, row, List.map_cons, List.map_nil, List.sum_cons, List.sum_nil,
    (oneLine_getD h.name).lineBreaks, h.toTable.lineBreaks, h.toColumn.lineBreaks,
    (oneLine_describeOptions _ _).lineBreaks]
  omega

namespace Report

variable (style : Style)

/-! ## Lines -/

theorem oneLine_fill (n : Nat) {c : Char} (hc : c ≠ '\n') : Text.OneLine (fill n c) :=
  oneLine_ofList.mpr fun hmem => hc (List.eq_of_mem_replicate hmem).symm

theorem lineBreaks_cellText (cell : String) (width : Nat) :
    lineBreaks (cellText style cell width) = lineBreaks cell := by
  rw [cellText, lineBreaks_append, lineBreaks_append, lineBreaks_append,
    (oneLine_fill _ (by decide)).lineBreaks]
  exact Nat.zero_add _

/-- The line breaks in a line are those in its cells. -/
theorem lineBreaks_lineText {widths : List Nat} {cells : List String}
    (hlength : cells.length = widths.length) :
    lineBreaks (lineText style widths cells) = rowBreaks cells := by
  have hcells : (List.zipWith (cellText style) cells widths).map lineBreaks =
      cells.map lineBreaks := by
    rw [List.map_zipWith]
    simp only [lineBreaks_cellText]
    conv_rhs => rw [← List.map_fst_zip hlength.le, List.map_map]
    exact (List.map_uncurry_zip_eq_zipWith ..).symm
  have hbar : lineBreaks "|" = 0 := by decide
  rw [lineText, lineBreaks_append, lineBreaks_append, (oneLine_fill _ (by decide)).lineBreaks, hbar,
    lineBreaks_join, hcells, rowBreaks, Nat.zero_add]

/-- The line breaks in lines of which each has one more at its end. -/
def linesBreaks (lines : List String) : Nat := (lines.map fun line => lineBreaks line + 1).sum

theorem linesBreaks_cons (line : String) (lines : List String) :
    linesBreaks (line :: lines) = lineBreaks line + 1 + linesBreaks lines := by
  rw [linesBreaks, List.map_cons, List.sum_cons]
  rfl

theorem linesBreaks_append (lines more : List String) :
    linesBreaks (lines ++ more) = linesBreaks lines + linesBreaks more := by
  rw [linesBreaks, List.map_append, List.sum_append]
  rfl

theorem linesBreaks_flatMap {α : Type} (f : α → List String) (parts : List α) :
    linesBreaks (parts.flatMap f) = (parts.map fun part => linesBreaks (f part)).sum := by
  induction parts with
  | nil => rfl
  | cons part parts ih =>
    rw [List.flatMap_cons, linesBreaks_append, ih, List.map_cons, List.sum_cons]

theorem linesBreaks_intercalate (parts : List (List String)) :
    linesBreaks ([""].intercalate parts) = (parts.map linesBreaks).sum + (parts.length - 1) := by
  induction parts with
  | nil => rfl
  | cons part parts ih =>
    match parts, ih with
    | [], _ => simp
    | other :: parts, ih =>
      rw [List.intercalate_cons_cons, linesBreaks_append, linesBreaks_append, ih]
      simp only [List.map_cons, List.sum_cons, List.length_cons]
      have hblank : linesBreaks [""] = 1 := by decide
      omega

theorem lineBreaks_render_eq (schema : Schema) :
    lineBreaks (render style schema) = linesBreaks (lines style schema) := by
  have hend (line : String) : lineBreaks (line ++ "\n") = lineBreaks line + 1 :=
    lineBreaks_append line "\n"
  rw [render, lineBreaks_join, List.map_map, linesBreaks]
  exact congrArg List.sum (List.map_congr_left fun line _ => hend line)

/-! ## Sections, tables and reports -/

section

variable {α : Type} {title : String} {headers : List String} {row : α → List String}
  (htitle : Text.OneLine title) (hheaders : rowBreaks headers = 0)
  (hrow : ∀ a, (row a).length = headers.length) (as : List α)

include htitle hheaders hrow

/-- A section has three lines and one for each row, and one more for each line break in a row. -/
theorem linesBreaks_section :
    linesBreaks (Section.lines style ⟨title, headers, as.map row⟩) =
      3 + as.length + (as.map fun a => rowBreaks (row a)).sum := by
  let s : Section := ⟨title, headers, as.map row⟩
  have hwidths : (s.widths style).length = headers.length :=
    s.length_widths style (List.forall_mem_map.mpr fun a _ => hrow a)
  have hrule : rowBreaks (ruleCells (s.widths style)) = 0 := by
    rw [rowBreaks_eq_zero_iff, ruleCells, List.forall_mem_map]
    exact fun w _ => oneLine_fill w (by decide)
  have hline (a) : lineBreaks (lineText style (s.widths style) (row a)) + 1 =
      rowBreaks (row a) + 1 := by
    rw [lineBreaks_lineText style ((hrow a).trans hwidths.symm)]
  have hbelow : linesBreaks ((as.map row).map (lineText style (s.widths style))) =
      (as.map fun a => rowBreaks (row a)).sum + as.length := by
    have hones : (as.map fun _ => 1).sum = as.length := by
      rw [List.map_const', List.sum_replicate_nat, Nat.mul_one]
    rw [linesBreaks, List.map_map, List.map_map, ← hones, ← List.sum_map_add]
    exact congrArg List.sum (List.map_congr_left fun a _ => hline a)
  have hlines : s.lines style = (fill style.indent ' ' ++ title) ::
      lineText style (s.widths style) headers ::
      lineText style (s.widths style) (ruleCells (s.widths style)) ::
      (as.map row).map (lineText style (s.widths style)) := rfl
  show linesBreaks (s.lines style) = _
  rw [hlines, linesBreaks_cons, linesBreaks_cons, linesBreaks_cons, hbelow, lineBreaks_append,
    (oneLine_fill _ (by decide)).lineBreaks, htitle.lineBreaks,
    lineBreaks_lineText style hwidths.symm, hheaders,
    lineBreaks_lineText style (by rw [ruleCells, List.length_map]), hrule]
  omega

/-- A section that is left out if it has no rows. -/
theorem linesBreaks_filter_section :
    (([⟨title, headers, as.map row⟩].filter fun s : Section => !s.rows.isEmpty).map fun s =>
        linesBreaks (s.lines style)).sum =
      (if as.isEmpty then 0 else 3 + as.length) + (as.map fun a => rowBreaks (row a)).sum := by
  have hsection := linesBreaks_section style htitle hheaders hrow as
  -- without rows there are no breaks in them either
  cases as with
  | nil => rfl
  | cons a as => exact hsection

end

/-- The lines of a table that has one line for its name and one for each row. -/
def tableLineCount (table : Table) : Nat :=
  1 + (3 + table.fields.length) +
    (if table.indexes.isEmpty then 0 else 3 + table.indexes.length) +
    (if table.foreignKeys.isEmpty then 0 else 3 + table.foreignKeys.length)

/-- The lines of a report that has one for each row. -/
def lineCount (schema : Schema) : Nat :=
  (schema.map fun entry => tableLineCount entry.2).sum + (schema.length - 1)

/-- The line breaks in the cells of a table. -/
def cellBreaks (table : Table) : Nat :=
  (table.fields.map fun field => rowBreaks field.row).sum +
    (table.indexes.map fun index => rowBreaks index.row).sum +
    (table.foreignKeys.map fun key => rowBreaks key.row).sum

theorem linesBreaks_tableLines (entry : String × Table) :
    linesBreaks (tableLines style entry) =
      tableLineCount entry.2 + (lineBreaks entry.1 + cellBreaks entry.2) := by
  obtain ⟨name, table⟩ := entry
  have hfields := linesBreaks_section style (by decide : Text.OneLine "FIELDS")
    (by decide : rowBreaks Field.headers = 0) (fun _ => rfl : ∀ field, (Field.row field).length = _)
    table.fields
  have hindexes := linesBreaks_filter_section style (by decide : Text.OneLine "INDEXES")
    (by decide : rowBreaks Index.headers = 0) (fun _ => rfl : ∀ index, (Index.row index).length = _)
    table.indexes
  have hkeys := linesBreaks_filter_section style (by decide : Text.OneLine "FOREIGN KEYS")
    (by decide : rowBreaks ForeignKey.headers = 0)
    (fun _ => rfl : ∀ key, (ForeignKey.row key).length = _) table.foreignKeys
  -- indexes and foreign keys are filtered at once, but counted one by one
  have hboth : ∀ s s' : Section, [s, s'].filter (fun s => !s.rows.isEmpty) =
      [s].filter (fun s => !s.rows.isEmpty) ++ [s'].filter fun s => !s.rows.isEmpty :=
    fun s s' => List.filter_append [s] [s']
  rw [tableLines, linesBreaks_cons, linesBreaks_flatMap, sections, List.map_cons, List.sum_cons,
    hboth, List.map_append, List.sum_append, hfields, hindexes, hkeys, tableLineCount, cellBreaks]
  dsimp only
  omega

/-- A report has just the lines that it should, and one more for each line break in the name of a
table or in a cell. -/
theorem lineBreaks_render (schema : Schema) :
    lineBreaks (render style schema) =
      lineCount schema + (schema.map fun entry => lineBreaks entry.1 + cellBreaks entry.2).sum := by
  have htables : (schema.map fun entry => linesBreaks (tableLines style entry)).sum =
      (schema.map fun entry => tableLineCount entry.2).sum +
        (schema.map fun entry => lineBreaks entry.1 + cellBreaks entry.2).sum := by
    rw [← List.sum_map_add]
    exact congrArg List.sum (List.map_congr_left fun entry _ => linesBreaks_tableLines style entry)
  rw [lineBreaks_render_eq, lines, linesBreaks_intercalate, List.map_map, List.length_map,
    lineCount]
  exact (congrArg (· + (schema.length - 1)) htables).trans (Nat.add_right_comm ..)

/-! ## Reports of what is read -/

/-- Whether all columns that indexes and foreign keys of a table are on have names on one line. -/
structure ColumnsOneLine (table : Table) : Prop where
  indexes : ∀ index ∈ table.indexes, ∀ column ∈ index.columns, Text.OneLine column
  foreignKeys : ∀ key ∈ table.foreignKeys, Text.OneLine key.column

/-- The line breaks in the names of these columns. -/
def columnBreaks (table : Table) : Nat :=
  (table.indexes.map fun index => rowBreaks index.columns).sum +
    (table.foreignKeys.map fun key => lineBreaks key.column).sum

theorem columnBreaks_eq_zero_iff {table : Table} :
    columnBreaks table = 0 ↔ ColumnsOneLine table := by
  rw [columnBreaks, Nat.add_eq_zero_iff, List.sum_eq_zero_iff_forall_eq_nat,
    List.sum_eq_zero_iff_forall_eq_nat, List.forall_mem_map, List.forall_mem_map]
  constructor
  · rintro ⟨hindexes, hkeys⟩
    exact ⟨fun index hindex => rowBreaks_eq_zero_iff.mp (hindexes index hindex),
      fun key hkey => lineBreaks_eq_zero_iff.mp (hkeys key hkey)⟩
  · rintro ⟨hindexes, hkeys⟩
    exact ⟨fun index hindex => rowBreaks_eq_zero_iff.mpr (hindexes index hindex),
      fun key hkey => lineBreaks_eq_zero_iff.mpr (hkeys key hkey)⟩

/-- In a table that is read there are no other line breaks. -/
theorem cellBreaks_of_oneLine {table : Table} (h : table.OneLine) :
    cellBreaks table = columnBreaks table := by
  have hfields : (table.fields.map fun field => rowBreaks field.row).sum = 0 := by
    rw [List.sum_eq_zero_iff_forall_eq_nat, List.forall_mem_map]
    exact fun field hfield => (h.fields field hfield).rowBreaks_row
  have hindexes : (table.indexes.map fun index => rowBreaks index.row) =
      table.indexes.map fun index => rowBreaks index.columns :=
    List.map_congr_left fun index hindex => Index.rowBreaks_row (h.indexes index hindex)
  have hkeys : (table.foreignKeys.map fun key => rowBreaks key.row) =
      table.foreignKeys.map fun key => lineBreaks key.column :=
    List.map_congr_left fun key hkey => (h.foreignKeys key hkey).rowBreaks_row
  rw [cellBreaks, hfields, hindexes, hkeys, Nat.zero_add, columnBreaks]

theorem lineBreaks_render_of_oneLine {schema : Schema}
    (h : ∀ entry ∈ schema, Text.OneLine entry.1 ∧ entry.2.OneLine) :
    lineBreaks (render style schema) =
      lineCount schema + (schema.map fun entry => columnBreaks entry.2).sum := by
  have hentry : ∀ entry ∈ schema,
      lineBreaks entry.1 + cellBreaks entry.2 = columnBreaks entry.2 := by
    intro entry hentry
    rw [(h entry hentry).1.lineBreaks, Nat.zero_add, cellBreaks_of_oneLine (h entry hentry).2]
  rw [lineBreaks_render, List.map_congr_left hentry]

theorem lineBreaks_render_eq_lineCount_iff {schema : Schema}
    (h : ∀ entry ∈ schema, Text.OneLine entry.1 ∧ entry.2.OneLine) :
    lineBreaks (render style schema) = lineCount schema ↔
      ∀ entry ∈ schema, ColumnsOneLine entry.2 := by
  rw [lineBreaks_render_of_oneLine style h, Nat.add_eq_left, List.sum_eq_zero_iff_forall_eq_nat,
    List.forall_mem_map]
  exact forall₂_congr fun _ _ => columnBreaks_eq_zero_iff

/-- The report of a schema that is read from a text has a line for the name of each table, three
lines above the rows of each section, a line for each row and a blank line between two tables, and
one more for each line break in the columns of an index or in the column of a foreign key. So it has
just these lines if and only if there is none in them; and if the singular of a name on one line is
on one line, there is none in the column of a foreign key. -/
theorem lineBreaks_render_read (settings : Settings) (singular : String → String) (text : String) :
    let schema := (Schema.read settings singular text).schema
    lineBreaks (render style schema) =
      lineCount schema + (schema.map fun entry => columnBreaks entry.2).sum ∧
    (lineBreaks (render style schema) = lineCount schema ↔
      ∀ entry ∈ schema, ColumnsOneLine entry.2) ∧
    ((∀ name, Text.OneLine name → Text.OneLine (singular name)) →
      ∀ entry ∈ schema, ∀ key ∈ entry.2.foreignKeys, Text.OneLine key.column) := by
  intro schema
  have hread : ∀ entry ∈ schema, Text.OneLine entry.1 ∧ entry.2.OneLine :=
    fun _ hentry => Schema.oneLine_of_mem_read hentry
  refine ⟨lineBreaks_render_of_oneLine style hread, lineBreaks_render_eq_lineCount_iff style hread,
    fun hsingular entry hentry key hkey => ?_⟩
  exact ForeignKey.oneLine_column_of_mem_all hsingular (Schema.mem_all_of_mem_read hentry key hkey)

/-- With English singulars, only the columns of indexes can make a report longer. -/
theorem lineBreaks_render_english (settings : Settings) (text : String) :
    let schema := (Schema.read settings English.singular text).schema
    lineBreaks (render style schema) = lineCount schema ↔
      ∀ entry ∈ schema, ∀ index ∈ entry.2.indexes, ∀ column ∈ index.columns,
        Text.OneLine column := by
  intro schema
  have hkeys : ∀ entry ∈ schema, ∀ key ∈ entry.2.foreignKeys, Text.OneLine key.column :=
    fun entry hentry key hkey => ForeignKey.oneLine_column_of_mem_all
      (fun _ => English.oneLine_singular) (Schema.mem_all_of_mem_read hentry key hkey)
  refine (lineBreaks_render_eq_lineCount_iff style
    fun _ hentry => Schema.oneLine_of_mem_read hentry).trans ?_
  constructor
  · exact fun h entry hentry => (h entry hentry).indexes
  · exact fun h entry hentry => ⟨h entry hentry, hkeys entry hentry⟩

/-- A column with a line break in its name makes the row of its index two lines long. -/
theorem lineBreaks_render_index :
    let text := "create_table \"t\", id: false do |t|\n  t.index [\"a\nb\"]\nend\n"
    let schema := (Schema.read {} English.singular text).schema
    lineCount schema = 8 ∧ lineBreaks (render {} schema) = 9 ∧
      lines {} schema =
        ["t",
         "  FIELDS",
         "  | Field Name | Data Type | Default | Not Null? | Notes | Others |",
         "  | ---------- | --------- | ------- | --------- | ----- | ------ |",
         "  INDEXES",
         "  | Index Name | Column | Unique? | Notes |",
         "  | ---------- | ------ | ------- | ----- |",
         "  |            | a\nb    |         |       |"] := by
  intro text schema
  have hlines := lineBreaks_render_of_oneLine {}
    fun entry (hentry : entry ∈ schema) => Schema.oneLine_of_mem_read hentry
  exact ⟨by decide +kernel, hlines.trans (by decide +kernel), by decide +kernel⟩

end Report

end RailsSchema
