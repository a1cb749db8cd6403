import RailsSchema.Report.Basic
import Mathlib.Data.List.Basic
import Mathlib.Data.List.Zip
import Mathlib.Data.List.Forall2
import Mathlib.Order.Bounds.Basic

/-!
# Aligned columns

The widths of a section are a maximum taken row by row, and each cell is filled up to the width of
its column. So every line of a section shows all of its cells, one behind the other, and a cell and
the blanks behind it are together as wide as the widest cell of the column.

* `Widest.widen`, `widest_widths`: what one more row does to the widths, and what they are after
  all rows;
* `shows_lineText`: a line of cells that are not wider than their columns;
* `sections_aligned`: the sections of a report are aligned.
-/

namespace RailsSchema.Report

/-! ## The widest cell of a column -/

/-- The widths of the cells that rows have in a column. -/
def cellWidths (width : String → Nat) (rows : List (List String)) (column : Nat) : Set Nat :=
  {w | ∃ cells ∈ rows, ∃ cell, cells[column]? = some cell ∧ width cell = w}

/-- Each width is the greatest that a cell of the column has. -/
def Widest (width : String → Nat) (rows : List (List String)) (widths : List Nat) : Prop :=
  ∀ column w, widths[column]? = some w → IsGreatest (cellWidths width rows column) w

variable {width : String → Nat}

theorem cellWidths_concat {rows : List (List String)} {row : List String} {column : Nat}
    {cell : String} (hcell : row[column]? = some cell) :
    cellWidths width (rows ++ [row]) column =
      insert (width cell) (cellWidths width rows column) := by
  ext w
  simp only [cellWidths, List.mem_append, List.mem_singleton, Set.mem_ofPred_eq, Set.mem_insert_iff]
  constructor
  · rintro ⟨cells, hmem | rfl, other, hother, rfl⟩
    · exact .inr ⟨cells, hmem, other, hother, rfl⟩
    · rw [hcell] at hother
      exact .inl (by rw [Option.some.inj hother])
  · rintro (rfl | ⟨cells, hmem, other, hother, rfl⟩)
    · exact ⟨row, .inr rfl, cell, hcell, rfl⟩
    · exact ⟨cells, .inl hmem, other, hother, rfl⟩

theorem widest_map (headers : List String) : Widest width [headers] (headers.map width) := by
  intro column w hw
  rw [List.getElem?_map, Option.map_eq_some_iff] at hw
  obtain ⟨cell, hcell, rfl⟩ := hw
  have hnone : cellWidths width [] column = ∅ := by simp [cellWidths]
  rw [← List.nil_append [headers], cellWidths_concat hcell, hnone, insert_empty_eq]
  exact isGreatest_singleton

/-- One more row widens the columns to its cells. -/
theorem Widest.widen {rows : List (List String)} {widths : List Nat}
    (h : Widest width rows widths) (row : List String) :
    Widest width (rows ++ [row]) (Report.widen width widths row) := by
  intro column w hw
  obtain ⟨v, cell, hv, hcell, rfl⟩ := List.getElem?_zipWith_eq_some.mp hw
  rw [cellWidths_concat hcell, Nat.max_comm]
  exact (h column v hv).insert (width cell)

theorem Widest.foldl_widen {rows : List (List String)} {widths : List Nat}
    (h : Widest width rows widths) (more : List (List String)) :
    Widest width (rows ++ more) (more.foldl (Report.widen width) widths) := by
  induction more generalizing rows widths with
  | nil => rwa [List.append_nil]
  | cons row more ih => simpa using ih (h.widen row)

variable (style : Style)

/-- The widths of a section are those of the widest cells, the headers being cells too. -/
theorem widest_widths (s : Section) :
    Widest style.width (s.headers :: s.rows) (s.widths style) :=
  (widest_map s.headers).foldl_widen s.rows

theorem length_foldl_widen {widths : List Nat} {rows : List (List String)}
    (hrows : ∀ row ∈ rows, row.length = widths.length) :
    (rows.foldl (widen width) widths).length = widths.length := by
  induction rows generalizing widths with
  | nil => rfl
  | cons row rows ih =>
    have hlength : (widen width widths row).length = widths.length := by
      rw [widen, List.length_zipWith, hrows row List.mem_cons_self, Nat.min_self]
    rw [List.foldl_cons, ih, hlength]
    intro other hother
    rw [hlength]
    exact hrows other (List.mem_cons_of_mem _ hother)

/-- There is a width for each header, if each row has a cell for each header. -/
theorem Section.length_widths {s : Section}
    (hrows : ∀ row ∈ s.rows, row.length = s.headers.length) :
    (s.widths style).length = s.headers.length := by
  rw [widths, length_foldl_widen (by simpa using hrows), List.length_map]

theorem Widest.le {rows : List (List String)} {widths : List Nat} (h : Widest width rows widths)
    {cells : List String} (hcells : cells ∈ rows) (hlength : cells.length = widths.length) :
    List.Forall₂ (fun cell w => width cell ≤ w) cells widths := by
  refine List.forall₂_iff_get.mpr ⟨hlength, fun column hcell hw => ?_⟩
  exact (h column _ (List.getElem?_eq_getElem hw)).2
    ⟨cells, hcells, _, List.getElem?_eq_getElem hcell, rfl⟩

/-! ## A line shows its cells -/

/-- Cells behind bars, each with a space before it and some blanks after it. -/
def spacedLine (indent : Nat) (cells : List String) (blanks : List Nat) : String :=
  fill indent ' ' ++ "|" ++
    String.join (List.zipWith (fun cell n => " " ++ cell ++ fill n ' ' ++ " |") cells blanks)

/-- A line is all the cells, each filled up with blanks to exactly the width of its column. -/
def Shows (widths : List Nat) (cells : List String) (line : String) : Prop :=
  ∃ blanks : List Nat, blanks.length = cells.length ∧ line = spacedLine style.indent cells blanks ∧
    List.zipWith (fun cell n => style.width cell + n) cells blanks = widths

theorem lineText_eq (widths : List Nat) (cells : List String) :
    lineText style widths cells =
      spacedLine style.indent cells
        (List.zipWith (fun cell w => w - style.width cell) cells widths) := by
  rw [spacedLine, List.zipWith_zipWith_right, List.zipWith3_same_left]
  rfl

/-- A line shows cells that are not wider than their columns. -/
theorem shows_lineText {widths : List Nat} {cells : List String}
    (hfit : List.Forall₂ (fun cell w => style.width cell ≤ w) cells widths) :
    Shows style widths cells (lineText style widths cells) := by
  refine ⟨_, ?_, lineText_eq style widths cells, ?_⟩
  · rw [List.length_zipWith, hfit.length_eq, Nat.min_self]
  · rw [List.zipWith_zipWith_right, List.zipWith3_same_left]
    induction hfit with
    | nil => rfl
    | cons hle _ ih => rw [List.zipWith_cons_cons, ih, Nat.add_sub_cancel' hle]

/-! ## The sections of a report -/

/-- The cells of the rule of a section. -/
def ruleCells (widths : List Nat) : List String := widths.map (fill · '-')

/-- A section is laid out in columns of the given widths by a header line, a rule and a line for
each of its rows. -/
structure Section.Aligned (s : Section) (widths : List Nat) (header rule : String)
    (rows : List String) : Prop where
  /-- There is a column for each header. -/
  columns : widths.length = s.headers.length
  /-- There is a cell for each column, neither more nor less. -/
  arity : ∀ cells ∈ s.rows, cells.length = s.headers.length
  /-- A column is as wide as its widest cell. -/
  widest : Widest style.width (s.headers :: s.rows) widths
  /-- No cell is wider than its column. -/
  fits : ∀ cells ∈ s.headers :: ruleCells widths :: s.rows,
    List.Forall₂ (fun cell w => style.width cell ≤ w) cells widths
  header : Shows style widths s.headers header
  rule : Shows style widths (ruleCells widths) rule
  rows : List.Forall₂ (Shows style widths) s.rows rows

/-- The rule fits the columns, if dashes are as wide as they are many. -/
theorem ruleCells_fit (hdash : ∀ n, style.width (fill n '-') = n) (widths : List Nat) :
    List.Forall₂ (fun cell w => style.width cell ≤ w) (ruleCells widths) widths := by
  rw [ruleCells, List.forall₂_map_left_iff, List.forall₂_same]
  exact fun w _ => (hdash w).le

/-- A section whose rows have a cell for each header is aligned. -/
theorem Section.aligned (hdash : ∀ n, style.width (fill n '-') = n) {s : Section}
    (hrows : ∀ row ∈ s.rows, row.length = s.headers.length) :
    let widths := s.widths style
    s.Aligned style widths (lineText style widths s.headers)
      (lineText style widths (ruleCells widths)) (s.rows.map (lineText style widths)) := by
  intro widths
  have hcolumns : widths.length = s.headers.length := s.length_widths style hrows
  have hwidest := widest_widths style s
  have hheader := hwidest.le List.mem_cons_self hcolumns.symm
  have hrule := ruleCells_fit style hdash widths
  have hcells (cells) (hcells : cells ∈ s.rows) :=
    hwidest.le (List.mem_cons_of_mem _ hcells) ((hrows cells hcells).trans hcolumns.symm)
  refine ⟨hcolumns, hrows, hwidest, ?_, shows_lineText style hheader,
    shows_lineText style hrule, ?_⟩
  · simpa only [List.forall_mem_cons] using ⟨hheader, hrule, hcells⟩
  · rw [List.forall₂_map_right_iff, List.forall₂_same]
    exact fun cells hmem => shows_lineText style (hcells cells hmem)

/-- The rows of a section have a cell for each header. -/
theorem length_row_of_mem_sections {table : Table} {s : Section} (hs : s ∈ sections table) :
    ∀ row ∈ s.rows, row.length = s.headers.length := by
  simp only [sections, List.mem_cons, List.mem_filter, List.not_mem_nil, or_false] at hs
  obtain rfl | ⟨rfl | rfl, -⟩ := hs <;> simp only [List.forall_mem_map] <;> exact fun _ _ => rfl

theorem infix_intercalate {α : Type} {sep part : List α} {parts : List (List α)}
    (hmem : part ∈ parts) : part <:+: sep.intercalate parts := by
  induction parts with
  | nil => exact absurd hmem List.not_mem_nil
  | cons first parts ih =>
    match parts, ih, hmem with
    | [], _, hmem =>
      simp only [List.mem_singleton.mp hmem, List.intercalate_singleton, List.infix_rfl]
    | second :: parts, ih, hmem =>
      rw [List.intercalate_cons_cons, List.append_assoc]
      obtain rfl | hmem := List.mem_cons.mp hmem
      · exact (List.prefix_append _ _).isInfix
      · exact (ih hmem).trans ((List.suffix_append _ _).trans (List.suffix_append _ _)).isInfix

theorem Section.lines_infix {schema : Schema} {entry : String × Table} (hentry : entry ∈ schema)
    {s : Section} (hs : s ∈ sections entry.2) : s.lines style <:+: Report.lines style schema := by
  have hsection : s.lines style <:+: (sections entry.2).flatMap (Section.lines style) :=
    List.infix_of_mem_flatten (List.mem_map_of_mem hs)
  have htable : s.lines style <:+: tableLines style entry :=
    hsection.trans (List.suffix_cons _ _).isInfix
  exact htable.trans (infix_intercalate (List.mem_map_of_mem hentry))

/-- The text of a report is lines with a line break behind each. Every section of the report stands
among them as its title and lines that are aligned: the header, a rule and one line for each row, if
dashes are as wide as they are many. -/
theorem sections_aligned (hdash : ∀ n, style.width (fill n '-') = n) (schema : Schema) :
    render style schema = String.join ((lines style schema).map (· ++ "\n")) ∧
    ∀ entry ∈ schema, ∀ s ∈ sections entry.2, s.lines style <:+: lines style schema ∧
      ∃ widths header rule rows,
        s.lines style = (fill style.indent ' ' ++ s.title) :: header :: rule :: rows ∧
        s.Aligned style widths header rule rows := by
  refine ⟨rfl, fun entry hentry s hs => ?_⟩
  have haligned := s.aligned style hdash (length_row_of_mem_sections hs)
  exact ⟨s.lines_infix style hentry hs, _, _, _, _, rfl, haligned⟩

/-- In a column of six the two wide characters of `本文` leave two blanks, in one of ten those of
`メモ` leave six. -/
theorem sections_aligned_wide :
    let style : Style := {}
    let table : Table := {
      fields := []
      indexes := [⟨["本文"], true, some "by_body", []⟩, ⟨["id"], false, some "メモ", []⟩]
      foreignKeys := []
      options := [] }
    let indexes : Section := ⟨"INDEXES", Index.headers, table.indexes.map Index.row⟩
    (∀ n, style.width (fill n '-') = n) ∧ indexes ∈ sections table ∧
      indexes.lines style =
        ["  INDEXES",
         "  | Index Name | Column | Unique? | Notes |",
         "  | ---------- | ------ | ------- | ----- |",
         "  | by_body    | 本文   | Yes     |       |",
         "  | メモ       | id     |         |       |"] ∧
      render style [("notes", table)] =
        String.join ((lines style [("notes", table)]).map (· ++ "\n")) ∧
      indexes.lines style <:+: lines style [("notes", table)] ∧
      ∃ widths header rule rows,
        indexes.lines style = "  INDEXES" :: header :: rule :: rows ∧
        indexes.Aligned style widths header rule rows := by
  intro style table indexes
  have hdash : ∀ n, style.width (fill n '-') = n := Text.columns_replicate_dash
  have hmem : indexes ∈ sections table := by
    rw [sections, List.mem_cons, List.mem_filter]
    exact .inr ⟨List.mem_cons_self, rfl⟩
  obtain ⟨hrender, hsections⟩ := sections_aligned style hdash [("notes", table)]
  exact ⟨hdash, hmem, by decide +kernel, hrender, hsections _ List.mem_cons_self _ hmem⟩

end RailsSchema.Report
