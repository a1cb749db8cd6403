import RailsSchema.Proofs.Definition.Resolution
import RailsSchema.Proofs.Literal.OneLine
import RailsSchema.Proofs.Statement.Spans
import RailsSchema.Proofs.Singular.Spelling
import Mathlib.Data.Option.Basic

/-!
# Definitions that are read from one line

The names, types and options of a statement are on one line of the text, so all that a definition
has from them is on one line (`Field.OneLine`, `ForeignKey.OneLine`). Two things need not be: the
columns of an index, whose list can run over several lines, and the column of a foreign key where it
is made from the name of a table. English singulars add no line break to a name
(`English.oneLine_singular`).

* `ColumnStatement.oneLine_of_typed?`, `ForeignKeyStatement.oneLine_of_read?` and so on: statements;
* `Table.oneLine_ofBlock`: tables;
* `Schema.oneLine_of_mem_read`: the tables of a schema that is read.
-/

namespace RailsSchema

open Text

/-! ## Statements -/

structure ColumnStatement.OneLine (statement : ColumnStatement) : Prop where
  name : Text.OneLine statement.name
  type : Text.OneLine statement.type
  options : Text.OneLine statement.options

namespace ColumnStatement

theorem newline_not_mem_of_name? {cs name rest : List Char} (h : name? cs = some (name, rest)) :
    '\n' ∉ name :=
  newline_not_mem_of_quotedName? (Option.filter_eq_some_iff.mp h).1

theorem oneLine_of_typed? {cs : List Char} {statement : ColumnStatement}
    (h : typed? cs = some statement) : statement.OneLine := by
  simp only [typed?, Option.bind_eq_bind, Option.bind_eq_some_iff, Option.pure_def] at h
  obtain ⟨_, -, _, -, ⟨name, behind⟩, hname, options, hoptions, heq⟩ := h
  cases heq
  refine ⟨oneLine_ofList.mpr (newline_not_mem_of_name? hname), oneLine_ofList.mpr fun hmem => ?_,
    oneLine_ofList.mpr (newline_not_mem_of_trailingOptions? hoptions)⟩
  exact absurd (List.mem_takeWhile_imp hmem) (by decide)

theorem oneLine_of_generic? {cs : List Char} {statement : ColumnStatement}
    (h : generic? cs = some statement) : statement.OneLine := by
  simp only [generic?, Option.bind_eq_bind, Option.bind_eq_some_iff, Option.pure_def] at h
  obtain ⟨_, -, ⟨name, behind⟩, hname, _, -, ⟨type, rest⟩, htype, options, hoptions, heq⟩ := h
  cases heq
  exact ⟨oneLine_ofList.mpr (newline_not_mem_of_name? hname),
    oneLine_ofList.mpr (newline_not_mem_of_name? htype),
    oneLine_ofList.mpr (newline_not_mem_of_trailingOptions? hoptions)⟩

end ColumnStatement

theorem IndexStatement.oneLine_options {cs : List Char} {statement : IndexStatement}
    (h : read? cs = some statement) : Text.OneLine statement.options := by
  simp only [read?, Option.bind_eq_bind, Option.bind_eq_some_iff, Option.pure_def] at h
  obtain ⟨_, -, _, -, _, -, options, hoptions, heq⟩ := h
  cases heq
  exact oneLine_ofList.mpr (newline_not_mem_of_trailingOptions? hoptions)

structure ForeignKeyStatement.OneLine (statement : ForeignKeyStatement) : Prop where
  toTable : Text.OneLine statement.toTable
  options : Text.OneLine statement.options

theorem ForeignKeyStatement.oneLine_of_read? {cs : List Char} {statement : ForeignKeyStatement}
    (h : read? cs = some statement) : statement.OneLine := by
  simp only [read?, Option.bind_eq_bind, Option.bind_eq_some_iff, Option.pure_def] at h
  obtain ⟨_, -, _, -, _, -, ⟨toTable, rest⟩, htable, heq⟩ := h
  cases heq
  exact ⟨oneLine_ofList.mpr (newline_not_mem_of_quotedName? htable),
    oneLine_ofList.mpr (newline_not_mem_trim_line _)⟩

structure TableBlock.OneLine (block : TableBlock) : Prop where
  name : Text.OneLine block.name
  options : Text.OneLine block.options

theorem TableBlock.oneLine_of_mem_all {text : String} {block : TableBlock} (h : block ∈ all text) :
    block.OneLine := by
  obtain ⟨front, behind, header, inner, tail, -, -, hparts⟩ := exists_parts_of_mem_all h
  rw [hparts.block]
  refine ⟨oneLine_ofList.mpr fun hmem => (header.name_plain _ hmem).2 rfl, oneLine_ofList.mpr ?_⟩
  exact mt (mem_skipComma_iff (by decide)).mp header.newline_not_mem

/-! ## Fields -/

structure Field.OneLine (field : Field) : Prop where
  name : Text.OneLine field.name
  type : Text.OneLine field.type
  default : ∀ value ∈ field.default, value.OneLine
  comment : ∀ comment ∈ field.comment, Text.OneLine comment
  options : field.options.OneLine

/-- What an option shows is on one line. -/
theorem Options.OneLine.display {options : Options} (h : options.OneLine) {key text : String}
    (htext : text ∈ (OrderedMap.get? options key).map Value.display) : Text.OneLine text := by
  obtain ⟨value, hvalue, rfl⟩ := Option.map_eq_some_iff.mp htext
  exact (h.get? hvalue).display

namespace Field

theorem oneLine_ofOptions {name type : String} (hname : Text.OneLine name)
    (htype : Text.OneLine type) {options : Options} (h : options.OneLine) :
    (ofOptions name type options).OneLine where
  name := hname
  type := htype
  default := fun _ hvalue => h.get? hvalue
  comment := fun _ hcomment => h.display hcomment
  options := ((h.erase "null").erase "default").erase "comment"

theorem oneLine_ofStatement (settings : Settings) {statement : ColumnStatement}
    (h : statement.OneLine) : (ofStatement settings statement).OneLine :=
  oneLine_ofOptions h.name h.type (oneLine_parseOptions settings h.options)

theorem oneLine_of_mem_all {settings : Settings} {body : String} {field : Field}
    (h : field ∈ all settings body) : field.OneLine := by
  obtain ⟨statement, hstatement, rfl⟩ := List.mem_map.mp h
  apply oneLine_ofStatement
  rcases List.mem_append.mp hstatement with hmem | hmem
  · obtain ⟨site, -, hread⟩ := List.mem_filterMap.mp hmem
    exact ColumnStatement.oneLine_of_generic? hread
  · obtain ⟨site, -, hread⟩ := List.mem_filterMap.mp hmem
    exact ColumnStatement.oneLine_of_typed? hread

theorem oneLine_plainId {id : Value} (h : id.OneLine) : (plainId id).OneLine := by
  have hother : Text.OneLine "primary_key" := by decide
  refine ⟨(by decide : Text.OneLine idName), ?_, ?_, ?_, List.forall_mem_nil _⟩
  · cases id with
    | str | symbol => exact h
    | _ => exact hother
  · rintro value ⟨⟩
  · rintro comment ⟨⟩
    decide

theorem OneLine.override {field : Field} (h : field.OneLine) {entry : String × Value}
    (hkey : Text.OneLine entry.1) (hvalue : entry.2.OneLine) : (override field entry).OneLine := by
  unfold Field.override
  split
  · refine ⟨h.name, ?_, h.default, h.comment, h.options⟩
    cases htype : entry.2.name? with
    | none => exact h.type
    | some type => exact hvalue.name? htype
  · exact ⟨h.name, h.type, h.default, h.comment, h.options⟩
  · refine ⟨h.name, h.type, ?_, h.comment, h.options⟩
    rintro value ⟨⟩
    exact hvalue
  · refine ⟨h.name, h.type, h.default, ?_, h.options⟩
    rintro comment ⟨⟩
    exact hvalue.display
  · exact ⟨h.name, h.type, h.default, h.comment, h.options.insert hkey hvalue⟩

theorem OneLine.foldl_override {field : Field} (h : field.OneLine) {entries : Options}
    (hentries : entries.OneLine) : (entries.foldl Field.override field).OneLine := by
  induction entries generalizing field with
  | nil => exact h
  | cons entry entries ih =>
    obtain ⟨⟨hkey, hvalue⟩, hothers⟩ := List.forall_mem_cons.mp hentries
    exact ih (h.override hkey hvalue) hothers

theorem oneLine_implicitId {id : Value} (h : id.OneLine) : (implicitId id).OneLine := by
  refine (oneLine_plainId h).foldl_override ?_
  cases id with
  | hash entries => exact Value.oneLine_hash.mp h
  | _ => exact List.forall_mem_nil _

end Field

/-! ## Indexes and foreign keys -/

theorem Index.oneLine_name_of_mem_all {settings : Settings} {body : String} {index : Index}
    (h : index ∈ all settings body) : ∀ name ∈ index.name, Text.OneLine name := by
  obtain ⟨statement, hstatement, hread⟩ := List.mem_filterMap.mp h
  obtain ⟨site, -, hsite⟩ := List.mem_filterMap.mp hstatement
  have hoptions := oneLine_parseOptions settings (IndexStatement.oneLine_options hsite)
  unfold ofStatement? at hread
  split at hread
  · cases hread
  · cases hread
    exact fun name hname => hoptions.display hname

/-- All but the column, which can come from the inflection of a name. -/
structure ForeignKey.OneLine (key : ForeignKey) : Prop where
  toTable : Text.OneLine key.toTable
  toColumn : Text.OneLine key.toColumn
  name : ∀ name ∈ key.name, Text.OneLine name

namespace ForeignKey

theorem oneLine_of_text? {options : Options} (h : options.OneLine) {key : String} :
    ∀ text ∈ text? options key, Text.OneLine text := by
  intro text htext
  exact h.display (Option.filter_eq_some_iff.mp htext).1

theorem oneLine_getD_text? {options : Options} (h : options.OneLine) {key other : String}
    (hother : Text.OneLine other) : Text.OneLine ((text? options key).getD other) := by
  cases htext : text? options key with
  | none => exact hother
  | some text => exact oneLine_of_text? h text htext

variable {settings : Settings} {singular : String → String} {text : String} {key : ForeignKey}

theorem exists_of_mem_all (h : key ∈ all settings singular text) :
    ∃ toTable options, Text.OneLine toTable ∧ options.OneLine ∧
      ∃ fromTable, key = ofOptions singular fromTable toTable options := by
  obtain ⟨statement, hstatement, rfl⟩ := List.mem_map.mp h
  obtain ⟨site, -, hread⟩ := List.mem_filterMap.mp hstatement
  have hline := ForeignKeyStatement.oneLine_of_read? hread
  exact ⟨_, _, hline.toTable, oneLine_parseOptions settings hline.options, _, rfl⟩

theorem oneLine_of_mem_all (h : key ∈ all settings singular text) : key.OneLine := by
  obtain ⟨toTable, options, htable, hoptions, fromTable, rfl⟩ := exists_of_mem_all h
  exact ⟨htable, oneLine_getD_text? hoptions (by decide), oneLine_of_text? hoptions⟩

/-- The column is on one line as well if the singular of a name is. -/
theorem oneLine_column_of_mem_all
    (hsingular : ∀ name, Text.OneLine name → Text.OneLine (singular name))
    (h : key ∈ all settings singular text) : Text.OneLine key.column := by
  obtain ⟨toTable, options, htable, hoptions, fromTable, rfl⟩ := exists_of_mem_all h
  exact oneLine_getD_text? hoptions ((hsingular toTable htable).append (by decide))

end ForeignKey

/-! ### English singulars -/

namespace English

/-- A singular is made of letters and of pieces of the name. -/
theorem oneLine_singular {name : String} (h : Text.OneLine name) :
    Text.OneLine (singular name) := by
  unfold Text.OneLine at h ⊢
  rw [← (parts_of name).append_eq, List.mem_append, not_or] at h
  rw [toList_singular, List.mem_append, not_or]
  exact ⟨h.1, not_mem_singularWord (by decide) h.2⟩

end English

/-! ## Tables and schemas -/

structure Table.OneLine (table : Table) : Prop where
  fields : ∀ field ∈ table.fields, field.OneLine
  indexes : ∀ index ∈ table.indexes, ∀ name ∈ index.name, Text.OneLine name
  foreignKeys : ∀ key ∈ table.foreignKeys, key.OneLine

namespace Table

theorem oneLine_ofDeclared {options : Options} (h : options.OneLine) {fields : List Field}
    (hfields : ∀ field ∈ fields, field.OneLine) {indexes : List Index}
    (hindexes : ∀ index ∈ indexes, ∀ name ∈ index.name, Text.OneLine name) :
    (ofDeclared options fields indexes).OneLine := by
  have hid : (idOption options).OneLine := by
    unfold idOption
    cases hget : OrderedMap.get? options "id" with
    | none => trivial
    | some id => exact h.get? hget
  have hkey (columns) : ∀ name ∈ (Index.primaryKey columns).name, Text.OneLine name := by
    rintro name ⟨⟩
    decide
  have hnokeys : ∀ key ∈ ([] : List ForeignKey), key.OneLine := List.forall_mem_nil _
  unfold ofDeclared
  split
  · split
    · exact ⟨List.forall_mem_cons.mpr ⟨Field.oneLine_implicitId hid, hfields⟩,
        List.forall_mem_cons.mpr ⟨hkey _, hindexes⟩, hnokeys⟩
    · exact ⟨hfields, hindexes, hnokeys⟩
  · exact ⟨hfields, List.forall_mem_cons.mpr ⟨hkey _, hindexes⟩, hnokeys⟩

theorem oneLine_ofBlock (settings : Settings) {block : TableBlock} (h : block.OneLine) :
    (ofBlock settings block).OneLine :=
  oneLine_ofDeclared (oneLine_parseOptions settings h.options)
    (fun _ hfield => Field.oneLine_of_mem_all hfield)
    (fun _ hindex => Index.oneLine_name_of_mem_all hindex)

end Table

namespace Schema

variable {settings : Settings} {singular : String → String} {text : String}
  {entry : String × Table}

/-- The foreign keys of a table are among those that the text declares. -/
theorem mem_all_of_mem_read (h : entry ∈ (read settings singular text).schema) :
    ∀ key ∈ entry.2.foreignKeys, key ∈ ForeignKey.all settings singular text := by
  rw [read_eq] at h
  obtain ⟨declared, -, rfl⟩ := List.mem_map.mp h
  exact fun key hkey => (List.mem_filter.mp hkey).1

/-- The name and the definitions of every table that is read are on one line, the columns of indexes
and foreign keys aside. -/
theorem oneLine_of_mem_read (h : entry ∈ (read settings singular text).schema) :
    Text.OneLine entry.1 ∧ entry.2.OneLine := by
  have hkeys := mem_all_of_mem_read h
  rw [read_eq] at h
  obtain ⟨⟨name, table⟩, hdeclared, rfl⟩ := List.mem_map.mp h
  obtain ⟨block, hblock, heq⟩ := List.mem_map.mp (OrderedMap.mem_of_mem_ofEntries hdeclared)
  cases heq
  have hline := TableBlock.oneLine_of_mem_all hblock
  have htable := Table.oneLine_ofBlock settings hline
  exact ⟨hline.name, htable.fields, htable.indexes,
    fun key hkey => ForeignKey.oneLine_of_mem_all (hkeys key hkey)⟩

end Schema

end RailsSchema
