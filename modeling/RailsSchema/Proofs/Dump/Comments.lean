import RailsSchema.Proofs.Dump.Inert

/-!
# What a comment changes

The outline of a reading is what it says of the structure of a schema: the names of tables, the
names and types of columns, indexes, foreign keys and diagnostics. A comment that is inert changes
no outline: `outline_comment`. Comments that are not can do so in every way that searches allow,
as `outline_journal` shows.
-/

namespace RailsSchema

open Text

/-- The structure of a table. -/
structure Table.Outline where
  columns : List (String × String)
  indexes : List Index
  foreignKeys : List ForeignKey

/-- The names and types of the columns of a table, its indexes and its foreign keys. -/
def Table.outline (table : Table) : Table.Outline where
  columns := table.fields.map fun field => (field.name, field.type)
  indexes := table.indexes
  foreignKeys := table.foreignKeys

/-- The structure of a schema, and what is to be said about it. -/
@[ext]
structure Reading.Outline where
  tables : List (String × Table.Outline)
  diagnostics : List Diagnostic

def Reading.outline (reading : Reading) : Reading.Outline where
  tables := reading.schema.map fun entry => (entry.1, entry.2.outline)
  diagnostics := reading.diagnostics

namespace Dump

/-- The name of the option that holds a comment. -/
def commentKey : String := "comment"

/-- Sets a comment, in the place of the one that stands there if there is one. -/
def setComment (comment : String) (options : Options) : Options :=
  OrderedMap.insert options commentKey (.str comment)

/-- Sets the comment of a column; an index has none. -/
def Statement.setComment (comment : String) : Statement → Statement
  | typed type name options => typed type name (Dump.setComment comment options)
  | generic name type options => generic name type (Dump.setComment comment options)
  | index columns options => index columns options

/-- Sets the comment of the column that a block declares at a position. -/
def Block.setColumnComment (column : Nat) (comment : String) (block : Block) : Block :=
  { block with statements := block.statements.modify column (Statement.setComment comment) }

/-- Sets the comment of a table. -/
def Block.setComment (comment : String) (block : Block) : Block :=
  { block with options := Dump.setComment comment block.options }

def setColumnComment (table column : Nat) (comment : String) (dump : Dump) : Dump :=
  { dump with blocks := dump.blocks.modify table (Block.setColumnComment column comment) }

def setTableComment (table : Nat) (comment : String) (dump : Dump) : Dump :=
  { dump with blocks := dump.blocks.modify table (Block.setComment comment) }

/-! ## Changes at one position -/

theorem forall_mem_modify {α : Type} {P : α → Prop} {f : α → α} {l : List α}
    (h : ∀ a ∈ l, P a) (hf : ∀ a, P a → P (f a)) (i : Nat) : ∀ a ∈ l.modify i f, P a := by
  induction l generalizing i with
  | nil => simp
  | cons a l ih =>
    have ha := h a List.mem_cons_self
    have hl : ∀ b ∈ l, P b := fun b hb => h b (List.mem_cons_of_mem a hb)
    cases i with
    | zero => exact List.forall_mem_cons.mpr ⟨hf a ha, hl⟩
    | succ i => exact List.forall_mem_cons.mpr ⟨ha, ih hl i⟩

theorem map_modify {α β : Type} {f : α → α} {g : α → β} (h : ∀ a, g (f a) = g a) (l : List α)
    (i : Nat) : (l.modify i f).map g = l.map g := by
  induction l generalizing i with
  | nil => simp
  | cons a l ih =>
    cases i with
    | zero => simp [h]
    | succ i => simp [ih]

theorem filterMap_modify {α β : Type} {f : α → α} {g : α → Option β} (h : ∀ a, g (f a) = g a)
    (l : List α) (i : Nat) : (l.modify i f).filterMap g = l.filterMap g := by
  have hmap := congrArg (List.filterMap id) (map_modify h l i)
  simpa [List.filterMap_map] using hmap

/-! ## Quiet dumps stay quiet -/

variable {plain header body foot : String → Prop} {depth : Nat} {comment : String}

theorem CanonicalOptions.setComment {options : Options}
    (h : CanonicalOptions plain depth options)
    (hcomment : '"' ∉ comment.toList ∧ '\n' ∉ comment.toList ∧ plain comment) :
    CanonicalOptions plain depth (setComment comment options) := by
  have hall : ∀ option ∈ Dump.setComment comment options,
      IsWord option.1.toList ∧ option.2.Canonical plain ∧ option.2.depth ≤ depth := by
    intro option hoption
    rcases OrderedMap.mem_of_mem_insert hoption with rfl | hoption
    · exact ⟨(by decide +kernel : IsWord commentKey.toList), hcomment, Nat.zero_le _⟩
    · exact ⟨h.word option hoption, h.value option hoption, h.depth_le option hoption⟩
  exact ⟨OrderedMap.nodup_keys_insert h.nodup _ _, fun o ho => (hall o ho).1,
    fun o ho => (hall o ho).2.1, fun o ho => (hall o ho).2.2⟩

theorem Statement.Canonical.setComment {statement : Statement}
    (h : statement.Canonical plain depth)
    (hcomment : '"' ∉ comment.toList ∧ '\n' ∉ comment.toList ∧ plain comment) :
    (statement.setComment comment).Canonical plain depth := by
  cases statement with
  | typed type name options => exact ⟨h.subject, h.options.setComment hcomment⟩
  | generic name type options => exact ⟨h.subject, h.options.setComment hcomment⟩
  | index columns options => exact h

theorem Block.Canonical.setColumnComment {block : Block} (h : block.Canonical header body depth)
    (hcomment : '"' ∉ comment.toList ∧ '\n' ∉ comment.toList ∧ body comment) (column : Nat) :
    (block.setColumnComment column comment).Canonical header body depth where
  name := h.name
  options := h.options
  statements := forall_mem_modify h.statements (fun _ hst => hst.setComment hcomment) column

theorem Block.Canonical.setComment {block : Block} (h : block.Canonical header body depth)
    (hcomment : '"' ∉ comment.toList ∧ '\n' ∉ comment.toList ∧ header comment) :
    (block.setComment comment).Canonical header body depth where
  name := h.name
  options := h.options.setComment hcomment
  statements := h.statements

variable {dump : Dump}

theorem Canonical.modify {f : Block → Block} (h : dump.Canonical header body foot depth)
    (hname : ∀ block, (f block).name = block.name)
    (hf : ∀ block, block.Canonical header body depth → (f block).Canonical header body depth)
    (table : Nat) :
    Canonical header body foot depth { dump with blocks := dump.blocks.modify table f } where
  nodup := by
    show ((dump.blocks.modify table f).map Block.name).Nodup
    rw [map_modify hname]
    exact h.nodup
  blocks := forall_mem_modify h.blocks hf table
  keys := h.keys

theorem WellFormed.quiet_setColumnComment (h : dump.WellFormed depth)
    (hcomment : InertInBody comment) (table column : Nat) :
    (dump.setColumnComment table column comment).Quiet depth :=
  h.quiet.modify (f := Block.setColumnComment column comment) (fun _ => rfl) (fun _ hblock =>
    hblock.setColumnComment ⟨hcomment.quote, hcomment.newline, hcomment.muteFor⟩ column) table

theorem WellFormed.quiet_setTableComment (h : dump.WellFormed depth)
    (hcomment : InertInHead comment) (table : Nat) :
    (dump.setTableComment table comment).Quiet depth :=
  h.quiet.modify (f := Block.setComment comment) (fun _ => rfl) (fun _ hblock =>
    hblock.setComment ⟨hcomment.quote, hcomment.newline, hcomment.muteFor⟩) table

/-! ## Outlines -/

/-- The part of the outline that a block decides. -/
def Block.outline (block : Block) : String × List (String × String) × List Index :=
  (block.name, block.built.outline.columns, block.built.outline.indexes)

/-- Dumps with the same outlines of their blocks and the same keys have readings of the same
outline. -/
theorem outline_built {other : Dump}
    (hblocks : dump.blocks.map Block.outline = other.blocks.map Block.outline)
    (hkeys : dump.keys = other.keys) (singular : String → String) :
    (dump.built singular).outline = (other.built singular).outline := by
  have hnames : dump.names = other.names := by
    simpa [names, Block.outline, Function.comp_def] using congrArg (List.map Prod.fst) hblocks
  have hcontains : ∀ name, OrderedMap.contains dump.builtSchema name =
      OrderedMap.contains other.builtSchema name := by
    intro name
    rw [contains_builtSchema, contains_builtSchema, hnames]
  have hof : Schema.keysOf dump.builtSchema = Schema.keysOf other.builtSchema := by
    funext keys name
    simp only [Schema.keysOf, hcontains]
  have hproblem : Schema.problem? dump.builtSchema = Schema.problem? other.builtSchema := by
    funext key
    simp only [Schema.problem?, hcontains]
  -- the tables are told from the outlines of the blocks and from where the keys go
  have htables : ∀ d : Dump, (d.built singular).outline.tables =
      (d.blocks.map Block.outline).map fun entry =>
        (entry.1, ⟨entry.2.1, entry.2.2,
          Schema.keysOf d.builtSchema (d.keys.map (Key.built singular)) entry.1⟩) := by
    intro d
    show (Schema.withKeys d.builtSchema _).map _ = _
    rw [Schema.withKeys, builtSchema, List.map_map, List.map_map, List.map_map]
    rfl
  have hdiagnostics : (dump.built singular).outline.diagnostics =
      (other.built singular).outline.diagnostics := by
    show (dump.keys.map _).filterMap _ = (other.keys.map _).filterMap _
    rw [hkeys, hproblem]
  refine Reading.Outline.ext ?_ hdiagnostics
  rw [htables dump, hblocks, hkeys, hof, ← htables other]

theorem outline_ofDeclared {options other : Options} {fields others : List Field}
    (hid : OrderedMap.get? options "id" = OrderedMap.get? other "id")
    (hkey : OrderedMap.get? options "primary_key" = OrderedMap.get? other "primary_key")
    (hfields : (fields.map fun field => (field.name, field.type)) =
      others.map fun field => (field.name, field.type)) (indexes : List Index) :
    (Table.ofDeclared options fields indexes).outline =
      (Table.ofDeclared other others indexes).outline := by
  unfold Table.ofDeclared Table.idOption
  rw [hid, hkey]
  split
  · split_ifs
    · simp [Table.outline, hfields]
    · simp [Table.outline, hfields]
  · simp [Table.outline, hfields]

theorem get?_optionsUnder (filter : ArrayFilter) (options : Options) (key : String) :
    OrderedMap.get? (optionsUnder filter options) key =
      (OrderedMap.get? options key).map (Value.under filter) := by
  induction options with
  | nil => rfl
  | cons option options ih =>
    show OrderedMap.get? ((option.1, option.2.under filter) :: optionsUnder filter options) key = _
    simp only [OrderedMap.get?]
    split_ifs
    · rfl
    · exact ih

/-- What a comment is no part of is the same for all statements whatever the comment says. -/
theorem filterMap_setComment {α : Type} {f : Statement → Option α} {g : Options → Options}
    (hf : ∀ st : Statement, f ((st.setComment comment).mapOptions g) = f (st.mapOptions g))
    (statements : List Statement) (column : Nat) :
    ((statements.modify column (Statement.setComment comment)).map
        (Statement.mapOptions g)).filterMap f =
      (statements.map (Statement.mapOptions g)).filterMap f := by
  rw [List.filterMap_map, List.filterMap_map]
  exact filterMap_modify hf statements column

/-- The comment of a column is no part of the outline of its table. -/
theorem outline_setColumnComment (filter : ArrayFilter) (column : Nat) (comment : String)
    (block : Block) :
    ((block.setColumnComment column comment).mapOptions (optionsUnder filter)).outline =
      (block.mapOptions (optionsUnder filter)).outline := by
  have hindexes := @filterMap_setComment comment Index Statement.builtIndex? (optionsUnder filter)
    (fun st => by cases st <;> rfl) block.statements column
  have hfields := fun (f : Statement → Option Field) hf =>
    @filterMap_setComment comment (String × String)
      (fun st => (f st).map fun field => (field.name, field.type)) (optionsUnder filter) hf
      block.statements column
  have htable : ((block.setColumnComment column comment).mapOptions
        (optionsUnder filter)).built.outline =
      (block.mapOptions (optionsUnder filter)).built.outline := by
    unfold Block.built
    simp only [Block.mapOptions, Block.setColumnComment, hindexes]
    refine outline_ofDeclared rfl rfl ?_ _
    rw [List.map_append, List.map_append, List.map_filterMap, List.map_filterMap,
      List.map_filterMap, List.map_filterMap, hfields _ fun st => by cases st <;> rfl,
      hfields _ fun st => by cases st <;> rfl]
  unfold Block.outline
  rw [htable]
  rfl

/-- The comment of a table is no part of its outline. -/
theorem outline_setComment (filter : ArrayFilter) (comment : String) (block : Block) :
    ((block.setComment comment).mapOptions (optionsUnder filter)).outline =
      (block.mapOptions (optionsUnder filter)).outline := by
  have hget : ∀ key, commentKey ≠ key →
      OrderedMap.get? (optionsUnder filter (Dump.setComment comment block.options)) key =
        OrderedMap.get? (optionsUnder filter block.options) key := by
    intro key hkey
    rw [get?_optionsUnder, get?_optionsUnder, Dump.setComment, OrderedMap.get?_insert,
      if_neg hkey]
  have htable : ((block.setComment comment).mapOptions (optionsUnder filter)).built.outline =
      (block.mapOptions (optionsUnder filter)).built.outline :=
    outline_ofDeclared (hget "id" (by decide)) (hget "primary_key" (by decide)) rfl _
  unfold Block.outline
  rw [htable]
  rfl

variable {settings : Settings}

/-- An inert comment on a column leaves the outline of what is read as it is. -/
theorem outline_read_setColumnComment (h : dump.WellFormed settings.maxDepth)
    (hcomment : InertInBody comment) (table column : Nat) (singular : String → String) :
    (Schema.read settings singular
        (String.ofList (dump.setColumnComment table column comment).text)).outline =
      (Schema.read settings singular (String.ofList dump.text)).outline := by
  rw [read_text (h.quiet_setColumnComment hcomment table column), read_text h.quiet]
  refine outline_built ?_ ?_ singular
  · show ((dump.blocks.modify table _).map _).map _ = (dump.blocks.map _).map _
    rw [List.map_map, List.map_map]
    exact map_modify (fun block => outline_setColumnComment _ column comment block) dump.blocks table
  · rfl

/-- An inert comment on a table leaves the outline of what is read as it is. -/
theorem outline_read_setTableComment (h : dump.WellFormed settings.maxDepth)
    (hcomment : InertInHead comment) (table : Nat) (singular : String → String) :
    (Schema.read settings singular
        (String.ofList (dump.setTableComment table comment).text)).outline =
      (Schema.read settings singular (String.ofList dump.text)).outline := by
  rw [read_text (h.quiet_setTableComment hcomment table), read_text h.quiet]
  refine outline_built ?_ ?_ singular
  · show ((dump.blocks.modify table _).map _).map _ = (dump.blocks.map _).map _
    rw [List.map_map, List.map_map]
    exact map_modify (fun block => outline_setComment _ comment block) dump.blocks table
  · rfl

end Dump

open Dump

/-- What an inert comment says does not matter to the structure of a schema. -/
theorem Schema.outline_comment {settings : Settings} (singular : String → String) {dump : Dump}
    (h : dump.WellFormed settings.maxDepth) :
    (∀ (table column : Nat) (comment other : String), InertInBody comment → InertInBody other →
      (Schema.read settings singular
          (String.ofList (dump.setColumnComment table column comment).text)).outline =
        (Schema.read settings singular
          (String.ofList (dump.setColumnComment table column other).text)).outline) ∧
    (∀ (table : Nat) (comment other : String), InertInHead comment → InertInHead other →
      (Schema.read settings singular
          (String.ofList (dump.setTableComment table comment).text)).outline =
        (Schema.read settings singular
          (String.ofList (dump.setTableComment table other).text)).outline) := by
  constructor
  · intro table column comment other hcomment hother
    rw [outline_read_setColumnComment h hcomment, outline_read_setColumnComment h hother]
  · intro table comment other hcomment hother
    rw [outline_read_setTableComment h hcomment, outline_read_setTableComment h hother]

theorem Schema.outline_comment_shop :
    Dump.shop.WellFormed 2 ∧
      (InertInBody "do end, then t. |t|" ∧ InertInHead "do end, then t. add_foreign_key") ∧
      (Schema.read ⟨.present, 2⟩ English.singular (String.ofList
          (Dump.shop.setColumnComment 0 1 "do end, then t. |t|").text)).outline =
        (Schema.read ⟨.present, 2⟩ English.singular (String.ofList
          (Dump.shop.setColumnComment 0 1 "").text)).outline ∧
      (Schema.read ⟨.present, 2⟩ English.singular (String.ofList
          (Dump.shop.setTableComment 1 "do end, then t. add_foreign_key").text)).outline =
        (Schema.read ⟨.present, 2⟩ English.singular (String.ofList
          (Dump.shop.setTableComment 1 "").text)).outline := by
  have h : Dump.shop.WellFormed 2 := by decide +kernel
  have hbody : InertInBody "do end, then t. |t|" := .of_absent (by decide +kernel)
    (by decide +kernel) (by decide +kernel) (by decide +kernel) (by decide +kernel)
  have hhead : InertInHead "do end, then t. add_foreign_key" := .of_absent (by decide +kernel)
    (by decide +kernel) (by decide +kernel) (by decide +kernel)
  have hinert := @Schema.outline_comment ⟨.present, 2⟩ English.singular Dump.shop h
  exact ⟨h, ⟨hbody, hhead⟩, hinert.1 0 1 _ "" hbody .empty, hinert.2 1 _ "" hhead .empty⟩

/-! ## Comments that are not inert -/

/-- A table with a comment on itself and on its first column, commas in quotes behind each. -/
def Dump.journal : Dump where
  blocks := [
    { name := "log"
      options := [("comment", .str ""), ("a", .str ","), ("b", .str ","), ("id", .keyword .false)]
      statements := [
        .typed "date" "day" [("comment", .str ""), ("a", .str ","), ("b", .str ",")],
        .typed "date" "due" []] }]
  keys := []

/-- What can be compared of an outline by computing. -/
def Reading.Outline.shape (outline : Reading.Outline) :
    List (List (String × String) × Nat) × List Diagnostic :=
  (outline.tables.map fun entry => (entry.2.columns, entry.2.indexes.length), outline.diagnostics)

/-- Whatever an inert comment must not be, there is a comment of that kind that changes the
structure of a schema. -/
theorem Schema.outline_journal :
    let column comment := (Schema.read {} English.singular
      (String.ofList (Dump.journal.setColumnComment 0 0 comment).text)).outline
    let table comment := (Schema.read {} English.singular
      (String.ofList (Dump.journal.setTableComment 0 comment).text)).outline
    Dump.journal.WellFormed 64 ∧
      (∀ comment ∈ [" end ", "t.date ", "t.column ", "t.index [a], b", "add_foreign_key "],
        (∀ c ∈ ['"', '\\', '\n'], c ∉ comment.toList) ∧ column comment ≠ column "") ∧
      (∀ comment ∈ ["do |t|", "add_foreign_key "],
        (∀ c ∈ ['"', '\\', '\n'], c ∉ comment.toList) ∧ table comment ≠ table "") := by
  intro column table
  have hshapes : ((column "").shape = ([([("day", "date"), ("due", "date")], 0)], []) ∧
        ∀ comment ∈ [" end ", "t.date ", "t.column ", "t.index [a], b", "add_foreign_key "],
          (column comment).shape ≠ ([([("day", "date"), ("due", "date")], 0)], [])) ∧
      (table "").shape = ([([("day", "date"), ("due", "date")], 0)], []) ∧
        ∀ comment ∈ ["do |t|", "add_foreign_key "],
          (table comment).shape ≠ ([([("day", "date"), ("due", "date")], 0)], []) := by
    -- the text is searched as the list of characters that it is, not as the string made of them
    simp only [column, table, Schema.read_eq]
    unfold Schema.declared TableBlock.all ForeignKey.all ForeignKeyStatement.all sites
    simp only [String.toList_ofList]
    refine ⟨⟨?_, ?_⟩, ?_, ?_⟩ <;> decide +kernel
  obtain ⟨⟨hplain, hcolumn⟩, hplain', htable⟩ := hshapes
  refine ⟨by decide +kernel, fun comment hmem => ⟨?_, fun heq => ?_⟩,
    fun comment hmem => ⟨?_, fun heq => ?_⟩⟩
  · revert comment
    decide +kernel
  · exact hcolumn comment hmem (by rw [heq, hplain])
  · revert comment
    decide +kernel
  · exact htable comment hmem (by rw [heq, hplain'])

end RailsSchema
