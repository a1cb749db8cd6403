import RailsSchema.Proofs.Dump.Statements

/-!
# The bodies in a dump

`found_lines`: a search over the lines of a block finds what each statement is read as, once, and
nothing else. From it come the columns and the indexes of a body (`fields_bodyText`,
`indexes_bodyText`).
-/

namespace RailsSchema

open Text

namespace Dump

variable {p : Probe} {plain : String → Prop} {depth : Nat} {rest : List Char}

/-- The statements of a block without the white space around them. -/
def bodyText : List Statement → List Char
  | [] => []
  | statement :: statements => statement.text ++ statements.flatMap Statement.line

/-! ## One line after the other -/

theorem lines_cons (statement : Statement) (statements : List Statement) (rest : List Char) :
    (statement :: statements).flatMap Statement.line ++ rest =
      '\n' :: ([' ', ' '] ++ (bodyText (statement :: statements) ++ rest)) := by
  simp [Statement.line, bodyText]

theorem endsLine_newline {cs : List Char} (h : Follows ('\n' :: cs)) : EndsLine ('\n' :: cs) :=
  ⟨stops_cons.mpr (by decide), h⟩

theorem endsLine_lines (statements : List Statement) (h : EndsLine rest) :
    EndsLine (statements.flatMap Statement.line ++ rest) := by
  cases statements with
  | nil => exact h
  | cons statement statements =>
    have hindent : ∀ c ∈ [' ', ' '], isBlank c = true := by decide
    rw [lines_cons]
    exact endsLine_newline (follows_of_blank (by decide) hindent (stops_cons.mpr (by decide))
      (stops_cons.mpr (by decide)))

theorem silent_indent (hp : p.Regular) (before : Option Char) (rest : List Char) :
    p.Silent before ['\n', ' ', ' '] rest := Probe.silent_marks hp (by decide) before rest

/-- A search over a body, the probe that answers for it, and what it makes of each statement. -/
structure Reads {α : Type} (p : Probe) (keyword : List Char) (f : List Char → Option α)
    (g : Statement → Option α) : Prop where
  mem : p ∈ bodyProbes
  fires : ∀ before cs more a, isBoundary before = true → after? keyword cs = some more →
    f more = some a → p.fires before cs = true
  read : ∀ {plain : String → Prop} {depth : Nat} {statement : Statement} {rest : List Char},
    statement.Canonical plain depth → EndsLine rest →
      (after? keyword (statement.text ++ rest)).bind f = g statement

theorem reads_typed :
    Reads columnProbe "t.".toList ColumnStatement.typed? Statement.asTyped? :=
  ⟨by simp [bodyProbes], fun _ _ _ _ hbefore hafter h => fires_of_typed? hbefore hafter h,
    fun h hrest => bind_typed?_text h hrest⟩

theorem reads_generic :
    Reads columnProbe "t.column".toList ColumnStatement.generic? Statement.asGeneric? :=
  ⟨by simp [bodyProbes], fun _ _ _ _ hbefore hafter h => fires_of_generic? hbefore hafter h,
    fun h hrest => bind_generic?_text h hrest⟩

theorem reads_index :
    Reads indexProbe "t.index".toList IndexStatement.read? Statement.asIndex? :=
  ⟨by simp [bodyProbes], fun _ _ _ _ hbefore hafter h => fires_of_index hbefore hafter h,
    fun h hrest => bind_index_text h hrest⟩

section

variable {α : Type} {keyword : List Char} {f : List Char → Option α} {g : Statement → Option α}

/-- A search finds in a statement what it is read as, and nothing else. -/
theorem found_text (hreads : Reads p keyword f g)
    (hplain : ∀ content, plain content → p.Mutes content) {statement : Statement}
    (h : statement.Canonical plain depth) {before : Option Char}
    (hbefore : isBoundary before = true) (hrest : EndsLine rest) :
    found keyword f before (statement.text ++ rest) =
      (g statement).toList ++ found keyword f (lastOf before statement.text) rest := by
  have hbehind := silent_behind hreads.mem hplain h hrest.follows
  rw [← hreads.read h hrest, Statement.text, List.cons_append, found_cons, if_pos hbefore,
    found_of_silent hreads.fires hbehind]
  rfl

/-- A search finds in the lines of a block what each statement is read as. -/
theorem found_lines (hreads : Reads p keyword f g)
    (hplain : ∀ content, plain content → p.Mutes content) {statements : List Statement}
    (h : ∀ statement ∈ statements, statement.Canonical plain depth) (before : Option Char)
    (hrest : EndsLine rest) :
    found keyword f before (statements.flatMap Statement.line ++ rest) =
      statements.filterMap g ++
        found keyword f (lastOf before (statements.flatMap Statement.line)) rest := by
  induction statements generalizing before with
  | nil => rfl
  | cons statement statements ih =>
    have hnext : EndsLine (statements.flatMap Statement.line ++ rest) :=
      endsLine_lines statements hrest
    have hindent := silent_indent (regular_of_mem_bodyProbes hreads.mem) before
      (statement.text ++ (statements.flatMap Statement.line ++ rest))
    have hbefore : isBoundary (lastOf before ['\n', ' ', ' ']) = true :=
      (by decide : isBoundary (some ' ') = true)
    rw [List.flatMap_cons, List.append_assoc]
    show found keyword f before (['\n', ' ', ' '] ++ (statement.text ++ _)) = _
    rw [found_of_silent hreads.fires hindent,
      found_text hreads hplain (h statement List.mem_cons_self) hbefore hnext,
      ih fun st hst => h st (List.mem_cons_of_mem statement hst)]
    simp only [List.filterMap_cons, lastOf_append]
    cases g statement <;> rfl

/-- A search finds in a body what each statement is read as. -/
theorem found_bodyText (hreads : Reads p keyword f g)
    (hplain : ∀ content, plain content → p.Mutes content) {statements : List Statement}
    (h : ∀ statement ∈ statements, statement.Canonical plain depth) :
    found keyword f none (bodyText statements) = statements.filterMap g := by
  cases statements with
  | nil => rfl
  | cons statement statements =>
    have hlines := found_lines hreads hplain
      (fun st hst => h st (List.mem_cons_of_mem statement hst)) (lastOf none statement.text)
      endsLine_nil
    have hnext := endsLine_lines statements endsLine_nil
    rw [List.append_nil] at hlines hnext
    rw [bodyText, found_text hreads hplain (h statement List.mem_cons_self) rfl hnext, hlines,
      found_nil, List.append_nil, List.filterMap_cons]
    cases g statement <;> rfl

end

/-! ## Columns and indexes -/

section

variable {settings : Settings}

theorem parseOptions_bareText {options : Options}
    (h : CanonicalOptions plain settings.maxDepth options) :
    parseOptions settings (String.ofList (bareText options)) =
      optionsUnder settings.arrayFilter options := by
  have htrim := @trim_bareText plain settings.maxDepth options h [] [] (by simp) (by simp)
  rw [List.nil_append, List.append_nil] at htrim
  exact parseOptions_text h htrim

theorem builtTyped?_of_canonical {statement : Statement}
    (h : statement.Canonical plain settings.maxDepth) :
    statement.asTyped?.map (Field.ofStatement settings) =
      (statement.mapOptions (optionsUnder settings.arrayFilter)).builtTyped? := by
  cases statement with
  | typed type name options =>
    have hoptions : CanonicalOptions plain settings.maxDepth options := h.options
    show some (Field.ofOptions name type (parseOptions settings (String.ofList _))) = _
    rw [parseOptions_bareText hoptions]
    rfl
  | generic name type options => rfl
  | index columns options => rfl

theorem builtGeneric?_of_canonical {statement : Statement}
    (h : statement.Canonical plain settings.maxDepth) :
    statement.asGeneric?.map (Field.ofStatement settings) =
      (statement.mapOptions (optionsUnder settings.arrayFilter)).builtGeneric? := by
  cases statement with
  | typed type name options => rfl
  | generic name type options =>
    have hoptions : CanonicalOptions plain settings.maxDepth options := h.options
    show some (Field.ofOptions name type (parseOptions settings (String.ofList _))) = _
    rw [parseOptions_bareText hoptions]
    rfl
  | index columns options => rfl

theorem trim_subject (columns : List String) (options : Options) :
    trim (Statement.index columns options).subject = (Statement.index columns options).subject := by
  have h := @trim_append [] (Statement.index columns options).subject [] (by simp)
    (stops_cons.mpr (by decide)) (endsSolid_enclosed '[' _ (by decide)) (by simp)
  rwa [List.nil_append, List.append_nil] at h

/-- The text between the brackets of an index is read as the names of its columns. -/
theorem items_quoted (room : Nat) {columns : List String}
    (h : ∀ column ∈ columns, IsWord column.toList) :
    (Literal.items room (comma.intercalate (columns.map quoted))).items =
      columns.map Literal.str := by
  have hwritable : ∀ column ∈ columns, (Written.str column).value.Writable :=
    fun column hcolumn => Literal.not_mem_of_isWord (h column hcolumn) (by decide)
  have hitems := @Literal.items_text room (columns.map Written.str)
    (by simpa using hwritable) (by
      intro item hitem rest hrest
      obtain ⟨column, hcolumn, rfl⟩ := List.mem_map.mp hitem
      exact Literal.read?_text (hwritable column hcolumn) (Nat.zero_le _) hrest)
  rw [List.map_map, List.map_map] at hitems
  have hquoted : columns.map (Written.text ∘ Written.str) = columns.map quoted := rfl
  rw [hquoted] at hitems
  rw [hitems]
  rfl

theorem keeps_str (filter : ArrayFilter) {column : String} (h : IsWord column.toList) :
    filter.keeps (.str column) = true := by
  have hne : column ≠ "" := by
    rintro rfl
    exact h.1 rfl
  cases filter with
  | present => rfl
  | legacyTruthy => simpa [ArrayFilter.keeps, Value.isLegacyTruthy] using hne

/-- No filter drops a column from the list of an index, since no column is empty. -/
theorem columnNames_subject {columns : List String} {options : Options}
    (h : ∀ column ∈ columns, IsWord column.toList) :
    Index.columnNames settings (String.ofList (Statement.index columns options).subject) =
      columns := by
  have hstrip : stripOuter '[' ']' (Statement.index columns options).subject =
      comma.intercalate (columns.map quoted) := by
    simp [stripOuter, Statement.subject]
  have harray : parseArray settings (String.ofList (Statement.index columns options).subject) =
      columns.map Value.str := by
    rw [parseArray, Literal.arrayText, String.toList_ofList, trim_subject, hstrip,
      items_quoted settings.maxDepth h, Literal.itemValues_eq_filter, List.map_map]
    refine List.filter_eq_self.mpr fun value hvalue => ?_
    obtain ⟨column, hcolumn, rfl⟩ := List.mem_map.mp hvalue
    exact keeps_str settings.arrayFilter (h column hcolumn)
  rw [Index.columnNames, harray, List.filterMap_map]
  exact List.filterMap_some

theorem builtIndex?_of_canonical {statement : Statement}
    (h : statement.Canonical plain settings.maxDepth) :
    statement.asIndex?.bind (Index.ofStatement? settings) =
      (statement.mapOptions (optionsUnder settings.arrayFilter)).builtIndex? := by
  cases statement with
  | typed type name options => rfl
  | generic name type options => rfl
  | index columns options =>
    have hoptions : CanonicalOptions plain settings.maxDepth options := h.options
    have hcolumns := @columnNames_subject settings columns options h.subject.2
    show Index.ofStatement? settings _ = _
    simp only [Index.ofStatement?, hcolumns, parseOptions_bareText hoptions]
    cases columns with
    | nil => exact absurd rfl h.subject.1
    | cons column columns => rfl

variable {statements : List Statement}

/-- The columns of a body are those of its statements, those that name their type last first. -/
theorem fields_bodyText (hplain : ∀ content, plain content → columnProbe.Mutes content)
    (h : ∀ statement ∈ statements, statement.Canonical plain settings.maxDepth) :
    Field.all settings (String.ofList (bodyText statements)) =
      (statements.map (Statement.mapOptions (optionsUnder settings.arrayFilter))).filterMap
          Statement.builtGeneric? ++
        (statements.map (Statement.mapOptions (optionsUnder settings.arrayFilter))).filterMap
          Statement.builtTyped? := by
  have htyped : ColumnStatement.allTyped (String.ofList (bodyText statements)) =
      statements.filterMap Statement.asTyped? := by
    unfold ColumnStatement.allTyped
    rw [String.toList_ofList]
    exact found_bodyText reads_typed hplain h
  have hgeneric : ColumnStatement.allGeneric (String.ofList (bodyText statements)) =
      statements.filterMap Statement.asGeneric? := by
    unfold ColumnStatement.allGeneric
    rw [String.toList_ofList]
    exact found_bodyText reads_generic hplain h
  rw [Field.all, Field.statements, htyped, hgeneric, List.map_append, List.map_filterMap,
    List.map_filterMap, List.filterMap_map, List.filterMap_map]
  congr 1
  · exact List.filterMap_congr fun statement hmem => builtGeneric?_of_canonical (h statement hmem)
  · exact List.filterMap_congr fun statement hmem => builtTyped?_of_canonical (h statement hmem)

/-- The indexes of a body are those of its statements. -/
theorem indexes_bodyText (hplain : ∀ content, plain content → indexProbe.Mutes content)
    (h : ∀ statement ∈ statements, statement.Canonical plain settings.maxDepth) :
    Index.all settings (String.ofList (bodyText statements)) =
      (statements.map (Statement.mapOptions (optionsUnder settings.arrayFilter))).filterMap
        Statement.builtIndex? := by
  have hall : IndexStatement.all (String.ofList (bodyText statements)) =
      statements.filterMap Statement.asIndex? := by
    unfold IndexStatement.all
    rw [String.toList_ofList]
    exact found_bodyText reads_index hplain h
  rw [Index.all, hall, List.filterMap_filterMap, List.filterMap_map]
  exact List.filterMap_congr fun statement hmem => builtIndex?_of_canonical (h statement hmem)

end

end Dump

end RailsSchema
