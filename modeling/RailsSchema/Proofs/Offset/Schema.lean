import RailsSchema.Definition.Schema
import RailsSchema.Singular
import RailsSchema.Proofs.Offset.Literal
import RailsSchema.Proofs.Offset.Table

/-!
# Schemas by byte offsets

Reading a whole schema puts the searches and readers by offsets together. The only offsets that are
computed outside the text of the schema are those in the name of a table, which is cut at an ending
found in its lower case copy; lower case leaves the number of bytes of every character as it was
(`utf8Size_toLower`).

* `singular_eq`: the singular of a name;
* `fields_eq`, `indexes_eq`, `table_eq`, `foreignKeys_eq`: the parts of a schema;
* `Schema.read_offsets`: no access fails, on any text and with any settings.
-/

namespace RailsSchema.Offset

open Text

/-! ## Singulars -/

/-- A word with the first of some endings replaced that fits it; the rest of it is a slice. -/
def replaceEnding (word lower : List Char) :
    List (String × String) → Except OffsetError (List Char)
  | [] => return word
  | (ending, other) :: endings => do
    if byteLength ending.toList < byteLength lower ∧ ending.toList <:+ lower then
      let stem ← slice word 0 (← back (byteLength word) (byteLength ending.toList))
      return English.withCaseOf word (stem ++ other.toList)
    else replaceEnding word lower endings

/-- The singular of a word. -/
def singularWord (word : List Char) : Except OffsetError (List Char) := do
  let lower := word.map Char.toLower
  if English.uncountable.any (·.toList == lower) then return word
  else
    match English.irregular.find? fun entry => entry.1.toList == lower with
    | some entry => return English.withCaseOf word entry.2.toList
    | none =>
      if English.isPluralOfUs lower then slice word 0 (← back (byteLength word) 2)
      else replaceEnding word lower English.endings

/-- The singular of a name. -/
def singular (name : String) : Except OffsetError String := do
  let last := English.lastSegment name.toList
  let word := if last.isEmpty then name.toList else last
  return String.ofList (upTo name.toList word ++ (← singularWord word))

/-- A character in lower case takes as many bytes as before. -/
theorem utf8Size_toLower (c : Char) : c.toLower.utf8Size = c.utf8Size := by
  unfold Char.toLower
  split
  · next h =>
    have hupper : c.val.toNat ≤ 90 := h.2
    have hlower : (c.val + ('a'.val - 'A'.val)).toNat ≤ 127 := by
      rw [UInt32.toNat_add]
      show (c.val.toNat + 32) % 4294967296 ≤ 127
      omega
    have hsmall : c.val ≤ 127 := Nat.le_trans hupper (by decide)
    exact (Char.utf8Size_eq_one_iff.mpr hlower).trans (Char.utf8Size_eq_one_iff.mpr hsmall).symm
  · rfl

theorem byteLength_map_toLower (cs : List Char) : byteLength (cs.map Char.toLower) = byteLength cs := by
  induction cs with
  | nil => rfl
  | cons c cs ih => rw [List.map_cons, byteLength_cons, byteLength_cons, utf8Size_toLower, ih]

/-- A word without an ending that it has in lower case is a slice of it. -/
theorem slice_stem {word stem ending : List Char} (h : word.map Char.toLower = stem ++ ending) :
    ∃ stop, back (byteLength word) (byteLength ending) = .ok stop ∧
      slice word 0 stop = .ok (word.take stem.length) := by
  have hsplit := List.take_append_drop stem.length word
  have hending : (word.drop stem.length).map Char.toLower = ending := by
    rw [List.map_drop, h, List.drop_left]
  have hlength := byteLength_map_toLower (word.drop stem.length)
  rw [hending] at hlength
  have hsuffix : word.drop stem.length ++ [] <:+ word := by
    rw [List.append_nil]
    exact List.drop_suffix _ _
  have hback := back_offsetOf hsuffix
  rw [List.append_nil, offsetOf_nil, ← hlength] at hback
  refine ⟨_, hback, ?_⟩
  rw [slice_zero (List.drop_suffix _ _)]
  have hupTo := upTo_append (word.take stem.length) (word.drop stem.length)
  rw [hsplit] at hupTo
  rw [hupTo]

theorem replaceEnding_eq (word : List Char) (endings : List (String × String)) :
    replaceEnding word (word.map Char.toLower) endings =
      .ok ((endings.findSome? (English.replaceEnding? word (word.map Char.toLower))).getD word) := by
  induction endings with
  | nil => rfl
  | cons entry endings ih =>
    obtain ⟨ending, other⟩ := entry
    rw [replaceEnding, List.findSome?_cons, English.replaceEnding?]
    cases hstem : English.stem? ending.toList (word.map Char.toLower) with
    | none =>
      have hno : ¬ ending.toList <:+ word.map Char.toLower := by
        rintro ⟨stem, heq⟩
        rw [English.stem?_eq_some_iff.mpr heq.symm] at hstem
        cases hstem
      rw [if_neg fun h => hno h.2, ih]
    | some stem =>
      have heq := English.stem?_eq_some_iff.mp hstem
      cases stem with
      | nil =>
        have hshort : ¬ byteLength ending.toList < byteLength (word.map Char.toLower) := by
          rw [heq]
          exact Nat.lt_irrefl _
        rw [if_neg fun h => hshort h.1, ih]
      | cons c stem =>
        obtain ⟨stop, hback, hslice⟩ := slice_stem heq
        have hfits : byteLength ending.toList < byteLength (word.map Char.toLower) ∧
            ending.toList <:+ word.map Char.toLower := by
          rw [heq]
          exact ⟨by rw [byteLength_append, byteLength_cons]; have := c.utf8Size_pos; omega,
            List.suffix_append _ _⟩
        rw [if_pos hfits, hback, ok_bind, hslice]
        rfl

/-- The plural of a word in `us` is two bytes longer. -/
theorem slice_pluralOfUs {word : List Char}
    (h : English.isPluralOfUs (word.map Char.toLower) = true) :
    ∃ stop, back (byteLength word) 2 = .ok stop ∧
      slice word 0 stop = .ok word.dropLast.dropLast := by
  unfold English.isPluralOfUs at h
  split at h
  · next stem hstem =>
    have heq : word.map Char.toLower = (stem ++ ['u', 's']) ++ ['e', 's'] := by
      rw [English.stem?_eq_some_iff.mp hstem, List.append_assoc]
      rfl
    have hlength := congrArg List.length heq
    obtain ⟨stop, hback, hslice⟩ := slice_stem heq
    refine ⟨stop, hback, hslice.trans ?_⟩
    have hcount : (stem ++ ['u', 's']).length =
        min (min (word.length - 1) word.length - 1) (word.length - 1) := by
      simp only [List.length_map, List.length_append, List.length_cons, List.length_nil] at hlength ⊢
      omega
    rw [List.dropLast_eq_take, List.dropLast_eq_take, List.length_take, List.take_take, hcount]
  · cases h

theorem singularWord_eq (word : List Char) :
    singularWord word = .ok (English.singularWord word) := by
  rw [singularWord, English.singularWord]
  split
  · rfl
  cases English.irregular.find? fun entry => entry.1.toList == word.map Char.toLower with
  | some entry => rfl
  | none =>
    by_cases hus : English.isPluralOfUs (word.map Char.toLower) = true
    · obtain ⟨stop, hback, hslice⟩ := slice_pluralOfUs hus
      simp only [if_pos hus, hback, ok_bind, hslice]
    · simp only [if_neg hus, replaceEnding_eq]

theorem singular_eq (name : String) : singular name = .ok (English.singular name) := by
  rw [singular, singularWord_eq, ok_bind]
  rfl

/-! ## Tables -/

variable (settings : Settings)

/-- The option map written in a text. -/
def options (text : String) : Except OffsetError Options := do
  let written ← listing (entry (literal settings.maxDepth))
    (stripOuter '\x7b' '\x7d' (trim text.toList)) 0
  return OrderedMap.ofEntries (Literal.entryValues settings.arrayFilter written.items)

/-- The values of the list written in a text. -/
def array (text : String) : Except OffsetError (List Value) := do
  let written ← listing (item (literal settings.maxDepth)) (stripOuter '[' ']' (trim text.toList)) 0
  return Literal.itemValues settings.arrayFilter written.items

/-- The fields that a table body declares. -/
def fields (body : String) : Except OffsetError (List Field) := do
  let generic ← statements "t.column" genericColumn body.toList
  let typed ← statements "t." typedColumn body.toList
  (generic ++ typed).mapM fun statement => do
    return Field.ofOptions statement.name statement.type (← options settings statement.options)

/-- The index that a statement declares, if it names a column. -/
def index (statement : IndexStatement) : Except OffsetError (Option Index) := do
  match (← array settings statement.columns).filterMap Value.name? with
  | [] => return none
  | columns => return some (Index.ofOptions columns (← options settings statement.options))

/-- The indexes that a table body declares. -/
def indexes (body : String) : Except OffsetError (List Index) := do
  collect (index settings) (← statements "t.index" indexStatement body.toList)

/-- The table that a block declares. -/
def table (block : TableBlock) : Except OffsetError Table := do
  let fields ← fields settings block.body
  let indexes ← indexes settings block.body
  return Table.ofDeclared (← options settings block.options) fields indexes

/-- The foreign keys that a text declares. -/
def foreignKeys (text : String) : Except OffsetError (List ForeignKey) := do
  (← statements "add_foreign_key" foreignKeyStatement text.toList).mapM fun statement => do
    let word ← singular statement.toTable
    return ForeignKey.ofOptions (fun _ => word) statement.fromTable statement.toTable
      (← options settings statement.options)

/-- Reads a schema. -/
def read (text : String) : Except OffsetError Reading := do
  let tables ← (← tableBlocks text.toList).mapM fun block => do
    return (block.name, ← table settings block)
  let keys ← foreignKeys settings text
  return keys.foldl Schema.resolve ⟨OrderedMap.ofEntries tables, []⟩

variable {settings}

theorem mapM_eq {α β : Type} {f : α → Except OffsetError β} {g : α → β} {l : List α}
    (h : ∀ a ∈ l, f a = .ok (g a)) : l.mapM f = .ok (l.map g) := by
  induction l with
  | nil => rfl
  | cons a l ih =>
    obtain ⟨ha, hl⟩ := List.forall_mem_cons.mp h
    rw [List.mapM_cons, ha, ok_bind, ih hl]
    rfl

theorem options_eq (settings : Settings) (text : String) :
    options settings text = .ok (parseOptions settings text) := by
  rw [options, entries_eq]
  rfl

theorem array_eq (settings : Settings) (text : String) :
    array settings text = .ok (parseArray settings text) := by
  rw [array, items_eq]
  rfl

theorem fields_eq (settings : Settings) (body : String) :
    fields settings body = .ok (Field.all settings body) := by
  have hgeneric := statements_eq "t.column" body.toList
    ⟨_, _, rfl, by decide⟩ fun _ => genericColumn_offsetOf
  have htyped := statements_eq "t." body.toList
    ⟨_, _, rfl, by decide⟩ fun _ => typedColumn_offsetOf
  rw [fields, hgeneric, ok_bind, htyped, ok_bind]
  exact mapM_eq fun statement _ => by rw [options_eq]; rfl

theorem index_eq (settings : Settings) (statement : IndexStatement) :
    index settings statement = .ok (Index.ofStatement? settings statement) := by
  rw [index, array_eq, ok_bind, options_eq, Index.ofStatement?, Index.columnNames]
  cases (parseArray settings statement.columns).filterMap Value.name? <;> rfl

theorem indexes_eq (settings : Settings) (body : String) :
    indexes settings body = .ok (Index.all settings body) := by
  have hstatements := statements_eq "t.index" body.toList
    ⟨_, _, rfl, by decide⟩ fun _ => indexStatement_offsetOf
  rw [indexes, hstatements, ok_bind]
  have hcollect : collect (index settings) ((IndexStatement.all body).map id) =
      .ok (Index.all settings body) :=
    collect_map fun statement _ => index_eq settings statement
  rwa [List.map_id] at hcollect

theorem table_eq (settings : Settings) (block : TableBlock) :
    table settings block = .ok (Table.ofBlock settings block) := by
  rw [table, fields_eq, ok_bind, indexes_eq, ok_bind, options_eq]
  rfl

/-- A foreign key depends on singulars only by that of the table that it points to. -/
theorem ofOptions_const (singular : String → String) (fromTable toTable : String)
    (options : Options) :
    ForeignKey.ofOptions (fun _ => singular toTable) fromTable toTable options =
      ForeignKey.ofOptions singular fromTable toTable options := rfl

theorem foreignKeys_eq (settings : Settings) (text : String) :
    foreignKeys settings text = .ok (ForeignKey.all settings English.singular text) := by
  have hstatements := statements_eq "add_foreign_key" text.toList
    ⟨_, _, rfl, by decide⟩ fun _ => foreignKeyStatement_offsetOf
  rw [foreignKeys, hstatements, ok_bind]
  exact mapM_eq fun statement _ => by
    rw [singular_eq, ok_bind, options_eq, ok_bind, pure_eq_ok, ofOptions_const]
    rfl

theorem read_eq (settings : Settings) (text : String) :
    read settings text = .ok (Schema.read settings English.singular text) := by
  rw [read, tableBlocks_eq, ok_bind, mapM_eq fun block _ => by rw [table_eq]; rfl, ok_bind,
    foreignKeys_eq]
  rfl

end RailsSchema.Offset

namespace RailsSchema

open Text

/-- Reading by offsets never fails: every text is read as it is read on characters. A literal can be
read, and the end of a group be searched for, from just the offsets that are places of the text. -/
theorem Schema.read_offsets (settings : Settings) :
    (∀ text, Offset.read settings text = .ok (Schema.read settings English.singular text)) ∧
      ∀ (text : List Char) (pos : Nat),
        Offset.literal settings.maxDepth text pos = Literal.readAt settings.maxDepth text pos ∧
          Offset.groupEnd text pos = groupEnd? text pos ∧
          ((∃ e, Offset.literal settings.maxDepth text pos = .error e) ↔
            byteLength text < pos ∨ ¬ IsPlace text pos) ∧
          ((∃ e, Offset.groupEnd text pos = .error e) ↔
            byteLength text < pos ∨ ¬ IsPlace text pos) := by
  refine ⟨Offset.read_eq settings, fun text pos => ?_⟩
  have hliteral := Offset.literal_eq settings.maxDepth text pos
  have hgroup := Offset.groupEnd_eq text pos
  refine ⟨hliteral, hgroup, ?_, ?_⟩
  · rw [hliteral]
    exact exists_error_iff
  · rw [hgroup]
    exact exists_error_iff

end RailsSchema
