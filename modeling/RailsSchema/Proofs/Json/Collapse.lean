import RailsSchema.Proofs.Definition.Sound
import RailsSchema.Proofs.Json.Schema
import RailsSchema.Singular
import Mathlib.Data.List.Forall2

/-!
# Readers that keep one member for each key

Most readers of JSON make a map of an object, where the last of several members with one key counts.
`Json.Document.collapse` is what such a reader makes of a document. Since options are members of the
object of their definition, an option may have the key of another member there, and then one of the
two is lost: the options of a table are, and the attributes of all other definitions.

* `Json.Document.member?_collapse_append`: what is found in an object of two parts;
* `Field.recovered_collapse`, `Index.recovered_collapse`, `ForeignKey.recovered_collapse`,
  `Table.recovered_collapse`: what can be told of one definition;
* `Schema.distinctKeys_document_iff`: when no member is lost;
* `Schema.collapse_read`: all of this for a schema that is read from a text.
-/

namespace RailsSchema

open Json

namespace Json.Document

/-! ## Documents as maps -/

mutual

/-- A document in which every object is the map that its members make. -/
def collapse : Document → Document
  | .null => .null
  | .bool value => .bool value
  | .number text => .number text
  | .str text => .str text
  | .arr items => .arr (collapseItems items)
  | .obj members => .obj (OrderedMap.ofEntries (collapseMembers members))

/-- Collapses the items of an array. -/
def collapseItems : List Document → List Document
  | [] => []
  | item :: items => item.collapse :: collapseItems items

/-- Collapses what stands under the keys of an object. -/
def collapseMembers : List (String × Document) → List (String × Document)
  | [] => []
  | (key, value) :: members => (key, value.collapse) :: collapseMembers members

end

mutual

/-- Whether no object in a document has a key twice. -/
def DistinctKeys : Document → Prop
  | .arr items => DistinctKeysItems items
  | .obj members => (OrderedMap.keys members).Nodup ∧ DistinctKeysMembers members
  | _ => True

/-- Whether no object in the items of an array has a key twice. -/
def DistinctKeysItems : List Document → Prop
  | [] => True
  | item :: items => item.DistinctKeys ∧ DistinctKeysItems items

/-- Whether no object under the keys of an object has a key twice. -/
def DistinctKeysMembers : List (String × Document) → Prop
  | [] => True
  | (_, value) :: members => value.DistinctKeys ∧ DistinctKeysMembers members

end

/-- What stands under a key. -/
def member? : Document → String → Option Document
  | .obj members, key => OrderedMap.get? members key
  | _, _ => none

/-- The items of an array. -/
def items : Document → List Document
  | .arr items => items
  | _ => []

/-- The text of a string. -/
def text? : Document → Option String
  | .str text => some text
  | _ => none

theorem collapseItems_eq_map (items : List Document) :
    collapseItems items = items.map collapse := by
  induction items with
  | nil => rfl
  | cons item items ih => rw [collapseItems, ih, List.map_cons]

theorem collapseMembers_eq_map (members : List (String × Document)) :
    collapseMembers members = members.map fun member => (member.1, member.2.collapse) := by
  induction members with
  | nil => rfl
  | cons member members ih => rw [collapseMembers, ih, List.map_cons]

theorem distinctKeys_arr_iff {items : List Document} :
    DistinctKeys (.arr items) ↔ ∀ item ∈ items, item.DistinctKeys := by
  rw [DistinctKeys]
  induction items with
  | nil => simp [DistinctKeysItems]
  | cons item items ih => rw [DistinctKeysItems, ih, List.forall_mem_cons]

theorem distinctKeys_obj_iff {members : List (String × Document)} :
    DistinctKeys (.obj members) ↔
      (OrderedMap.keys members).Nodup ∧ ∀ member ∈ members, member.2.DistinctKeys := by
  rw [DistinctKeys]
  refine and_congr_right' ?_
  induction members with
  | nil => simp [DistinctKeysMembers]
  | cons member members ih => rw [DistinctKeysMembers, ih, List.forall_mem_cons]

/-- What is found in an object of two parts is what is found in the second, or else in the first. -/
theorem member?_collapse_append {first second : List (String × Document)}
    (hfirst : (OrderedMap.keys first).Nodup) (hsecond : (OrderedMap.keys second).Nodup)
    (key : String) :
    (collapse (.obj (first ++ second))).member? key =
      ((OrderedMap.get? second key).or (OrderedMap.get? first key)).map collapse := by
  have hsame : ∀ members : List (String × Document), (OrderedMap.keys members).Nodup →
      OrderedMap.ofEntries (collapseMembers members) = collapseMembers members := by
    intro members hnodup
    have hkeys : OrderedMap.keys (collapseMembers members) = OrderedMap.keys members := by
      simp [collapseMembers_eq_map, OrderedMap.keys, Function.comp_def]
    exact OrderedMap.ofEntries_of_nodup (hkeys ▸ hnodup)
  have hsplit : collapseMembers (first ++ second) =
      collapseMembers first ++ collapseMembers second := by
    simp only [collapseMembers_eq_map, List.map_append]
  show OrderedMap.get? (OrderedMap.ofEntries (collapseMembers (first ++ second))) key = _
  rw [hsplit, OrderedMap.get?_ofEntries_append, hsame first hfirst, hsame second hsecond,
    collapseMembers_eq_map, collapseMembers_eq_map, OrderedMap.get?_map, OrderedMap.get?_map,
    Option.map_or]

end Json.Document

open Json.Document

/-! ## Values and options -/

variable {depth : Nat}

@[simp] theorem Options.keys_members (options : Options) :
    OrderedMap.keys options.members = OrderedMap.keys options := by
  simp [Options.members, OrderedMap.keys, Function.comp_def]

/-- Nothing in a value is lost. -/
theorem Value.collapse_document {value : Value} (h : value.Each Value.InOrder) :
    value.document.collapse = value.document := by
  induction value using Value.induction with
  | array items ih =>
    show Document.arr (collapseItems (Value.itemDocuments items)) = .arr (Value.itemDocuments items)
    rw [collapseItems_eq_map, Value.itemDocuments_eq_map, List.map_map]
    refine congrArg Document.arr (List.map_congr_left fun item hitem => ?_)
    exact ih item hitem (Value.eachItem_iff.mp h.2 item hitem)
  | hash entries ih =>
    have hmembers : collapseMembers (Options.members entries) = Options.members entries := by
      rw [collapseMembers_eq_map, Options.members, List.map_map]
      refine List.map_congr_left fun entry hentry => congrArg (entry.1, ·) ?_
      exact ih entry hentry (Value.eachEntry_iff.mp h.2 entry hentry)
    show Document.obj (OrderedMap.ofEntries (collapseMembers (Value.entryDocuments entries))) =
      .obj (Value.entryDocuments entries)
    rw [Value.entryDocuments_eq_members, hmembers]
    exact congrArg Document.obj (OrderedMap.ofEntries_of_nodup (Options.keys_members entries ▸ h.1))
  | keyword word => cases word <;> rfl
  | _ => rfl

theorem Value.distinctKeys_document {value : Value} (h : value.Each Value.InOrder) :
    value.document.DistinctKeys := by
  induction value using Value.induction with
  | array items ih =>
    show DistinctKeys (.arr (Value.itemDocuments items))
    rw [distinctKeys_arr_iff, Value.itemDocuments_eq_map, List.forall_mem_map]
    exact fun item hitem => ih item hitem (Value.eachItem_iff.mp h.2 item hitem)
  | hash entries ih =>
    show DistinctKeys (.obj (Value.entryDocuments entries))
    rw [distinctKeys_obj_iff, Value.entryDocuments_eq_members, Options.keys_members, Options.members,
      List.forall_mem_map]
    exact ⟨h.1, fun entry hentry => ih entry hentry (Value.eachEntry_iff.mp h.2 entry hentry)⟩
  | keyword word => cases word <;> exact trivial
  | _ => exact trivial

namespace Options

theorem Sound.nodup_keys_members {options : Options} (h : options.Sound depth) :
    (OrderedMap.keys options.members).Nodup := by
  rw [keys_members]
  exact h.nodup

/-- What is found under a key of options is the value, whole. -/
theorem Sound.collapse_get?_members {options : Options} (h : options.Sound depth) (key : String) :
    (OrderedMap.get? options.members key).map collapse =
      (OrderedMap.get? options key).map Value.document := by
  unfold members
  rw [OrderedMap.get?_map, Option.map_map]
  cases hfound : OrderedMap.get? options key with
  | none => rfl
  | some value => exact congrArg some (Value.collapse_document (h.get? hfound).inOrder)

variable {own : List (String × Document)}

theorem Sound.member?_collapse_own_append {options : Options} (h : options.Sound depth)
    (hown : (OrderedMap.keys own).Nodup) (key : String) :
    (collapse (.obj (own ++ options.members))).member? key =
      ((OrderedMap.get? options key).map Value.document).or
        ((OrderedMap.get? own key).map collapse) := by
  rw [member?_collapse_append hown h.nodup_keys_members, Option.map_or, h.collapse_get?_members]

theorem Sound.member?_collapse_append_own {options : Options} (h : options.Sound depth)
    (hown : (OrderedMap.keys own).Nodup) (key : String) :
    (collapse (.obj (options.members ++ own))).member? key =
      ((OrderedMap.get? own key).map collapse).or
        ((OrderedMap.get? options key).map Value.document) := by
  rw [member?_collapse_append h.nodup_keys_members hown, Option.map_or, h.collapse_get?_members]

/-- An option behind the members of a definition is found. -/
theorem Sound.member?_collapse_option {options : Options} (h : options.Sound depth)
    (hown : (OrderedMap.keys own).Nodup) {key : String} {value : Value}
    (hmem : (key, value) ∈ options) :
    (collapse (.obj (own ++ options.members))).member? key = some value.document := by
  rw [h.member?_collapse_own_append hown, OrderedMap.get?_eq_some_of_mem h.nodup hmem]
  rfl

/-- A member in front of options is found if no option has its key. -/
theorem Sound.member?_collapse_own {options : Options} (h : options.Sound depth)
    (hown : (OrderedMap.keys own).Nodup) {key : String} (hkey : key ∉ OrderedMap.keys options) :
    (collapse (.obj (own ++ options.members))).member? key =
      (OrderedMap.get? own key).map collapse := by
  rw [h.member?_collapse_own_append hown, OrderedMap.get?_eq_none_iff.mpr hkey]
  rfl

/-- Members and options have distinct keys if no option has the key of a member. -/
theorem Sound.nodup_keys_append_iff {options : Options} (h : options.Sound depth)
    (hown : (OrderedMap.keys own).Nodup) :
    (OrderedMap.keys (own ++ options.members)).Nodup ↔
      ∀ key ∈ OrderedMap.keys own, key ∉ OrderedMap.keys options := by
  have hsplit : OrderedMap.keys (own ++ options.members) =
      OrderedMap.keys own ++ OrderedMap.keys options := by
    rw [← keys_members options]
    exact List.map_append
  rw [hsplit, List.nodup_append]
  constructor
  · rintro ⟨-, -, hne⟩ key hmem hoption
    exact hne key hmem key hoption rfl
  · intro habsent
    refine ⟨hown, h.nodup, fun key hmem other hoption heq => ?_⟩
    rw [← heq] at hoption
    exact habsent key hmem hoption

theorem Sound.distinctKeys_members {options : Options} (h : options.Sound depth) :
    ∀ member ∈ options.members, member.2.DistinctKeys := by
  unfold members
  rw [List.forall_mem_map]
  exact fun option hoption => Value.distinctKeys_document (h.value option hoption).inOrder

/-- An object of members and options has no key twice, if no option has the key of a member and the
members are so themselves. -/
theorem Sound.distinctKeys_own_append_iff {options : Options} (h : options.Sound depth)
    (hown : (OrderedMap.keys own).Nodup) :
    DistinctKeys (.obj (own ++ options.members)) ↔
      (∀ key ∈ OrderedMap.keys own, key ∉ OrderedMap.keys options) ∧
        ∀ member ∈ own, member.2.DistinctKeys := by
  rw [distinctKeys_obj_iff, h.nodup_keys_append_iff hown, List.forall_mem_append]
  exact and_congr_right' (and_iff_left h.distinctKeys_members)

/-- Of a definition whose options are no attributes, no object has a key twice if and only if no
option has the key of one of the members that may be shadowed, which are all that are not attributes
too. -/
theorem SoundWithout.distinctKeys_iff {options : Options} {attributes shadowable : List String}
    (h : options.SoundWithout attributes depth) (hown : (OrderedMap.keys own).Nodup)
    (hmembers : ∀ member ∈ own, member.2.DistinctKeys)
    (hshadowable : ∀ key ∈ shadowable, key ∈ OrderedMap.keys own)
    (hothers : ∀ key ∈ OrderedMap.keys own, key ∈ shadowable ∨ key ∈ attributes) :
    DistinctKeys (.obj (own ++ options.members)) ↔
      ∀ key ∈ shadowable, key ∉ OrderedMap.keys options := by
  rw [h.sound.distinctKeys_own_append_iff hown, and_iff_left hmembers]
  constructor
  · intro habsent key hmem
    exact habsent key (hshadowable key hmem)
  · intro habsent key hmem
    rcases hothers key hmem with hkey | hkey
    · exact habsent key hkey
    · exact h.absent key hkey

end Options

/-! ## Fields -/

namespace Field

/-- What a reader of a collapsed document can tell of a field. -/
structure RecoveredFrom (field : Field) (document : Document) : Prop where
  name : "name" ∉ OrderedMap.keys field.options → document.member? "name" = some (.str field.name)
  type : "type" ∉ OrderedMap.keys field.options → document.member? "type" = some (.str field.type)
  nullable : "nullable" ∉ OrderedMap.keys field.options →
    document.member? "nullable" = some (.bool field.nullable)
  options : ∀ key value, (key, value) ∈ field.options →
    document.member? key = some value.document

/-- Whether no option of a field has the key of another member. -/
def Unshadowed (field : Field) : Prop :=
  ∀ key ∈ ["name", "type", "nullable"], key ∉ OrderedMap.keys field.options

theorem keys_ownMembers (field : Field) :
    OrderedMap.keys field.ownMembers = ["name", "type", "nullable"] ++
      (field.default.toList.map fun _ => "default") ++
      field.comment.toList.map fun _ => "comment" := by
  simp [OrderedMap.keys, ownMembers, Function.comp_def]

theorem nodup_keys_ownMembers (field : Field) : (OrderedMap.keys field.ownMembers).Nodup := by
  rw [keys_ownMembers]
  cases field.default <;> cases field.comment <;> simp

theorem recovered_collapse {field : Field} (h : field.Sound depth) :
    field.RecoveredFrom field.document.collapse := by
  have hown := field.nodup_keys_ownMembers
  have hsound := h.options.sound
  refine ⟨fun hname => ?_, fun htype => ?_, fun hnullable => ?_, fun key value hmem => ?_⟩
  · exact hsound.member?_collapse_own hown hname
  · exact hsound.member?_collapse_own hown htype
  · exact hsound.member?_collapse_own hown hnullable
  · exact hsound.member?_collapse_option hown hmem

theorem distinctKeys_document_iff {field : Field} (h : field.Sound depth) :
    field.document.DistinctKeys ↔ field.Unshadowed := by
  have hmembers : ∀ member ∈ field.ownMembers, member.2.DistinctKeys := by
    intro member hmem
    simp only [ownMembers, List.mem_append, List.mem_map, List.mem_cons, List.not_mem_nil,
      or_false, Option.mem_toList] at hmem
    rcases hmem with ((rfl | rfl | rfl) | ⟨value, hvalue, rfl⟩) | ⟨text, -, rfl⟩
    · exact trivial
    · exact trivial
    · exact trivial
    · exact Value.distinctKeys_document (h.default value hvalue).inOrder
    · exact trivial
  apply h.options.distinctKeys_iff field.nodup_keys_ownMembers hmembers
  · intro key hmem
    rw [keys_ownMembers]
    exact List.mem_append_left _ (List.mem_append_left _ hmem)
  · rw [keys_ownMembers]
    cases field.default <;> cases field.comment <;> simp

end Field

/-! ## Indexes -/

namespace Index

/-- What a reader of a collapsed document can tell of an index. -/
structure RecoveredFrom (index : Index) (document : Document) : Prop where
  columns : "columns" ∉ OrderedMap.keys index.options →
    document.member? "columns" = some (.arr (index.columns.map .str))
  unique : document.member? "unique" = some (.bool index.unique)
  options : ∀ key value, (key, value) ∈ index.options →
    document.member? key = some value.document

/-- Whether no option of an index has the key of another member. -/
def Unshadowed (index : Index) : Prop :=
  ∀ key ∈ ["columns"], key ∉ OrderedMap.keys index.options

theorem keys_ownMembers (index : Index) :
    OrderedMap.keys index.ownMembers =
      ["columns", "unique"] ++ index.name.toList.map fun _ => "name" := by
  simp [OrderedMap.keys, ownMembers, Function.comp_def]

theorem nodup_keys_ownMembers (index : Index) : (OrderedMap.keys index.ownMembers).Nodup := by
  rw [keys_ownMembers]
  cases index.name <;> simp

theorem recovered_collapse {index : Index} (h : index.Sound depth) :
    index.RecoveredFrom index.document.collapse := by
  have hown := index.nodup_keys_ownMembers
  have hsound := h.options.sound
  have hunique : "unique" ∉ OrderedMap.keys index.options :=
    h.options.absent "unique" (by decide)
  have hcolumns : collapse (.arr (index.columns.map .str)) = .arr (index.columns.map .str) := by
    show Document.arr (collapseItems _) = _
    rw [collapseItems_eq_map, List.map_map]
    rfl
  refine ⟨fun hcolumn => ?_, ?_, fun key value hmem => ?_⟩
  · refine (hsound.member?_collapse_own hown hcolumn).trans ?_
    show some (collapse _) = _
    rw [hcolumns]
  · exact hsound.member?_collapse_own hown hunique
  · exact hsound.member?_collapse_option hown hmem

theorem distinctKeys_document_iff {index : Index} (h : index.Sound depth) :
    index.document.DistinctKeys ↔ index.Unshadowed := by
  have hmembers : ∀ member ∈ index.ownMembers, member.2.DistinctKeys := by
    intro member hmem
    simp only [ownMembers, List.mem_append, List.mem_map, List.mem_cons, List.not_mem_nil,
      or_false, Option.mem_toList] at hmem
    rcases hmem with (rfl | rfl) | ⟨name, -, rfl⟩
    · rw [distinctKeys_arr_iff, List.forall_mem_map]
      exact fun _ _ => trivial
    · exact trivial
    · exact trivial
  apply h.options.distinctKeys_iff index.nodup_keys_ownMembers hmembers
  · rw [keys_ownMembers]
    simp
  · rw [keys_ownMembers]
    cases index.name <;> simp

end Index

/-! ## Foreign keys -/

namespace ForeignKey

/-- What a reader of a collapsed document can tell of a foreign key. -/
structure RecoveredFrom (key : ForeignKey) (document : Document) : Prop where
  toTable : "toTable" ∉ OrderedMap.keys key.options →
    document.member? "toTable" = some (.str key.toTable)
  column : document.member? "column" = some (.str key.column)
  toColumn : "toColumn" ∉ OrderedMap.keys key.options →
    document.member? "toColumn" = some (.str key.toColumn)
  options : ∀ name value, (name, value) ∈ key.options →
    document.member? name = some value.document

/-- Whether no option of a foreign key has the key of another member. -/
def Unshadowed (key : ForeignKey) : Prop :=
  ∀ name ∈ ["toTable", "toColumn"], name ∉ OrderedMap.keys key.options

theorem keys_ownMembers (key : ForeignKey) :
    OrderedMap.keys key.ownMembers =
      ["toTable", "column", "toColumn"] ++ key.name.toList.map fun _ => "name" := by
  simp [OrderedMap.keys, ownMembers, Function.comp_def]

theorem nodup_keys_ownMembers (key : ForeignKey) : (OrderedMap.keys key.ownMembers).Nodup := by
  rw [keys_ownMembers]
  cases key.name <;> simp

theorem recovered_collapse {key : ForeignKey} (h : key.Sound depth) :
    key.RecoveredFrom key.document.collapse := by
  have hown := key.nodup_keys_ownMembers
  have hsound := h.options.sound
  have hcolumn : "column" ∉ OrderedMap.keys key.options := h.options.absent "column" (by decide)
  refine ⟨fun htable => ?_, ?_, fun hto => ?_, fun name value hmem => ?_⟩
  · exact hsound.member?_collapse_own hown htable
  · exact hsound.member?_collapse_own hown hcolumn
  · exact hsound.member?_collapse_own hown hto
  · exact hsound.member?_collapse_option hown hmem

theorem distinctKeys_document_iff {key : ForeignKey} (h : key.Sound depth) :
    key.document.DistinctKeys ↔ key.Unshadowed := by
  have hmembers : ∀ member ∈ key.ownMembers, member.2.DistinctKeys := by
    intro member hmem
    simp only [ownMembers, List.mem_append, List.mem_map, List.mem_cons, List.not_mem_nil,
      or_false, Option.mem_toList] at hmem
    rcases hmem with (rfl | rfl | rfl) | ⟨name, -, rfl⟩ <;> exact trivial
  apply h.options.distinctKeys_iff key.nodup_keys_ownMembers hmembers
  · rw [keys_ownMembers]
    simp
  · rw [keys_ownMembers]
    cases key.name <;> simp

end ForeignKey

/-! ## Tables -/

namespace Table

/-- The keys of the members of a table that are not its options. -/
def ownKeys : List String := ["fields", "indexes", "foreignKeys"]

/-- What a reader of a collapsed document can tell of a table. -/
structure RecoveredFrom (table : Table) (document : Document) : Prop where
  fields : ∃ items, document.member? "fields" = some (.arr items) ∧
    List.Forall₂ Field.RecoveredFrom table.fields items
  indexes : ∃ items, document.member? "indexes" = some (.arr items) ∧
    List.Forall₂ Index.RecoveredFrom table.indexes items
  foreignKeys : ∃ items, document.member? "foreignKeys" = some (.arr items) ∧
    List.Forall₂ ForeignKey.RecoveredFrom table.foreignKeys items
  options : ∀ key value, (key, value) ∈ table.options → key ∉ ownKeys →
    document.member? key = some value.document

/-- Whether no option of a table, or of what is in it, has the key of another member. -/
structure Unshadowed (table : Table) : Prop where
  options : ∀ key ∈ ownKeys, key ∉ OrderedMap.keys table.options
  fields : ∀ field ∈ table.fields, field.Unshadowed
  indexes : ∀ index ∈ table.indexes, index.Unshadowed
  foreignKeys : ∀ key ∈ table.foreignKeys, key.Unshadowed

theorem keys_ownMembers (table : Table) : OrderedMap.keys table.ownMembers = ownKeys := rfl

theorem nodup_keys_ownMembers (table : Table) : (OrderedMap.keys table.ownMembers).Nodup := by
  rw [keys_ownMembers]
  decide

/-- The list of definitions under a key, if each is recovered from its own document. -/
theorem forall₂_collapse {α : Type} {R : α → Document → Prop} {document : α → Document}
    {definitions : List α} (h : ∀ definition ∈ definitions, R definition (document definition).collapse) :
    List.Forall₂ R definitions (collapseItems (definitions.map document)) := by
  rw [collapseItems_eq_map, List.map_map]
  refine List.forall₂_map_right_iff.mpr ?_
  exact List.forall₂_same.mpr h

theorem recovered_collapse {table : Table} (h : table.Sound depth) :
    table.RecoveredFrom table.document.collapse := by
  have hown := table.nodup_keys_ownMembers
  have hmember := fun key => h.options.sound.member?_collapse_append_own hown key
  refine ⟨?_, ?_, ?_, fun key value hmem hkey => ?_⟩
  · refine ⟨collapseItems (table.fields.map Field.document), hmember "fields", ?_⟩
    exact forall₂_collapse fun field hfield => Field.recovered_collapse (h.fields field hfield)
  · refine ⟨collapseItems (table.indexes.map Index.document), hmember "indexes", ?_⟩
    exact forall₂_collapse fun index hindex => Index.recovered_collapse (h.indexes index hindex)
  · refine ⟨collapseItems (table.foreignKeys.map ForeignKey.document), hmember "foreignKeys", ?_⟩
    exact forall₂_collapse fun k hk => ForeignKey.recovered_collapse (h.foreignKeys k hk)
  · refine (hmember key).trans ?_
    rw [OrderedMap.get?_eq_none_iff.mpr (table.keys_ownMembers ▸ hkey),
      OrderedMap.get?_eq_some_of_mem h.options.sound.nodup hmem]
    rfl

theorem distinctKeys_document_iff {table : Table} (h : table.Sound depth) :
    table.document.DistinctKeys ↔ table.Unshadowed := by
  have hfields : ∀ field ∈ table.fields, (field.document.DistinctKeys ↔ field.Unshadowed) :=
    fun field hfield => Field.distinctKeys_document_iff (h.fields field hfield)
  have hindexes : ∀ index ∈ table.indexes, (index.document.DistinctKeys ↔ index.Unshadowed) :=
    fun index hindex => Index.distinctKeys_document_iff (h.indexes index hindex)
  have hkeys : ∀ key ∈ table.foreignKeys, (key.document.DistinctKeys ↔ key.Unshadowed) :=
    fun key hkey => ForeignKey.distinctKeys_document_iff (h.foreignKeys key hkey)
  have hperm : (OrderedMap.keys (table.options.members ++ table.ownMembers)).Perm
      (OrderedMap.keys (table.ownMembers ++ table.options.members)) :=
    List.perm_append_comm.map _
  unfold document
  rw [distinctKeys_obj_iff, hperm.nodup_iff,
    h.options.sound.nodup_keys_append_iff table.nodup_keys_ownMembers, List.forall_mem_append,
    and_iff_right h.options.sound.distinctKeys_members, keys_ownMembers]
  simp only [ownMembers, List.forall_mem_cons, distinctKeys_arr_iff, List.forall_mem_map]
  constructor
  · rintro ⟨hoptions, hf, hi, hk, -⟩
    exact ⟨hoptions, fun field hfield => (hfields field hfield).mp (hf field hfield),
      fun index hindex => (hindexes index hindex).mp (hi index hindex),
      fun key hkey => (hkeys key hkey).mp (hk key hkey)⟩
  · intro hun
    exact ⟨hun.options, fun field hfield => (hfields field hfield).mpr (hun.fields field hfield),
      fun index hindex => (hindexes index hindex).mpr (hun.indexes index hindex),
      fun key hkey => (hkeys key hkey).mpr (hun.foreignKeys key hkey), by simp⟩

end Table

/-! ## Schemas -/

namespace Schema

/-- What a reader of a collapsed document can tell of a schema. -/
def RecoveredFrom (schema : Schema) (document : Document) : Prop :=
  ∃ members, document = .obj members ∧
    List.Forall₂ (fun entry member => member.1 = entry.1 ∧ entry.2.RecoveredFrom member.2)
      schema members

theorem recovered_collapse {schema : Schema} (h : schema.Sound depth) :
    schema.RecoveredFrom schema.document.collapse := by
  have hmembers : collapseMembers (schema.map fun entry => (entry.1, entry.2.document)) =
      schema.map fun entry => (entry.1, entry.2.document.collapse) := by
    rw [collapseMembers_eq_map, List.map_map]
    rfl
  have hnodup : (OrderedMap.keys
      (schema.map fun entry => (entry.1, entry.2.document.collapse))).Nodup := by
    simpa [OrderedMap.keys, Function.comp_def] using h.nodup
  refine ⟨schema.map fun entry => (entry.1, entry.2.document.collapse), ?_, ?_⟩
  · show Document.obj (OrderedMap.ofEntries (collapseMembers _)) = _
    rw [hmembers, OrderedMap.ofEntries_of_nodup hnodup]
  · refine List.forall₂_map_right_iff.mpr (List.forall₂_same.mpr fun entry hentry => ?_)
    exact ⟨rfl, Table.recovered_collapse (h.tables entry.1 entry.2 hentry)⟩

/-- No object in the document of a schema has a key twice if and only if no option has the key of
another member. -/
theorem distinctKeys_document_iff {schema : Schema} (h : schema.Sound depth) :
    schema.document.DistinctKeys ↔ ∀ name table, (name, table) ∈ schema → table.Unshadowed := by
  have hnodup : (OrderedMap.keys
      (schema.map fun entry => (entry.1, entry.2.document))).Nodup := by
    simpa [OrderedMap.keys, Function.comp_def] using h.nodup
  unfold document
  rw [distinctKeys_obj_iff, and_iff_right hnodup, List.forall_mem_map]
  constructor
  · intro hdistinct name table hmem
    exact (Table.distinctKeys_document_iff (h.tables name table hmem)).mp (hdistinct _ hmem)
  · intro hun entry hmem
    exact (Table.distinctKeys_document_iff (h.tables entry.1 entry.2 hmem)).mpr
      (hun entry.1 entry.2 hmem)

/-- A reader that keeps the last member for each key recovers the definitions of every schema that is
read from a text, but for the attributes, and for the options of tables, that share the key of an
option, or of the table. No object has a key twice if and only if there are none such. -/
theorem collapse_read (settings : Settings) (singular : String → String) (text : String) :
    let schema := (read settings singular text).schema
    ∃ document, Document.read? (schema.exportAs .json) = some document ∧
      schema.RecoveredFrom document.collapse ∧
      (document.DistinctKeys ↔ ∀ name table, (name, table) ∈ schema → table.Unshadowed) := by
  intro schema
  have hsound : schema.Sound settings.maxDepth := Sound.foldl_resolve (sound_declared settings text)
    fun _ hkey => ForeignKey.sound_of_mem_all hkey
  refine ⟨schema.document, ?_, recovered_collapse hsound, distinctKeys_document_iff hsound⟩
  show Document.read? schema.toJson.pretty = _
  rw [read?_pretty, schema.document_toJson]

/-- A column `a` with an option that has the key of a column's name. -/
def renamed : Schema :=
  (read {} English.singular
    "create_table \"t\", id: false do |t|\n  t.string \"a\", name: \"b\"\nend\n").schema

/-- A reader that keeps the last member for each key takes the value of an option for the name of a
column. -/
theorem collapse_renamed :
    (renamed.map fun entry => (entry.1, entry.2.fields.map Field.name)) = [("t", ["a"])] ∧
      ∃ document, Document.read? (renamed.exportAs .json) = some document ∧
        (((document.collapse.member? "t").bind (·.member? "fields")).map fun fields =>
          fields.items.map fun field => (field.member? "name").bind text?) = some [some "b"] ∧
        ¬ document.DistinctKeys := by
  refine ⟨by decide +kernel, renamed.document, ?_, by decide +kernel, fun hdistinct => ?_⟩
  · show Document.read? renamed.toJson.pretty = _
    rw [read?_pretty, renamed.document_toJson]
  · have hsound : renamed.Sound 64 := Sound.foldl_resolve (sound_declared {} _)
      fun _ hkey => ForeignKey.sound_of_mem_all hkey
    have hun := (distinctKeys_document_iff hsound).mp hdistinct
    have hshadowed : ∃ entry ∈ renamed, ∃ field ∈ entry.2.fields,
        "name" ∈ OrderedMap.keys field.options := by decide +kernel
    obtain ⟨entry, hentry, field, hfield, hname⟩ := hshadowed
    exact (hun entry.1 entry.2 hentry).fields field hfield "name" (by decide) hname

end Schema

end RailsSchema
