import RailsSchema.Definition.Table
import Mathlib.Logic.Basic

/-!
# The index of the primary key

The options of a table decide whether it has a primary key (`Options.HaveKey`). If it has one, the
index of the key stands in front of the declared indexes; if it has none, the declared indexes are
all there are. What tells the index of a key is its name, though, and nothing keeps a declared index
from bearing that name.

* `Table.keyColumns_ne_nil_iff`: when a `primary_key` option names columns;
* `Table.indexes_ofDeclared`: the indexes of a table with a key and of one without;
* `Index.filter_isPrimaryKey_eq_nil_iff`: when no declared index bears the name of the key's;
* `Table.indexes_read`: which indexes of a table are those of a primary key.
-/

namespace RailsSchema

/-- Whether a value names a column: it is a name that is not empty, or a list with one in it. -/
def Value.NamesColumn : Value → Prop
  | .str name => name ≠ ""
  | .symbol name => name ≠ ""
  | .array items => ∃ item ∈ items, ∃ name, item.name? = some name ∧ name ≠ ""
  | _ => False

/-- Whether the options of a table give it a primary key: they name its columns, or they do not say
that there is no `id` column. -/
def Options.HaveKey (options : Options) : Prop :=
  (∃ value, OrderedMap.get? options "primary_key" = some value ∧ value.NamesColumn) ∨
    ∀ value, OrderedMap.get? options "id" = some value → value.isTruthy = true

namespace Table

theorem keyColumns_ne_nil_iff {primaryKey : Option Value} :
    keyColumns primaryKey ≠ [] ↔ ∃ value, primaryKey = some value ∧ value.NamesColumn := by
  have hsingle : ∀ name : String, [name].filter (· != "") ≠ [] ↔ name ≠ "" := by
    intro name
    by_cases h : name = "" <;> simp [h]
  cases primaryKey with
  | none => simp [keyColumns]
  | some value =>
    simp only [Option.some.injEq, exists_eq_left']
    cases value with
    | str name => exact hsingle name
    | symbol name => exact hsingle name
    | array items =>
      simp only [keyColumns, Value.NamesColumn, ne_eq, List.filter_eq_nil_iff, List.mem_filterMap,
        bne_iff_ne, not_not, not_forall]
      constructor
      · rintro ⟨name, ⟨item, hitem, hname⟩, hne⟩
        exact ⟨item, hitem, name, hname, hne⟩
      · rintro ⟨item, hitem, name, hname, hne⟩
        exact ⟨name, ⟨item, hitem, hname⟩, hne⟩
    | _ => simp [keyColumns, Value.NamesColumn]

theorem isTruthy_idOption_iff {options : Options} :
    (idOption options).isTruthy = true ↔
      ∀ value, OrderedMap.get? options "id" = some value → value.isTruthy = true := by
  cases h : OrderedMap.get? options "id" with
  | none => simp [idOption, h, Value.isTruthy]
  | some value => simp [idOption, h]

theorem haveKey_iff {options : Options} :
    options.HaveKey ↔ keyColumns (OrderedMap.get? options "primary_key") ≠ [] ∨
      (idOption options).isTruthy = true := by
  rw [Options.HaveKey, keyColumns_ne_nil_iff, isTruthy_idOption_iff]

instance (options : Options) : Decidable options.HaveKey := decidable_of_iff' _ haveKey_iff

/-- The index of the key stands in front of the declared indexes, and there is none without a
key. -/
theorem indexes_ofDeclared (options : Options) (fields : List Field) (indexes : List Index) :
    (options.HaveKey → ∃ columns, columns ≠ [] ∧
      (ofDeclared options fields indexes).indexes = Index.primaryKey columns :: indexes) ∧
    (¬ options.HaveKey → (ofDeclared options fields indexes).indexes = indexes) := by
  rw [haveKey_iff]
  unfold ofDeclared
  cases hkey : keyColumns (OrderedMap.get? options "primary_key") with
  | nil =>
    by_cases hid : (idOption options).isTruthy = true
    · refine ⟨fun _ => ⟨[Field.idName], by simp, ?_⟩, fun hnone => absurd (Or.inr hid) hnone⟩
      simp [hid]
    · refine ⟨fun hhas => ?_, fun _ => by simp [hid]⟩
      exact hhas.elim (fun hne => absurd rfl hne) (fun htruthy => absurd htruthy hid)
  | cons column columns =>
    refine ⟨fun _ => ⟨column :: columns, by simp, rfl⟩, fun hnone => ?_⟩
    exact absurd (Or.inl (List.cons_ne_nil column columns)) hnone

end Table

namespace Index

@[simp] theorem isPrimaryKey_primaryKey (columns : List String) :
    (primaryKey columns).isPrimaryKey = true := by
  simp [isPrimaryKey, primaryKey]

/-- A declared index bears the name of a key's index when that is the text of its `name` option. -/
theorem isPrimaryKey_ofOptions (columns : List String) (options : Options) :
    (ofOptions columns options).isPrimaryKey = true ↔
      (OrderedMap.get? options "name").map Value.display = some primaryKeyName := by
  simp [isPrimaryKey, ofOptions]

theorem filter_isPrimaryKey_eq_nil_iff (settings : Settings) (body : String) :
    (all settings body).filter isPrimaryKey = [] ↔
      ∀ statement ∈ IndexStatement.all body, columnNames settings statement.columns ≠ [] →
        (OrderedMap.get? (parseOptions settings statement.options) "name").map Value.display ≠
          some primaryKeyName := by
  have hread : ∀ statement index, ofStatement? settings statement = some index ↔
      columnNames settings statement.columns ≠ [] ∧
        ofOptions (columnNames settings statement.columns)
          (parseOptions settings statement.options) = index := by
    intro statement index
    unfold ofStatement?
    cases columnNames settings statement.columns <;> simp
  simp only [List.filter_eq_nil_iff, all, List.mem_filterMap, hread]
  constructor
  · intro h statement hmem hcolumns hname
    exact h _ ⟨statement, hmem, hcolumns, rfl⟩ ((isPrimaryKey_ofOptions _ _).mpr hname)
  · rintro h index ⟨statement, hmem, hcolumns, rfl⟩ hkey
    exact h statement hmem hcolumns ((isPrimaryKey_ofOptions _ _).mp hkey)

end Index

/-- The indexes of a table that are taken for that of its primary key. If the options give the table
a key, the first index is one, it is unique, and all others are declared indexes that bear its name;
if they do not, all of them are. No declared index bears that name unless the text of its `name`
option is that name. -/
theorem Table.indexes_read (settings : Settings) (body optionText : String) :
    let options := parseOptions settings optionText
    let indexes := (Table.read settings body optionText).indexes
    let sharers := (Index.all settings body).filter Index.isPrimaryKey
    (options.HaveKey → ∃ key, indexes.head? = some key ∧ key.unique = true ∧
      indexes.filter Index.isPrimaryKey = key :: sharers) ∧
    (¬ options.HaveKey → indexes.filter Index.isPrimaryKey = sharers) ∧
    (sharers = [] ↔ ∀ statement ∈ IndexStatement.all body,
      Index.columnNames settings statement.columns ≠ [] →
        (OrderedMap.get? (parseOptions settings statement.options) "name").map Value.display ≠
          some "PRIMARY_KEY") := by
  intro options indexes sharers
  obtain ⟨hkey, hnone⟩ :=
    indexes_ofDeclared options (Field.all settings body) (Index.all settings body)
  refine ⟨fun hhas => ?_, fun hhas => ?_, Index.filter_isPrimaryKey_eq_nil_iff settings body⟩
  · obtain ⟨columns, -, hindexes⟩ := hkey hhas
    have hall : indexes = Index.primaryKey columns :: Index.all settings body := hindexes
    refine ⟨Index.primaryKey columns, by rw [hall]; rfl, rfl, ?_⟩
    rw [hall, List.filter_cons_of_pos (Index.isPrimaryKey_primaryKey columns)]
  · have hall : indexes = Index.all settings body := hnone hhas
    rw [hall]

/-- An index declared under the name of a key's index is taken for one, with and without a key. -/
theorem Table.shared_key_name :
    let body := "t.index [\"a\"], name: \"PRIMARY_KEY\""
    ((parseOptions {} "").HaveKey ∧
      ((Table.read {} body "").indexes.filter Index.isPrimaryKey).length = 2) ∧
    ¬ (parseOptions {} "id: false").HaveKey ∧
      ((Table.read {} body "id: false").indexes.filter Index.isPrimaryKey).length = 1 := by
  decide +kernel

end RailsSchema
