import RailsSchema.Proofs.Definition.Resolution
import RailsSchema.Proofs.Literal.Sound

/-!
# The invariant of schemas

Every schema that is read from a text is sound: the names of its tables are distinct, options that
are attributes of their own are no options any more, indexes have columns, all values are sound to
the depth that the settings allow, and a foreign key belongs to the table that it points from and
points to a table of the schema.

* `Field.sound_ofOptions`, `Field.sound_implicitId`, `Index.sound_ofOptions`,
  `ForeignKey.sound_ofOptions`, `Table.sound_ofBlock`: what one statement declares is sound;
* `Schema.Sound.resolve`: resolving one foreign key keeps a schema sound;
* `Schema.sound_read`: so every schema that is read is sound.
-/

namespace RailsSchema

/-! ## Sound parts -/

/-- Whether an option map is sound and has none of the options that are attributes. -/
structure Options.SoundWithout (attributes : List String) (depth : Nat) (options : Options) :
    Prop where
  sound : options.Sound depth
  absent : ∀ key ∈ attributes, key ∉ OrderedMap.keys options

structure Field.Sound (depth : Nat) (field : Field) : Prop where
  options : field.options.SoundWithout ["null", "default", "comment"] depth
  default : ∀ value, field.default = some value → value.Sound depth

structure Index.Sound (depth : Nat) (index : Index) : Prop where
  columns : index.columns ≠ []
  options : index.options.SoundWithout ["unique", "name"] depth

structure ForeignKey.Sound (depth : Nat) (key : ForeignKey) : Prop where
  options : key.options.SoundWithout ["column", "primary_key", "name"] depth

structure Table.Sound (depth : Nat) (table : Table) : Prop where
  options : table.options.SoundWithout ["id", "primary_key"] depth
  fields : ∀ field ∈ table.fields, field.Sound depth
  indexes : ∀ index ∈ table.indexes, index.Sound depth
  foreignKeys : ∀ key ∈ table.foreignKeys, key.Sound depth

structure Schema.Sound (depth : Nat) (schema : Schema) : Prop where
  nodup : (OrderedMap.keys schema).Nodup
  tables : ∀ name table, (name, table) ∈ schema → table.Sound depth
  foreignKeys : ∀ name table, (name, table) ∈ schema → ∀ key ∈ table.foreignKeys,
    key.fromTable = name ∧ key.toTable ∈ OrderedMap.keys schema

variable {depth : Nat}

/-! ## Options -/

namespace Options

theorem SoundWithout.nil (attributes : List String) : SoundWithout attributes depth [] :=
  ⟨sound_nil, by simp [OrderedMap.keys]⟩

theorem Sound.withoutNone {options : Options} (h : options.Sound depth) :
    options.SoundWithout [] depth := ⟨h, by simp⟩

theorem SoundWithout.erase {options : Options} {attributes : List String}
    (h : options.SoundWithout attributes depth) (key : String) :
    SoundWithout (attributes ++ [key]) depth (OrderedMap.erase options key) := by
  refine ⟨h.sound.erase key, fun name hmem hkeys => ?_⟩
  obtain ⟨hne, hold⟩ := OrderedMap.mem_keys_erase.mp hkeys
  rcases List.mem_append.mp hmem with hmem | hmem
  · exact h.absent name hmem hold
  · exact hne (List.mem_singleton.mp hmem)

theorem SoundWithout.insert {options : Options} {attributes : List String}
    (h : options.SoundWithout attributes depth) {key : String} (hkey : key ∉ attributes)
    {value : Value} (hvalue : value.Sound depth) :
    SoundWithout attributes depth (OrderedMap.insert options key value) := by
  refine ⟨h.sound.insert key hvalue, fun name hmem hkeys => ?_⟩
  rcases OrderedMap.mem_keys_insert.mp hkeys with rfl | hold
  · exact hkey hmem
  · exact h.absent name hmem hold

end Options

/-! ## Fields -/

namespace Field

theorem sound_ofOptions (name type : String) {options : Options} (h : options.Sound depth) :
    (ofOptions name type options).Sound depth where
  options := ((h.withoutNone.erase "null").erase "default").erase "comment"
  default := fun _ hvalue => h.get? hvalue

theorem sound_plainId (id : Value) : (plainId id).Sound depth :=
  ⟨.nil _, fun _ hvalue => by cases hvalue⟩

/-- What the `id` option says of an attribute does not end up among the options. -/
theorem Sound.override {field : Field} (h : field.Sound depth) {entry : String × Value}
    (hvalue : entry.2.Sound depth) : (override field entry).Sound depth := by
  unfold Field.override
  split
  · exact ⟨h.options, h.default⟩
  · exact ⟨h.options, h.default⟩
  · exact ⟨h.options, fun value heq => by cases heq; exact hvalue⟩
  · exact ⟨h.options, h.default⟩
  · next key _ hnull hdefault hcomment =>
    refine ⟨h.options.insert (fun hmem => ?_) hvalue, h.default⟩
    simp only [List.mem_cons, List.not_mem_nil, or_false] at hmem
    rcases hmem with hkey | hkey | hkey
    · exact hnull hkey
    · exact hdefault hkey
    · exact hcomment hkey

theorem Sound.foldl_override {field : Field} (h : field.Sound depth)
    {entries : List (String × Value)} (hentries : ∀ entry ∈ entries, entry.2.Sound depth) :
    (entries.foldl Field.override field).Sound depth := by
  induction entries generalizing field with
  | nil => exact h
  | cons entry entries ih =>
    obtain ⟨hentry, hothers⟩ := List.forall_mem_cons.mp hentries
    exact ih (h.override hentry) hothers

theorem sound_implicitId {id : Value} (h : id.Sound depth) : (implicitId id).Sound depth := by
  refine (sound_plainId id).foldl_override ?_
  cases hentries : id.entries? with
  | none => simp
  | some options => exact (h.entries? hentries).value

theorem sound_ofStatement (settings : Settings) (statement : ColumnStatement) :
    (ofStatement settings statement).Sound settings.maxDepth :=
  sound_ofOptions _ _ (sound_parseOptions settings statement.options)

end Field

/-! ## Indexes and foreign keys -/

namespace Index

theorem sound_primaryKey {columns : List String} (h : columns ≠ []) :
    (primaryKey columns).Sound depth := ⟨h, .nil _⟩

theorem sound_ofOptions {columns : List String} (hne : columns ≠ []) {options : Options}
    (h : options.Sound depth) : (ofOptions columns options).Sound depth :=
  ⟨hne, (h.withoutNone.erase "unique").erase "name"⟩

theorem sound_of_ofStatement? {settings : Settings} {statement : IndexStatement} {index : Index}
    (h : ofStatement? settings statement = some index) : index.Sound settings.maxDepth := by
  unfold ofStatement? at h
  split at h
  · cases h
  · next hne =>
    cases h
    exact sound_ofOptions hne (sound_parseOptions settings statement.options)

end Index

namespace ForeignKey

theorem sound_ofOptions (singular : String → String) (fromTable toTable : String)
    {options : Options} (h : options.Sound depth) :
    (ofOptions singular fromTable toTable options).Sound depth :=
  ⟨((h.withoutNone.erase "column").erase "primary_key").erase "name"⟩

theorem sound_of_mem_all {settings : Settings} {singular : String → String} {text : String}
    {key : ForeignKey} (h : key ∈ all settings singular text) : key.Sound settings.maxDepth := by
  obtain ⟨statement, -, rfl⟩ := List.mem_map.mp h
  exact sound_ofOptions _ _ _ (sound_parseOptions settings statement.options)

end ForeignKey

/-! ## Tables -/

namespace Table

theorem sound_idOption {options : Options} (h : options.Sound depth) :
    (idOption options).Sound depth := by
  unfold idOption
  cases hid : OrderedMap.get? options "id" with
  | none => exact ⟨trivial, Nat.zero_le depth⟩
  | some id => exact h.get? hid

theorem sound_ofDeclared {options : Options} (h : options.Sound depth) {fields : List Field}
    (hfields : ∀ field ∈ fields, field.Sound depth) {indexes : List Index}
    (hindexes : ∀ index ∈ indexes, index.Sound depth) :
    (ofDeclared options fields indexes).Sound depth := by
  have hothers := (h.withoutNone.erase "id").erase "primary_key"
  have hnokeys : ∀ key ∈ ([] : List ForeignKey), key.Sound depth := by simp
  unfold ofDeclared
  split
  · split
    · have hid := Field.sound_implicitId (sound_idOption h)
      have hkey : (Index.primaryKey [Field.idName]).Sound depth := Index.sound_primaryKey (by simp)
      exact ⟨hothers, List.forall_mem_cons.mpr ⟨hid, hfields⟩,
        List.forall_mem_cons.mpr ⟨hkey, hindexes⟩, hnokeys⟩
    · exact ⟨hothers, hfields, hindexes, hnokeys⟩
  · next hne =>
    have hkey : (Index.primaryKey _).Sound depth := Index.sound_primaryKey hne
    exact ⟨hothers, hfields, List.forall_mem_cons.mpr ⟨hkey, hindexes⟩, hnokeys⟩

theorem sound_ofBlock (settings : Settings) (block : TableBlock) :
    (ofBlock settings block).Sound settings.maxDepth := by
  refine sound_ofDeclared (sound_parseOptions settings block.options) (fun field hfield => ?_)
    (fun index hindex => ?_)
  · obtain ⟨statement, -, rfl⟩ := List.mem_map.mp hfield
    exact Field.sound_ofStatement settings statement
  · obtain ⟨statement, -, hread⟩ := List.mem_filterMap.mp hindex
    exact Index.sound_of_ofStatement? hread

theorem Sound.addForeignKey {table : Table} (h : table.Sound depth) {key : ForeignKey}
    (hkey : key.Sound depth) : (table.addForeignKey key).Sound depth := by
  refine ⟨h.options, h.fields, h.indexes, fun k hk => ?_⟩
  rcases List.mem_append.mp hk with hk | hk
  · exact h.foreignKeys k hk
  · rw [List.mem_singleton.mp hk]
    exact hkey

end Table

/-! ## Schemas -/

namespace Schema

theorem sound_declared (settings : Settings) (text : String) :
    (declared settings text).Sound settings.maxDepth := by
  have hread : ∀ name table, (name, table) ∈ declared settings text →
      ∃ block, table = Table.ofBlock settings block := by
    intro name table hmem
    obtain ⟨block, -, heq⟩ := List.mem_map.mp (OrderedMap.mem_of_mem_ofEntries hmem)
    cases heq
    exact ⟨block, rfl⟩
  refine ⟨OrderedMap.nodup_keys_ofEntries _, fun name table hmem => ?_,
    fun name table hmem key hkey => ?_⟩
  · obtain ⟨block, rfl⟩ := hread name table hmem
    exact Table.sound_ofBlock settings block
  · obtain ⟨block, rfl⟩ := hread name table hmem
    rw [Table.foreignKeys_ofBlock] at hkey
    cases hkey

/-- A key that is given to a table points to a table that there is. -/
theorem mem_keys_of_problem? {schema : Schema} {key : ForeignKey} (h : problem? schema key = none) :
    key.toTable ∈ OrderedMap.keys schema := by
  rw [← OrderedMap.contains_iff_mem_keys]
  unfold problem? at h
  split at h
  · cases h
  split at h
  · cases h
  · next hto => simpa using hto

/-- Resolving one foreign key keeps a schema sound. -/
theorem Sound.resolve {reading : Reading} (h : reading.schema.Sound depth) {key : ForeignKey}
    (hkey : key.Sound depth) : (resolve reading key).schema.Sound depth := by
  unfold Schema.resolve
  split
  · exact h
  · next hresolved =>
    have hto := mem_keys_of_problem? hresolved
    -- the changed table is the one that the key points from, and all others are as they were
    have hmem : ∀ name table,
        (name, table) ∈ OrderedMap.modify reading.schema key.fromTable (Table.addForeignKey · key) →
        ∃ old, (name, old) ∈ reading.schema ∧
          (table = old ∨ name = key.fromTable ∧ table = old.addForeignKey key) := by
      intro name table hmem
      obtain ⟨⟨name', old⟩, hold, heq⟩ := List.mem_map.mp hmem
      split at heq
      · next hname =>
        cases heq
        exact ⟨old, hold, Or.inr ⟨hname, rfl⟩⟩
      · cases heq
        exact ⟨table, hold, Or.inl rfl⟩
    refine ⟨by simpa using h.nodup, fun name table hentry => ?_, fun name table hentry k hk => ?_⟩
    · obtain ⟨old, hold, hsame | ⟨-, hadded⟩⟩ := hmem name table hentry
      · rw [hsame]
        exact h.tables name old hold
      · rw [hadded]
        exact (h.tables name old hold).addForeignKey hkey
    · rw [OrderedMap.keys_modify]
      obtain ⟨old, hold, hsame | ⟨hname, hadded⟩⟩ := hmem name table hentry
      · rw [hsame] at hk
        exact h.foreignKeys name old hold k hk
      · rw [hadded] at hk
        rcases List.mem_append.mp hk with hk | hk
        · exact h.foreignKeys name old hold k hk
        · rw [List.mem_singleton.mp hk]
          exact ⟨hname.symm, hto⟩

theorem Sound.foldl_resolve {reading : Reading} (h : reading.schema.Sound depth)
    {keys : List ForeignKey} (hkeys : ∀ key ∈ keys, key.Sound depth) :
    (keys.foldl Schema.resolve reading).schema.Sound depth := by
  induction keys generalizing reading with
  | nil => exact h
  | cons key keys ih =>
    obtain ⟨hkey, hothers⟩ := List.forall_mem_cons.mp hkeys
    exact ih (h.resolve hkey) hothers

/-- Every schema that is read from a text is sound, to the depth that the settings allow. -/
theorem sound_read (settings : Settings) (singular : String → String) (text : String) :
    (read settings singular text).schema.Sound settings.maxDepth :=
  Sound.foldl_resolve (sound_declared settings text) fun _ hkey => ForeignKey.sound_of_mem_all hkey

end Schema

end RailsSchema
