import RailsSchema.Session
import RailsSchema.Proofs.Definition.Sound

/-!
# Reading a text again

Sameness does not look at the order of maps, so it finds the entries of the second map by their
keys. Where keys are distinct, an entry is found again under its own key, and everything is the same
as itself. All maps in a schema that was read have distinct keys. So a caller that reads one text
twice is told, whatever it held before, that the second time makes no difference
(`Session.read_again`).
-/

namespace RailsSchema

variable {depth : Nat}

/-! ## Values and options -/

theorem Value.itemsSame_self {items : List Value} (h : ∀ item ∈ items, item.same item = true) :
    itemsSame items items = true := by
  induction items with
  | nil => rfl
  | cons item items ih =>
    obtain ⟨hitem, hitems⟩ := List.forall_mem_cons.mp h
    rw [itemsSame, hitem, ih hitems]
    rfl

/-- Entries are found in a map with distinct keys if they are entries of it. -/
theorem Value.entriesIn_of_subset {entries options : Options}
    (hnodup : (OrderedMap.keys options).Nodup) (hsub : entries ⊆ options)
    (h : ∀ entry ∈ entries, entry.2.same entry.2 = true) : entriesIn entries options = true := by
  induction entries with
  | nil => rfl
  | cons entry entries ih =>
    obtain ⟨hentry, hentries⟩ := List.forall_mem_cons.mp h
    obtain ⟨hmem, hsub⟩ := List.cons_subset.mp hsub
    rw [entriesIn, OrderedMap.get?_eq_some_of_mem hnodup hmem, ih hsub hentries]
    simpa using hentry

theorem Value.same_self {value : Value} (h : value.Each InOrder) : value.same value = true := by
  induction value using Value.induction with
  | hash entries ih =>
    obtain ⟨hnodup, hentries⟩ := h
    have hin := entriesIn_of_subset hnodup (List.Subset.refl entries) fun entry hentry =>
      ih entry hentry (eachEntry_iff.mp hentries entry hentry)
    simpa [same] using hin
  | array items ih =>
    rw [same]
    exact itemsSame_self fun item hitem => ih item hitem (eachItem_iff.mp h.2 item hitem)
  | _ => simp [same]

theorem Options.Sound.same_self {options : Options} (h : options.Sound depth) :
    options.same options = true := by
  have hin := Value.entriesIn_of_subset h.nodup (List.Subset.refl options) fun entry hentry =>
    Value.same_self (h.value entry hentry).inOrder
  simpa [Options.same] using hin

/-! ## Definitions -/

theorem sameList_self {α : Type} {same : α → α → Bool} {l : List α}
    (h : ∀ a ∈ l, same a a = true) : sameList same l l = true := by
  induction l with
  | nil => rfl
  | cons a l ih =>
    obtain ⟨hfirst, hothers⟩ := List.forall_mem_cons.mp h
    rw [sameList, hfirst, ih hothers]
    rfl

theorem Field.Sound.same_self {field : Field} (h : field.Sound depth) :
    field.same field = true := by
  have hdefault : sameOption Value.same field.default field.default = true := by
    cases hvalue : field.default with
    | none => rfl
    | some value => exact Value.same_self (h.default value hvalue).inOrder
  simp [Field.same, hdefault, h.options.sound.same_self]

theorem Index.Sound.same_self {index : Index} (h : index.Sound depth) :
    index.same index = true := by
  simp [Index.same, h.options.sound.same_self]

theorem ForeignKey.Sound.same_self {key : ForeignKey} (h : key.Sound depth) :
    key.same key = true := by
  simp [ForeignKey.same, h.options.sound.same_self]

theorem Table.Sound.same_self {table : Table} (h : table.Sound depth) :
    table.same table = true := by
  have hfields := sameList_self fun field hfield => (h.fields field hfield).same_self
  have hindexes := sameList_self fun index hindex => (h.indexes index hindex).same_self
  have hkeys := sameList_self fun key hkey => (h.foreignKeys key hkey).same_self
  simp [Table.same, h.options.sound.same_self, hfields, hindexes, hkeys]

theorem Schema.Sound.same_self {schema : Schema} (h : schema.Sound depth) :
    Schema.same schema schema = true := by
  rw [Schema.same, beq_self_eq_true, Bool.true_and, List.all_eq_true]
  intro entry hentry
  rw [OrderedMap.get?_eq_some_of_mem h.nodup hentry]
  exact (h.tables entry.1 entry.2 hentry).same_self

/-! ## Callers -/

/-- A text that is read a second time makes no difference to a caller, whatever it held before. -/
theorem Session.read_again (session : Session) (text : String) :
    let held := (session.read text).2
    held.read text = (true, held) := by
  intro held
  have hsound : (session.reader.read text).schema.Sound session.reader.settings.maxDepth :=
    Schema.Sound.foldl_resolve (Schema.sound_declared _ text) fun _ hkey =>
      ForeignKey.sound_of_mem_all hkey
  have hsame : Reading.same (session.reader.read text) (session.reader.read text) = true := by
    simp [Reading.same, hsound.same_self]
  exact Prod.ext hsame rfl

end RailsSchema
