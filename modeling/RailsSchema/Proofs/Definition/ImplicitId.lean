import RailsSchema.Proofs.Entries
import RailsSchema.Definition.Table

/-!
# The options of the implicit column

An option map for `id` is read entry by entry, each changing the implicit column, while the options
of a declared column are taken out of their map one after the other. As no key comes twice, both
find the same attributes and leave the same options, in the same order. Only for `null` they part:
a declared column is nullable unless `null` is `false`, the implicit one is if `null` counts as
true.

* `Field.foldl_override`: an attribute that one key sets, after all entries;
* `Field.options_foldl_override`: the options after all entries;
* `Field.implicitId_hash`: the implicit column beside a declared one with the same options.
-/

namespace RailsSchema

namespace OrderedMap

variable {α : Type}

theorem get?_erase_of_ne {key k : String} (hne : k ≠ key) (m : OrderedMap α) :
    get? (erase m key) k = get? m k := by
  induction m with
  | nil => rfl
  | cons entry m ih =>
    rw [erase, List.filter_cons]
    by_cases hkey : entry.1 = key
    · have hother : entry.1 ≠ k := fun heq => hne (heq.symm.trans hkey)
      rw [if_neg (by simpa using hkey), get?, if_neg hother]
      exact ih
    · rw [if_pos (by simpa using hkey), get?, get?, ← ih, erase]

end OrderedMap

namespace Field

open OrderedMap

/-! ## One entry -/

variable (field : Field) (entry : String × Value)

/-- The keys that set an attribute of the implicit column. -/
def attributeKeys : List String := ["type", "null", "default", "comment"]

theorem name_override : (override field entry).name = field.name := by
  unfold override
  split <;> rfl

theorem type_override : (override field entry).type =
    if entry.1 = "type" then entry.2.name?.getD field.type else field.type := by
  unfold override
  split <;> simp_all

theorem nullable_override : (override field entry).nullable =
    if entry.1 = "null" then entry.2.isTruthy else field.nullable := by
  unfold override
  split <;> simp_all

theorem default_override : (override field entry).default =
    if entry.1 = "default" then some entry.2 else field.default := by
  unfold override
  split <;> simp_all

theorem comment_override : (override field entry).comment =
    if entry.1 = "comment" then some entry.2.display else field.comment := by
  unfold override
  split <;> simp_all

theorem options_override : (override field entry).options =
    if entry.1 ∈ attributeKeys then field.options
    else OrderedMap.insert field.options entry.1 entry.2 := by
  unfold override attributeKeys
  split <;> simp_all

/-! ## All entries -/

theorem name_foldl_override (entries : Options) :
    (entries.foldl override field).name = field.name := by
  induction entries generalizing field with
  | nil => rfl
  | cons entry entries ih => rw [List.foldl_cons, ih, name_override]

/-- What becomes of an attribute that the entry of one key sets, if no key comes twice. -/
theorem foldl_override {β : Type} {part : Field → β} {key : String} (set : Value → β → β)
    (hset : ∀ field entry, part (override field entry) =
      if entry.1 = key then set entry.2 (part field) else part field)
    {entries : Options} (hnodup : (keys entries).Nodup) :
    part (entries.foldl override field) =
      ((get? entries key).map fun value => set value (part field)).getD (part field) := by
  induction entries generalizing field with
  | nil => rfl
  | cons entry entries ih =>
    obtain ⟨hnew, hnodup⟩ := List.nodup_cons.mp hnodup
    rw [List.foldl_cons, ih _ hnodup, hset, get?]
    by_cases hkey : entry.1 = key
    -- no later entry sets the attribute again: the key would come twice
    · have hlater : get? entries key = none := get?_eq_none_iff.mpr (hkey ▸ hnew)
      rw [hlater, if_pos hkey, if_pos hkey]
      rfl
    · rw [if_neg hkey, if_neg hkey]

/-- The entries of the other keys end up among the options, in order. -/
theorem options_foldl_override (entries : Options) :
    (entries.foldl override field).options =
      insertAll field.options (entries.filter fun entry => entry.1 ∉ attributeKeys) := by
  induction entries generalizing field with
  | nil => rfl
  | cons entry entries ih =>
    rw [List.foldl_cons, ih, options_override, List.filter_cons]
    by_cases hkey : entry.1 ∈ attributeKeys
    · rw [if_pos hkey, if_neg (by simpa using hkey)]
    · rw [if_neg hkey, if_pos (by simpa using hkey)]
      rfl

/-! ## The implicit column and a declared one -/

theorem implicitId_eq (options : Options) :
    implicitId (.hash options) = options.foldl override (plainId (.hash options)) := rfl

theorem name_implicitId (options : Options) : (implicitId (.hash options)).name = idName :=
  name_foldl_override _ options

section

variable {options : Options} (hnodup : (keys options).Nodup)

include hnodup

theorem type_implicitId : (implicitId (.hash options)).type =
    ((get? options "type").bind Value.name?).getD "primary_key" := by
  rw [implicitId_eq,
    foldl_override _ (fun value type => value.name?.getD type) type_override hnodup]
  cases get? options "type" <;> rfl

theorem nullable_implicitId : (implicitId (.hash options)).nullable =
    ((get? options "null").map Value.isTruthy).getD false := by
  rw [implicitId_eq, foldl_override _ (fun value _ => value.isTruthy) nullable_override hnodup]
  rfl

theorem default_implicitId : (implicitId (.hash options)).default = get? options "default" := by
  rw [implicitId_eq, foldl_override _ (fun value _ => some value) default_override hnodup]
  cases get? options "default" <;> rfl

theorem comment_implicitId : (implicitId (.hash options)).comment =
    ((get? options "comment").map Value.display).or (some "AUTO_INCREMENT") := by
  rw [implicitId_eq, foldl_override _ (fun value _ => some value.display) comment_override hnodup]
  cases get? options "comment" <;> rfl

theorem options_implicitId : (implicitId (.hash options)).options =
    options.filter fun entry => entry.1 ∉ attributeKeys := by
  have hothers : (keys (options.filter fun entry => entry.1 ∉ attributeKeys)).Nodup :=
    hnodup.sublist (List.filter_sublist.map _)
  rw [implicitId_eq, options_foldl_override]
  exact ofEntries_of_nodup hothers

end

/-- A declared column whose option map has lost its `type`. -/
theorem ofOptions_erase_type (name type : String) (options : Options) :
    ofOptions name type (erase options "type") =
      { ofOptions name type options with
        options := options.filter fun entry => entry.1 ∉ attributeKeys } := by
  have hoptions : (ofOptions name type (erase options "type")).options =
      options.filter fun entry => entry.1 ∉ attributeKeys := by
    simp only [ofOptions, erase, List.filter_filter]
    refine List.filter_congr fun entry _ => ?_
    simp [attributeKeys, Bool.and_assoc, Bool.and_comm]
  rw [← hoptions]
  simp only [ofOptions]
  rw [get?_erase_of_ne (by decide), get?_erase_of_ne (by decide), get?_erase_of_ne (by decide)]

/-- Of the values for `null`, only `nil` means one thing to a declared column and another to the
implicit one. -/
theorem nullable_ofOptions_eq_isTruthy_iff {name type : String} {options : Options} {value : Value}
    (hnull : get? options "null" = some value) :
    value.isTruthy = (ofOptions name type options).nullable ↔ value ≠ .keyword .nil := by
  simp only [ofOptions, hnull]
  cases value with
  | keyword word => cases word <;> simp [Value.isTruthy]
  | _ => simp [Value.isTruthy]

/-- The implicit column has the options, the default value and the comment of a declared column with
the same options but `type`, which it has its type from; without a comment it says `AUTO_INCREMENT`.
If there is a `null` option, it is nullable when the declared one is, and it is not nullable without
one. That `null` is `nil` is the one exception: then the declared column is nullable, and the
implicit one is not. -/
theorem implicitId_hash {options : Options} (hnodup : (keys options).Nodup) (type : String) :
    let implicit := implicitId (.hash options)
    let declared := ofOptions idName type (erase options "type")
    implicit.name = declared.name ∧
      implicit.options = declared.options ∧
      implicit.default = declared.default ∧
      implicit.comment =
        (if contains options "comment" then declared.comment else some "AUTO_INCREMENT") ∧
      implicit.type = ((get? options "type").bind Value.name?).getD "primary_key" ∧
      (implicit.nullable = (if contains options "null" then declared.nullable else false) ↔
        get? options "null" ≠ some (.keyword .nil)) ∧
      (get? options "null" = some (.keyword .nil) →
        implicit.nullable = false ∧ declared.nullable = true) := by
  intro implicit declared
  have hdeclared : declared = _ := ofOptions_erase_type idName type options
  refine ⟨name_implicitId options, ?_, ?_, ?_, type_implicitId hnodup, ?_, fun hnil => ⟨?_, ?_⟩⟩
  · rw [hdeclared]
    exact options_implicitId hnodup
  · rw [hdeclared]
    exact default_implicitId hnodup
  · rw [hdeclared, contains]
    refine (comment_implicitId hnodup).trans ?_
    show _ = if _ then (get? options "comment").map Value.display else _
    cases get? options "comment" <;> rfl
  · rw [hdeclared, contains, show implicit.nullable = _ from nullable_implicitId hnodup]
    cases hnull : get? options "null" with
    | none => simp
    | some value => simpa using nullable_ofOptions_eq_isTruthy_iff hnull
  · refine (nullable_implicitId hnodup).trans ?_
    rw [hnil]
    rfl
  · rw [hdeclared]
    simp [ofOptions, hnil]

/-- An implicit column that is nullable, because its `null` option is a text. -/
theorem implicitId_hash_bigint :
    let options : Options :=
      [("unsigned", .keyword .true), ("null", .str ""), ("type", .symbol "bigint"),
        ("comment", .numeric "7"), ("limit", .numeric "8")]
    let implicit := implicitId (.hash options)
    let declared := ofOptions idName "integer" (erase options "type")
    (keys options).Nodup ∧
      implicit.type = "bigint" ∧ implicit.nullable = true ∧ implicit.comment = some "7" ∧
      implicit.name = declared.name ∧
      implicit.options = declared.options ∧
      implicit.default = declared.default ∧
      implicit.comment =
        (if contains options "comment" then declared.comment else some "AUTO_INCREMENT") ∧
      implicit.type = ((get? options "type").bind Value.name?).getD "primary_key" ∧
      (implicit.nullable = (if contains options "null" then declared.nullable else false) ↔
        get? options "null" ≠ some (.keyword .nil)) ∧
      (get? options "null" = some (.keyword .nil) →
        implicit.nullable = false ∧ declared.nullable = true) := by
  intro options implicit declared
  have hnodup : (keys options).Nodup := by decide
  exact ⟨hnodup, rfl, rfl, rfl, implicitId_hash hnodup "integer"⟩

/-- `null: nil` leaves a declared column nullable, but not the implicit one. -/
theorem implicitId_null_nil :
    let options : Options := [("null", .keyword .nil)]
    (contains options "null" ∧ (implicitId (.hash options)).nullable = false ∧
      (ofOptions idName "primary_key" (erase options "type")).nullable = true) ∧
    (Table.read {} "" "id: \x7b null: nil \x7d").fields.map Field.nullable = [false] ∧
    (Field.all {} "t.primary_key \"id\", null: nil").map Field.nullable = [true] := by
  decide +kernel

end Field

end RailsSchema
