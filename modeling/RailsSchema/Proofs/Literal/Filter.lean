import RailsSchema.Literal.Listing
import RailsSchema.Proofs.Entries

/-!
# Filtering after reading

The legacy filter leaves items out of lists while a text is read, at every level of nesting. The
result is the same as if all items had been read first and the value been gone through afterwards:
`Value.prune` drops what the filter does not keep from all lists in a value, and leaves the entries
of maps in place.

* `Literal.value_legacyTruthy`: what a literal stands for under the legacy filter is its full value,
  pruned; a list or a map is never absent itself, so it does not matter whether an item is pruned
  before it is tested or after;
* `parseValue_legacyTruthy`, `parseOptions_legacyTruthy`, `parseArray_legacyTruthy`: so it is for
  the value at an offset of a text, for an option map and for a list.
-/

namespace RailsSchema

namespace Value

mutual

/-- A value without the items that the legacy filter leaves out of lists. -/
def prune : Value → Value
  | .array items => .array (pruneItems items)
  | .hash entries => .hash (pruneEntries entries)
  | value => value

/-- The items that the legacy filter keeps, pruned. -/
def pruneItems : List Value → List Value
  | [] => []
  | item :: items =>
    if item.isLegacyTruthy then item.prune :: pruneItems items else pruneItems items

/-- The entries with pruned values, none left out. -/
def pruneEntries : List (String × Value) → List (String × Value)
  | [] => []
  | (key, value) :: entries => (key, value.prune) :: pruneEntries entries

end

theorem pruneItems_eq_map (items : List Value) :
    pruneItems items = (items.filter isLegacyTruthy).map prune := by
  induction items with
  | nil => rfl
  | cons item items ih =>
    rw [pruneItems, List.filter_cons, ih]
    split <;> rfl

theorem pruneEntries_eq_map (entries : List (String × Value)) :
    pruneEntries entries = entries.map fun entry => (entry.1, entry.2.prune) := by
  induction entries with
  | nil => rfl
  | cons entry entries ih => rw [pruneEntries, List.map_cons, ih]

/-- Pruning does not make a value absent, nor an absent value present. -/
theorem isLegacyTruthy_prune (value : Value) : value.prune.isLegacyTruthy = value.isLegacyTruthy := by
  cases value <;> rfl

end Value

namespace Literal

/-- Induction over literals by their members. -/
@[elab_as_elim]
theorem induction {motive : Literal → Prop}
    (str : ∀ text, motive (.str text)) (callable : ∀ source, motive (.callable source))
    (numeric : ∀ text, motive (.numeric text)) (symbol : ∀ name, motive (.symbol name))
    (keyword : ∀ word, motive (.keyword word))
    (array : ∀ items cut, (∀ item ∈ items, motive item) → motive (.array items cut))
    (hash : ∀ entries cut, (∀ entry ∈ entries, motive entry.2) → motive (.hash entries cut))
    (literal : Literal) : motive literal :=
  @Literal.rec motive (fun items => ∀ item ∈ items, motive item)
    (fun entries => ∀ entry ∈ entries, motive entry.2) (fun entry => motive entry.2)
    str callable numeric symbol keyword (fun items cut => array items cut)
    (fun entries cut => hash entries cut)
    (by simp) (fun _ _ hitem hitems => List.forall_mem_cons.mpr ⟨hitem, hitems⟩)
    (by simp) (fun _ _ hentry hentries => List.forall_mem_cons.mpr ⟨hentry, hentries⟩)
    (fun _ _ hliteral => hliteral) literal

theorem itemValues_present (items : List Literal) :
    itemValues .present items = items.map (value .present) := by
  rw [itemValues_eq_filter]
  exact List.filter_eq_self.mpr fun _ _ => rfl

/-! ## Members -/

/-- If the items of a list are pruned, the list is what is kept of its items, pruned. -/
theorem itemValues_legacyTruthy {items : List Literal}
    (h : ∀ item ∈ items, item.value .legacyTruthy = (item.value .present).prune) :
    itemValues .legacyTruthy items =
      ((itemValues .present items).filter Value.isLegacyTruthy).map Value.prune := by
  have hitems : items.map (value .legacyTruthy) = (items.map (value .present)).map Value.prune := by
    rw [List.map_map]
    exact List.map_congr_left h
  have hkeeps : ArrayFilter.legacyTruthy.keeps ∘ Value.prune = Value.isLegacyTruthy :=
    funext Value.isLegacyTruthy_prune
  rw [itemValues_eq_filter, hitems, List.filter_map, hkeeps, itemValues_present]

/-- If the values of entries are pruned, so are those of their map, also where an entry has taken the
place of another. -/
theorem ofEntries_legacyTruthy {entries : List (String × Literal)}
    (h : ∀ entry ∈ entries, entry.2.value .legacyTruthy = (entry.2.value .present).prune) :
    OrderedMap.ofEntries (entryValues .legacyTruthy entries) =
      (OrderedMap.ofEntries (entryValues .present entries)).map
        fun entry => (entry.1, entry.2.prune) := by
  rw [← OrderedMap.ofEntries_map, entryValues_eq_map, entryValues_eq_map, List.map_map]
  congr 1
  refine List.map_congr_left fun entry hentry => ?_
  exact congrArg (Prod.mk entry.1) (h entry hentry)

/-! ## Literals -/

/-- The value of a literal under the legacy filter is its full value, pruned. -/
theorem value_legacyTruthy (literal : Literal) :
    literal.value .legacyTruthy = (literal.value .present).prune := by
  induction literal using Literal.induction with
  | array items cut ih =>
    simp only [value, Value.prune, Value.pruneItems_eq_map, itemValues_legacyTruthy ih]
  | hash entries cut ih =>
    simp only [value, Value.prune, Value.pruneEntries_eq_map, ofEntries_legacyTruthy ih]
  | _ => rfl

end Literal

/-! ## Texts -/

variable (maxDepth : Nat)

theorem parseValue_legacyTruthy (text : List Char) (start : Nat) :
    parseValue ⟨.legacyTruthy, maxDepth⟩ text start =
      (parseValue ⟨.present, maxDepth⟩ text start).map
        (Option.map fun found => (found.1.prune, found.2)) := by
  unfold parseValue
  cases Literal.readAt maxDepth text start with
  | error e => rfl
  | ok found =>
    cases found with
    | none => rfl
    | some found =>
      show Except.ok (some (found.1.value .legacyTruthy, found.2)) = _
      rw [Literal.value_legacyTruthy]
      rfl

theorem parseOptions_legacyTruthy (text : String) :
    parseOptions ⟨.legacyTruthy, maxDepth⟩ text =
      (parseOptions ⟨.present, maxDepth⟩ text).map fun entry => (entry.1, entry.2.prune) :=
  Literal.ofEntries_legacyTruthy fun entry _ => entry.2.value_legacyTruthy

theorem parseArray_legacyTruthy (text : String) :
    parseArray ⟨.legacyTruthy, maxDepth⟩ text =
      ((parseArray ⟨.present, maxDepth⟩ text).filter Value.isLegacyTruthy).map Value.prune :=
  Literal.itemValues_legacyTruthy fun item _ => item.value_legacyTruthy

end RailsSchema
