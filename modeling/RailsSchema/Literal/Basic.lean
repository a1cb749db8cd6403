import RailsSchema.Literal.Reader
import RailsSchema.Settings

/-!
# Literals

A literal is a value as it was written: lists still hold the items that a filter will drop, maps
still hold every entry in the order written, also those that a later one for the same key replaces,
and both know where reading them was cut short. `Literal.value` is the value that a literal stands
for under a filter, and `Literal.cuts` lists the cuts inside it in the order of reading.
`itemValues_eq_filter` and `entryValues_eq_map` say what becomes of the parts of lists and maps.
-/

namespace RailsSchema

/-- A value as it was written. -/
inductive Literal where
  | str (text : String)
  | callable (source : String)
  | numeric (text : String)
  | symbol (name : String)
  | keyword (word : Keyword)
  | array (items : List Literal) (cut : Option Cut)
  | hash (entries : List (String × Literal)) (cut : Option Cut)
  deriving Repr, Inhabited

namespace Literal

mutual

/-- The value of a literal under a filter. -/
def value (filter : ArrayFilter) : Literal → Value
  | .str text => .str text
  | .callable source => .callable source
  | .numeric text => .numeric text
  | .symbol name => .symbol name
  | .keyword word => .keyword word
  | .array items _ => .array (itemValues filter items)
  | .hash entries _ => .hash (OrderedMap.ofEntries (entryValues filter entries))

/-- The values of the items that the filter keeps. -/
def itemValues (filter : ArrayFilter) : List Literal → List Value
  | [] => []
  | item :: items =>
    if filter.keeps (item.value filter) then
      item.value filter :: itemValues filter items
    else itemValues filter items

/-- The entries with their values, none left out. -/
def entryValues (filter : ArrayFilter) : List (String × Literal) → List (String × Value)
  | [] => []
  | (key, entry) :: entries => (key, entry.value filter) :: entryValues filter entries

end

mutual

/-- The cuts inside a literal, those of the items before that of the list itself. -/
def cuts : Literal → List Cut
  | .array items cut => itemCuts items ++ cut.toList
  | .hash entries cut => entryCuts entries ++ cut.toList
  | _ => []

/-- The cuts inside the items of a list. -/
def itemCuts : List Literal → List Cut
  | [] => []
  | item :: items => item.cuts ++ itemCuts items

/-- The cuts inside the values of a map. -/
def entryCuts : List (String × Literal) → List Cut
  | [] => []
  | (_, entry) :: entries => entry.cuts ++ entryCuts entries

end

/-! ## Lists of literals, item by item -/

theorem itemValues_eq_filter (filter : ArrayFilter) (items : List Literal) :
    itemValues filter items = (items.map (value filter)).filter filter.keeps := by
  induction items with
  | nil => rfl
  | cons item items ih =>
    simp only [itemValues, List.map_cons, List.filter_cons, ih]

theorem entryValues_eq_map (filter : ArrayFilter) (entries : List (String × Literal)) :
    entryValues filter entries = entries.map fun entry => (entry.1, entry.2.value filter) := by
  induction entries with
  | nil => rfl
  | cons entry entries ih => simp [entryValues, ih]

end Literal

end RailsSchema
