import RailsSchema.Value.Basic

/-!
# The text of a value

Values show as they read, without quotes and colons: a list in brackets, a map in braces with
`key: value` entries, both parted by a comma and a space. `nil` shows as `null`.
-/

namespace RailsSchema

/-- The text of a keyword; absence shows as `null`. -/
def Keyword.display : Keyword → String
  | .true => "true"
  | .false => "false"
  | .nil => "null"

namespace Value

mutual

/-- The text of a value. -/
def display : Value → String
  | .str text => text
  | .callable source => source
  | .numeric text => text
  | .symbol name => name
  | .keyword word => word.display
  | .array items => "[" ++ ", ".intercalate (displayItems items) ++ "]"
  | .hash entries => "\x7b" ++ ", ".intercalate (displayEntries entries) ++ "\x7d"

/-- The texts of the items of a list. -/
def displayItems : List Value → List String
  | [] => []
  | item :: items => item.display :: displayItems items

/-- The texts of the entries of a map. -/
def displayEntries : List (String × Value) → List String
  | [] => []
  | (key, value) :: entries => (key ++ ": " ++ value.display) :: displayEntries entries

end

theorem displayItems_eq_map (items : List Value) : displayItems items = items.map display := by
  induction items with
  | nil => rfl
  | cons item items ih => simp [displayItems, ih]

theorem displayEntries_eq_map (entries : List (String × Value)) :
    displayEntries entries = entries.map fun entry => entry.1 ++ ": " ++ entry.2.display := by
  induction entries with
  | nil => rfl
  | cons entry entries ih => simp [displayEntries, ih]

end Value

end RailsSchema
