import RailsSchema.OrderedMap

/-!
# Values

The values that schema statements are written with, as they are after reading: strings, callables,
option maps, lists, numerals, symbols and the three keywords. Numerals are kept as text and
callables as the source they were written with.
-/

namespace RailsSchema

/-- The words with a meaning of their own. -/
inductive Keyword where
  | true
  | false
  | nil
  deriving DecidableEq, Repr

/-- The keyword that a word is. -/
def Keyword.ofWord? (word : String) : Option Keyword :=
  if word = "true" then some .true
  else if word = "false" then some .false
  else if word = "nil" then some .nil
  else none

/-- A value of a schema statement. -/
inductive Value where
  /-- A quoted text. -/
  | str (text : String)
  /-- The source of a callable, arrow and braces included. -/
  | callable (source : String)
  /-- An option map in order of insertion. -/
  | hash (entries : List (String × Value))
  | array (items : List Value)
  /-- A decimal numeral with at least one digit before the point. -/
  | numeric (text : String)
  | symbol (name : String)
  | keyword (word : Keyword)
  deriving Repr, Inhabited

/-- Option maps, in order of insertion. -/
abbrev Options := OrderedMap Value

/-- The forms of values. -/
inductive Value.Kind where
  | string
  | callable
  | hash
  | array
  | numeric
  | symbol
  | keyword
  deriving DecidableEq, Repr

namespace Value

/-- The form of a value. -/
def kind : Value → Kind
  | .str _ => .string
  | .callable _ => .callable
  | .hash _ => .hash
  | .array _ => .array
  | .numeric _ => .numeric
  | .symbol _ => .symbol
  | .keyword _ => .keyword

/-- The text of a value that reads as a name: a string, a symbol or a numeral. -/
def name? : Value → Option String
  | .str text => some text
  | .symbol name => some name
  | .numeric text => some text
  | _ => none

/-- The entries of an option map. -/
def entries? : Value → Option Options
  | .hash entries => some entries
  | _ => none

/-- Whether a value counts as true: all do but `false` and `nil`. -/
def isTruthy : Value → Bool
  | .keyword .false => false
  | .keyword .nil => false
  | _ => true

/-! ## Equality up to the order of maps -/

mutual

/-- Whether two values are equal when the order of the entries of maps does not count. -/
def same : Value → Value → Bool
  | .str a, .str b => a == b
  | .callable a, .callable b => a == b
  | .numeric a, .numeric b => a == b
  | .symbol a, .symbol b => a == b
  | .keyword a, .keyword b => a == b
  | .array as, .array bs => itemsSame as bs
  | .hash as, .hash bs => as.length == bs.length && entriesIn as bs
  | _, _ => false

/-- Whether two lists are equal, item by item. -/
def itemsSame : List Value → List Value → Bool
  | [], [] => true
  | a :: as, b :: bs => a.same b && itemsSame as bs
  | _, _ => false

/-- Whether each entry of the first map is an entry of the second. -/
def entriesIn : List (String × Value) → Options → Bool
  | [], _ => true
  | (k, a) :: as, bs =>
    (match OrderedMap.get? bs k with
      | some b => a.same b
      | none => false) && entriesIn as bs

end

end Value

/-- Whether two option maps hold the same entries, in whatever order. -/
def Options.same (as bs : Options) : Bool := as.length == bs.length && Value.entriesIn as bs

end RailsSchema
