import RailsSchema.Proofs.Entries
import RailsSchema.Proofs.Text.Runs
import RailsSchema.Proofs.Value.Nesting

/-!
# Written values

A value can be written in more than one way, since each key of a map has four forms. `Written` is a
value together with the form of each key; `Written.text` is its text and `Written.value` the value
it stands for. `Value.Writable` singles out the values that have a written form: strings without a
double quote, numerals with digits before the point, symbols that are tokens but no keywords,
callables whose braces close at their end, and maps whose keys are distinct words.
`Value.labelled` writes a value with labels for all keys.
-/

namespace RailsSchema

open Text

/-- The word of a keyword. -/
def Keyword.word : Keyword → String
  | .true => "true"
  | .false => "false"
  | .nil => "nil"

/-- Whether a text is a word: word characters, at least one. -/
def Text.IsWord (cs : List Char) : Prop := cs ≠ [] ∧ ∀ c ∈ cs, isWordChar c = true

instance (cs : List Char) : Decidable (IsWord cs) := inferInstanceAs (Decidable (_ ∧ _))

/-- Whether a text is digits, an optional minus sign in front of them and optionally a point and
more digits behind them. -/
def Numeral.IsCanonical (cs : List Char) : Prop :=
  ∃ sign whole fraction, cs = sign ++ (whole ++ fraction) ∧ (sign = [] ∨ sign = ['-']) ∧
    (whole ≠ [] ∧ areDigits whole = true) ∧
    (fraction = [] ∨ ∃ places, fraction = '.' :: places ∧ places ≠ [] ∧ areDigits places = true)

/-- Whether a text is the source of a callable: an arrow, white space and a group in braces that
ends where the text does. -/
def Text.IsCallable (cs : List Char) : Prop :=
  ∃ blanks body, cs = '-' :: '>' :: (blanks ++ body) ∧ (∀ c ∈ blanks, isBlank c = true) ∧
    body.head? = some Bracket.curly.opening ∧ groupEnd? body 0 = .ok (some (byteLength body))

/-- Whether a text is the name of a symbol: token characters, none of them an apostrophe, that
spell no keyword. -/
def Text.IsSymbolName (cs : List Char) : Prop :=
  cs ≠ [] ∧ (∀ c ∈ cs, Literal.isTokenChar c = true ∧ c ≠ '\'') ∧
    Keyword.ofWord? (String.ofList cs) = none

instance (cs : List Char) : Decidable (IsSymbolName cs) := inferInstanceAs (Decidable (_ ∧ _ ∧ _))

namespace Value

/-- Whether a value has a written form, provided that its members have one. -/
def IsWritable : Value → Prop
  | .str text => '"' ∉ text.toList
  | .callable source => IsCallable source.toList
  | .hash entries =>
    (OrderedMap.keys entries).Nodup ∧ ∀ key ∈ OrderedMap.keys entries, IsWord key.toList
  | .array _ => True
  | .numeric text => Numeral.IsCanonical text.toList
  | .symbol name => IsSymbolName name.toList
  | .keyword _ => True

/-- Whether a value and all values inside it have written forms. -/
def Writable (value : Value) : Prop := value.Each IsWritable

end Value

/-- The forms in which a key is written before its value. -/
inductive KeyForm where
  /-- `key: ` -/
  | label
  /-- `:key => ` -/
  | symbol
  /-- `"key" => ` -/
  | doubleQuoted
  /-- `'key' => ` -/
  | singleQuoted
  deriving DecidableEq, Repr

/-- A key as it is written before its value. -/
def KeyForm.text (form : KeyForm) (key : String) : List Char :=
  match form with
  | .label => key.toList ++ [':', ' ']
  | .symbol => ':' :: (key.toList ++ [' ', '=', '>', ' '])
  | .doubleQuoted => '"' :: (key.toList ++ ['"', ' ', '=', '>', ' '])
  | .singleQuoted => '\'' :: (key.toList ++ ['\'', ' ', '=', '>', ' '])

/-- A value with the form in which each of its keys is written. -/
inductive Written where
  | str (text : String)
  | callable (source : String)
  | hash (entries : List (KeyForm × String × Written))
  | array (items : List Written)
  | numeric (text : String)
  | symbol (name : String)
  | keyword (word : Keyword)

/-- What stands between two items of a list or two entries of a map. -/
def comma : List Char := [',', ' ']

namespace Written

/-- Induction over written values by their members. -/
@[elab_as_elim]
theorem induction {motive : Written → Prop}
    (str : ∀ text, motive (.str text)) (callable : ∀ source, motive (.callable source))
    (hash : ∀ entries, (∀ entry ∈ entries, motive entry.2.2) → motive (.hash entries))
    (array : ∀ items, (∀ item ∈ items, motive item) → motive (.array items))
    (numeric : ∀ text, motive (.numeric text)) (symbol : ∀ name, motive (.symbol name))
    (keyword : ∀ word, motive (.keyword word)) (written : Written) : motive written :=
  @Written.rec motive (fun entries => ∀ entry ∈ entries, motive entry.2.2)
    (fun items => ∀ item ∈ items, motive item) (fun entry => motive entry.2.2)
    (fun entry => motive entry.2)
    str callable (fun entries => hash entries) (fun items => array items) numeric symbol keyword
    (by simp) (fun _ _ hentry hentries => List.forall_mem_cons.mpr ⟨hentry, hentries⟩)
    (by simp) (fun _ _ hitem hitems => List.forall_mem_cons.mpr ⟨hitem, hitems⟩)
    (fun _ _ hentry => hentry) (fun _ _ hwritten => hwritten) written

mutual

/-- The text of a written value. -/
def text : Written → List Char
  | .str text => '"' :: (text.toList ++ ['"'])
  | .callable source => source.toList
  | .hash entries =>
    Bracket.curly.opening :: (comma.intercalate (entryTexts entries) ++ [Bracket.curly.closing])
  | .array items =>
    Bracket.square.opening :: (comma.intercalate (itemTexts items) ++ [Bracket.square.closing])
  | .numeric text => text.toList
  | .symbol name => ':' :: name.toList
  | .keyword word => word.word.toList

/-- The texts of the items of a list. -/
def itemTexts : List Written → List (List Char)
  | [] => []
  | item :: items => item.text :: itemTexts items

/-- The texts of the entries of a map. -/
def entryTexts : List (KeyForm × String × Written) → List (List Char)
  | [] => []
  | (form, key, entry) :: entries => (form.text key ++ entry.text) :: entryTexts entries

end

mutual

/-- The value that a written value stands for. -/
def value : Written → Value
  | .str text => .str text
  | .callable source => .callable source
  | .hash entries => .hash (entryValues entries)
  | .array items => .array (itemValues items)
  | .numeric text => .numeric text
  | .symbol name => .symbol name
  | .keyword word => .keyword word

/-- The values of the items of a list. -/
def itemValues : List Written → List Value
  | [] => []
  | item :: items => item.value :: itemValues items

/-- The keys and values of a map. -/
def entryValues : List (KeyForm × String × Written) → List (String × Value)
  | [] => []
  | (_, key, entry) :: entries => (key, entry.value) :: entryValues entries

end

theorem itemTexts_eq_map (items : List Written) : itemTexts items = items.map text := by
  induction items with
  | nil => rfl
  | cons item items ih => simp [itemTexts, ih]

theorem entryTexts_eq_map (entries : List (KeyForm × String × Written)) :
    entryTexts entries = entries.map fun entry => entry.1.text entry.2.1 ++ entry.2.2.text := by
  induction entries with
  | nil => rfl
  | cons entry entries ih => simp [entryTexts, ih]

theorem itemValues_eq_map (items : List Written) : itemValues items = items.map value := by
  induction items with
  | nil => rfl
  | cons item items ih => simp [itemValues, ih]

theorem entryValues_eq_map (entries : List (KeyForm × String × Written)) :
    entryValues entries = entries.map fun entry => (entry.2.1, entry.2.2.value) := by
  induction entries with
  | nil => rfl
  | cons entry entries ih => simp [entryValues, ih]

end Written

namespace Value

mutual

/-- A value written with labels for all its keys. -/
def labelled : Value → Written
  | .str text => .str text
  | .callable source => .callable source
  | .hash entries => .hash (labelledEntries entries)
  | .array items => .array (labelledItems items)
  | .numeric text => .numeric text
  | .symbol name => .symbol name
  | .keyword word => .keyword word

/-- The items of a list, each written with labels. -/
def labelledItems : List Value → List Written
  | [] => []
  | item :: items => item.labelled :: labelledItems items

/-- The entries of a map, each written with labels. -/
def labelledEntries : List (String × Value) → List (KeyForm × String × Written)
  | [] => []
  | (key, value) :: entries => (.label, key, value.labelled) :: labelledEntries entries

end

theorem labelledItems_eq_map (items : List Value) :
    labelledItems items = items.map labelled := by
  induction items with
  | nil => rfl
  | cons item items ih => simp [labelledItems, ih]

theorem labelledEntries_eq_map (entries : List (String × Value)) :
    labelledEntries entries =
      entries.map fun entry => (KeyForm.label, entry.1, entry.2.labelled) := by
  induction entries with
  | nil => rfl
  | cons entry entries ih => simp [labelledEntries, ih]

@[simp] theorem value_labelled (value : Value) : value.labelled.value = value := by
  induction value using Value.induction with
  | hash entries ih =>
    simp only [labelled, Written.value, labelledEntries_eq_map, Written.entryValues_eq_map,
      List.map_map, hash.injEq]
    exact map_eq_self fun entry h => Prod.ext rfl (ih entry h)
  | array items ih =>
    simp only [labelled, Written.value, labelledItems_eq_map, Written.itemValues_eq_map,
      List.map_map, array.injEq]
    exact map_eq_self ih
  | _ => rfl

end Value

end RailsSchema
