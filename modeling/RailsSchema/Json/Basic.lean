/-!
# JSON texts

A tree of the JSON values that exports need, which are all but numbers. Objects are lists of
members, so their order counts and a key may come twice. `Json.write` prints a tree in a layout: the
compact one has no white space, and the pretty one puts each item and each member on a line of its
own, indented by two spaces a level; empty arrays and objects are closed at once in both.
-/

namespace RailsSchema

/-- A JSON value without numbers. -/
inductive Json where
  | null
  | bool (value : Bool)
  | str (text : String)
  | arr (items : List Json)
  | obj (members : List (String × Json))
  deriving Repr, Inhabited

/-- Where the white space of a JSON text goes. -/
structure Json.Layout where
  /-- What stands before an item or a closing bracket at a level of indentation. -/
  gap : (level : Nat) → List Char
  /-- What stands between a key and its value. -/
  colon : List Char

namespace Json

/-- No white space at all. -/
def Layout.compact : Layout := ⟨fun _ => [], [':']⟩

/-- An item a line. -/
def Layout.pretty : Layout := ⟨fun level => '\n' :: List.replicate (2 * level) ' ', [':', ' ']⟩

/-- A hexadecimal digit, in lower case. -/
def hexDigit (n : Nat) : Char := if n < 10 then Char.ofNat (48 + n) else Char.ofNat (87 + n)

/-- How a character is written inside a string: quotes, backslashes and control characters are
escaped, by one letter where there is one. -/
def escape (c : Char) : List Char :=
  match c with
  | '"' => ['\\', '"']
  | '\\' => ['\\', '\\']
  | '\x08' => ['\\', 'b']
  | '\x0c' => ['\\', 'f']
  | '\n' => ['\\', 'n']
  | '\r' => ['\\', 'r']
  | '\t' => ['\\', 't']
  | c =>
    if c.toNat < 0x20 then
      ['\\', 'u', '0', '0', hexDigit (c.toNat / 16), hexDigit (c.toNat % 16)]
    else [c]

/-- A text as a JSON string. -/
def quote (text : String) : List Char := '"' :: (text.toList.flatMap escape ++ ['"'])

mutual

/-- Prints a tree that begins at a level of indentation. -/
def write (layout : Layout) (level : Nat) : Json → List Char
  | null => "null".toList
  | bool true => "true".toList
  | bool false => "false".toList
  | str text => quote text
  | arr [] => ['[', ']']
  | arr (item :: items) =>
    '[' :: (layout.gap (level + 1) ++ item.write layout (level + 1)
      ++ writeItems layout (level + 1) items ++ layout.gap level ++ [']'])
  | obj [] => ['\x7b', '\x7d']
  | obj ((key, value) :: members) =>
    '\x7b' :: (layout.gap (level + 1) ++ quote key ++ layout.colon
      ++ value.write layout (level + 1) ++ writeMembers layout (level + 1) members
      ++ layout.gap level ++ ['\x7d'])

/-- Prints the items after the first. -/
def writeItems (layout : Layout) (level : Nat) : List Json → List Char
  | [] => []
  | item :: items =>
    ',' :: (layout.gap level ++ item.write layout level ++ writeItems layout level items)

/-- Prints the members after the first. -/
def writeMembers (layout : Layout) (level : Nat) : List (String × Json) → List Char
  | [] => []
  | (key, value) :: members =>
    ',' :: (layout.gap level ++ quote key ++ layout.colon ++ value.write layout level
      ++ writeMembers layout level members)

end

/-- The text of a tree without white space. -/
def compact (json : Json) : String := String.ofList (json.write .compact 0)

/-- The text of a tree with an item a line. -/
def pretty (json : Json) : String := String.ofList (json.write .pretty 0)

end Json

end RailsSchema
