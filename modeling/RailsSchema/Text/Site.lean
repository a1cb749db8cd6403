import RailsSchema.Text.Offset
import RailsSchema.Text.Scan

/-!
# Places of a keyword

Schema statements are recognised by their keyword wherever it stands, except where it continues a
longer word or a chain of method calls. `sites` lists those places from left to right, each with
the text that follows the keyword there.
-/

namespace RailsSchema.Text

/-- A place at which a keyword stands. -/
structure Site where
  /-- The byte offset of the keyword. -/
  start : Nat
  /-- The text after the keyword. -/
  rest : List Char
  deriving DecidableEq, Repr

/-- Whether a keyword can begin after the given character, `none` being the start of the text. -/
def isBoundary : Option Char → Bool
  | none => true
  | some c => !(isWordChar c || c == '.')

/-- The places of `keyword` in a text that begins at byte `offset` after the character `before`. -/
def sitesFrom (keyword : List Char) : Option Char → Nat → List Char → List Site
  | _, _, [] => []
  | before, offset, c :: cs =>
    match if isBoundary before then after? keyword (c :: cs) else none with
    | some rest => ⟨offset, rest⟩ :: sitesFrom keyword (some c) (offset + c.utf8Size) cs
    | none => sitesFrom keyword (some c) (offset + c.utf8Size) cs

/-- The places of `keyword` in a text. -/
def sites (keyword : String) (text : List Char) : List Site :=
  sitesFrom keyword.toList none 0 text

end RailsSchema.Text
