import RailsSchema.Definition.Field
import RailsSchema.Text.Scan

/-!
# Column types with their sizes

The report shows the types of integers, numbers and texts with the size that the `limit` option
gives, strings as `varchar`, and two further types by the size that they always have.
-/

namespace RailsSchema

open Text

/-- The number that decimal digits denote, if there are any and it is below 2^63. -/
def smallNumber? (digits : List Char) : Option Nat :=
  if digits.isEmpty then none
  else
    let number := Numeral.digitsValue digits
    if number < Nat.pow 2 63 then some number else none

/-- The whole number that a text begins with, after white space and an optional sign. -/
def leadingInt? (text : String) : Option Int :=
  match trimStart text.toList with
  | '-' :: cs => (smallNumber? (cs.takeWhile Char.isDigit)).map fun n => -(n : Int)
  | '+' :: cs => (smallNumber? (cs.takeWhile Char.isDigit)).map fun n => (n : Int)
  | cs => (smallNumber? (cs.takeWhile Char.isDigit)).map fun n => (n : Int)

namespace Field

/-- The types whose size the `limit` option gives. -/
def sizedTypes : List String := ["integer", "float", "decimal", "text", "string"]

/-- The size that the `limit` option gives; zero counts as none, and strings have one anyway. -/
def limit? (field : Field) : Option Int :=
  let given := ((field.option? "limit").bind fun value => leadingInt? value.display).filter (· != 0)
  given.or (if field.type = "string" then some 255 else none)

/-- A sized type: what the `size` option says, the type itself, the limit and the `unsigned`
mark. -/
def sizedType (field : Field) : String :=
  let size := ((field.option? "size").map Value.display).getD ""
  let base := if field.type = "string" then "varchar" else field.type
  let limit :=
    match field.limit? with
    | some n => "(" ++ toString n ++ ")"
    | none => ""
  let unsigned :=
    if ((field.option? "unsigned").map Value.isTruthy).getD false then " unsigned" else ""
  size ++ base ++ limit ++ unsigned

/-- The type of a field as the report shows it. -/
def displayType (field : Field) : String :=
  if sizedTypes.contains field.type then field.sizedType
  else if field.type = "boolean" then "tinyint(1)"
  else if field.type = "primary_key" then "bigint(20)"
  else field.type

end Field

end RailsSchema
