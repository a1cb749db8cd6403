import RailsSchema.Value.Double

/-!
# Numerals

A numeral is an optional minus sign, digits, and optionally a point followed by more digits. A
token may leave out the digits before the point; `Numeral.normalize` then puts a zero there, so a
stored numeral always has some.

`Numeral.toDouble?` is the double precision number nearest to a numeral, which is zero for some
numerals that are not.
-/

namespace RailsSchema.Numeral

/-- A text without a minus sign in front, if there is one. -/
def unsigned : List Char → List Char
  | '-' :: cs => cs
  | cs => cs

/-- Whether all characters are decimal digits. -/
def areDigits (cs : List Char) : Bool := cs.all Char.isDigit

/-- Whether a text is decimal digits, or digits, a point and at least one digit, the digits before
the point being optional; a minus sign may stand in front. -/
def isToken (token : List Char) : Bool :=
  let whole := (unsigned token).takeWhile (· != '.')
  match (unsigned token).dropWhile (· != '.') with
  | [] => !whole.isEmpty && areDigits whole
  | _ :: fraction => areDigits whole && !fraction.isEmpty && areDigits fraction

/-- A numeral token with a zero before a point that nothing precedes. -/
def normalize : List Char → List Char
  | '-' :: '.' :: cs => '-' :: '0' :: '.' :: cs
  | '.' :: cs => '0' :: '.' :: cs
  | cs => cs

/-- The number that decimal digits denote. -/
def digitsValue (cs : List Char) : Nat :=
  cs.foldl (fun n c => 10 * n + (c.toNat - '0'.toNat)) 0

/-- The magnitude of a numeral as a numerator and the number of places after the point. -/
def magnitude (token : List Char) : Nat × Nat :=
  let whole := (unsigned token).takeWhile (· != '.')
  let fraction := ((unsigned token).dropWhile (· != '.')).drop 1
  (digitsValue (whole ++ fraction), fraction.length)

/-- The double precision number nearest to a numeral. -/
def toDouble? (token : List Char) : Option Double :=
  if isToken token then
    let (num, places) := magnitude token
    some (Double.nearest (token.head? == some '-') num (Nat.pow 10 places))
  else none

end RailsSchema.Numeral
