/-!
# Double precision numbers

The number nearest to a fraction among the double precision numbers, with ties to the even neighbour
and overflow to infinity, computed on natural numbers: the place of the last bit is found from the
logarithms of numerator and denominator, and the fraction is rounded to a multiple of that place.
-/

namespace RailsSchema

/-- A significand times a power of two, with a sign. -/
structure Binary where
  negative : Bool
  significand : Nat
  exponent : Int
  deriving DecidableEq, Repr

/-- A double precision number, or an infinity. -/
inductive Double where
  | finite (number : Binary)
  | infinite (negative : Bool)
  deriving DecidableEq, Repr

namespace Double

/-- The number of bits of a significand. -/
def precision : Nat := 53

/-- The exponent of the smallest numbers. -/
def minExponent : Int := -1074

/-- The exponent of the largest numbers. -/
def maxExponent : Int := 971

/-- Whether a number is zero, of either sign. -/
def isZero : Double → Bool
  | .finite number => number.significand == 0
  | .infinite _ => false

/-- Numerator and denominator of a fraction over a power of two. -/
def scale (num den : Nat) (exponent : Int) : Nat × Nat :=
  (num * Nat.pow 2 (-exponent).toNat, den * Nat.pow 2 exponent.toNat)

/-- The exponent of the last bit that is kept of a fraction. -/
def lastPlace (num den : Nat) : Int :=
  if num = 0 then minExponent
  else
    -- The first bit is at the difference of the logarithms or right behind it.
    let top : Int := num.log2 - den.log2
    let (num', den') := scale num den top
    let exponent := (if num' < den' then top else top + 1) - precision
    if exponent < minExponent then minExponent else exponent

/-- The whole number nearest to a fraction, the even one of two. -/
def roundQuotient (num den : Nat) : Nat :=
  let quotient := num / den
  let rest := num % den
  if 2 * rest < den ∨ 2 * rest = den ∧ quotient % 2 = 0 then quotient else quotient + 1

/-- A fraction in units of the place of its last bit, rounded. -/
def units (num den : Nat) : Nat :=
  let (num', den') := scale num den (lastPlace num den)
  roundQuotient num' den'

/-- A fraction, negated if it is `negative`, rounded to a multiple of the place of its last bit. If
that takes a bit too many, the result is a power of two. -/
def round (negative : Bool) (num den : Nat) : Binary :=
  if units num den = Nat.pow 2 precision then
    ⟨negative, Nat.pow 2 (precision - 1), lastPlace num den + 1⟩
  else ⟨negative, units num den, lastPlace num den⟩

/-- The double precision number nearest to a fraction. -/
def nearest (negative : Bool) (num den : Nat) : Double :=
  let number := round negative num den
  if maxExponent < number.exponent then .infinite negative else .finite number

end Double

end RailsSchema
