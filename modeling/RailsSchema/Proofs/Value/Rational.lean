import RailsSchema.Proofs.Value.Numeral
import Mathlib.Algebra.Field.Rat
import Mathlib.Data.List.Induction
import Mathlib.Data.Nat.Digits.Defs

/-!
# The numbers that numerals denote

Which texts are numerals is told by scanning: the sign is taken off, the rest is cut at its first
point, and the pieces are looked at. Here it is said by what a numeral is made of, and so is the
number that it denotes.

* `Numeral.isToken_iff`: the scan accepts an optional minus sign, any number of digits, an optional
  point and at least one digit;
* `Numeral.toRat`, `Numeral.toRat_normalize`: the number that a numeral denotes, which is the same
  after a zero has been put in front of the point;
* `Numeral.digitsValue_eq_ofDigits`: the number that digits denote, by powers of ten.
-/

namespace RailsSchema.Numeral

open Text

/-- Whether a text is a numeral as it may be written: digits, at least one of which stands at the
end, with an optional minus sign in front and an optional point between two of them or before the
first. -/
def IsNumeral (cs : List Char) : Prop :=
  ∃ sign whole point places, cs = sign ++ (whole ++ (point ++ places)) ∧
    (sign = [] ∨ sign = ['-']) ∧ areDigits whole = true ∧ (point = [] ∨ point = ['.']) ∧
    places ≠ [] ∧ areDigits places = true

/-- The number that a numeral denotes. -/
def toRat (cs : List Char) : ℚ :=
  let whole := (unsigned cs).takeWhile (· != '.')
  let places := ((unsigned cs).dropWhile (· != '.')).drop 1
  (if cs.head? = some '-' then -1 else 1) *
    (digitsValue whole + digitsValue places / 10 ^ places.length)

variable {cs : List Char}

theorem IsNumeral.ne_nil (h : IsNumeral cs) : cs ≠ [] := by
  obtain ⟨sign, whole, point, places, rfl, -, -, -, hne, -⟩ := h
  simp [hne]

/-- What the scan accepts is made of the parts of a numeral. -/
theorem isNumeral_of_isToken (h : isToken cs = true) : IsNumeral cs := by
  obtain ⟨sign, hcs, hsign⟩ := exists_sign cs
  have hwhole := areDigits_of_isToken h
  have hsplit := @List.takeWhile_append_dropWhile _ (· != '.') (unsigned cs)
  rcases fraction_of_isToken h with hnil | ⟨places, hfraction, hne, hplaces⟩
  · have hhead : (unsigned cs).head? ≠ some '.' := by
      intro hhead
      obtain ⟨behind, hunsigned⟩ := List.head?_eq_some_iff.mp hhead
      rw [hunsigned] at hnil
      cases hnil
    rw [hnil, List.append_nil] at hsplit
    refine ⟨sign, [], [], _, ?_, hsign, rfl, .inl rfl, takeWhile_ne_nil_of_isToken h hhead, hwhole⟩
    rw [hsplit]
    exact hcs
  · rw [hfraction] at hsplit
    refine ⟨sign, _, ['.'], places, ?_, hsign, hwhole, .inr rfl, hne, hplaces⟩
    rw [List.singleton_append, hsplit]
    exact hcs

/-- A numeral has a digit before its point and is canonical, or begins with the point. -/
theorem isToken_of_isNumeral (h : IsNumeral cs) : isToken cs = true := by
  obtain ⟨sign, whole, point, places, rfl, hsign, hwhole, hpoint, hne, hplaces⟩ := h
  rcases hpoint with rfl | rfl
  · have hdigits : areDigits (whole ++ places) = true := by
      unfold areDigits at hwhole hplaces ⊢
      rw [List.all_append, hwhole, hplaces]
      rfl
    apply isToken_of_isCanonical
    exact ⟨sign, whole ++ places, [], by simp, hsign, ⟨by simp [hne], hdigits⟩, .inl rfl⟩
  · by_cases hempty : whole = []
    · have hscan : isToken ('.' :: places) = true ∧ isToken ('-' :: '.' :: places) = true := by
        simpa [isToken, unsigned, areDigits, hne] using hplaces
      rcases hsign with rfl | rfl
      · rw [hempty]
        exact hscan.1
      · rw [hempty]
        exact hscan.2
    · apply isToken_of_isCanonical
      exact ⟨sign, whole, '.' :: places, rfl, hsign, ⟨hempty, hwhole⟩,
        .inr ⟨places, rfl, hne, hplaces⟩⟩

theorem isToken_iff : isToken cs = true ↔ IsNumeral cs :=
  ⟨isNumeral_of_isToken, isToken_of_isNumeral⟩

/-- The zero that is put in front of a point does not change the number. -/
theorem toRat_normalize (cs : List Char) : toRat (normalize cs) = toRat cs := by
  unfold normalize
  split
  · simp [toRat, unsigned, digitsValue]
  · simp [toRat, unsigned, digitsValue]
  · rfl

/-- The number that a decimal digit stands for. -/
def digitValue (c : Char) : Nat := c.toNat - '0'.toNat

theorem digitValue_le {c : Char} (h : c.isDigit = true) : digitValue c ≤ 9 := by
  have hc := (Char.isDigit_iff_toNat.mp h).2
  have hnine : '9'.toNat = '0'.toNat + 9 := by decide
  unfold digitValue
  omega

/-- Digits read from the left give the sum of the digits times their powers of ten. -/
theorem digitsValue_eq_ofDigits (digits : List Char) :
    digitsValue digits = Nat.ofDigits 10 (digits.reverse.map digitValue) := by
  induction digits using List.reverseRecOn with
  | nil => rfl
  | append_singleton digits c ih =>
    rw [List.reverse_append, List.reverse_singleton, List.singleton_append, List.map_cons,
      Nat.ofDigits_cons, ← ih]
    simp only [digitsValue, List.foldl_append, List.foldl_cons, List.foldl_nil, digitValue]
    exact Nat.add_comm _ _

/-- More digits behind a number move it to the left. -/
theorem digitsValue_append (digits behind : List Char) :
    digitsValue (digits ++ behind) =
      digitsValue digits * 10 ^ behind.length + digitsValue behind := by
  simp only [digitsValue_eq_ofDigits, List.reverse_append, List.map_append, Nat.ofDigits_append,
    List.length_map, List.length_reverse]
  rw [Nat.mul_comm, Nat.add_comm]

end RailsSchema.Numeral
