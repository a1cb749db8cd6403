import RailsSchema.Settings
import RailsSchema.Proofs.Value.Double
import RailsSchema.Proofs.Value.Rational

/-!
# Numerals that the legacy filter drops

The legacy filter drops a numeral whose double precision number is zero. These are the numerals of
magnitude at most 2^-1075, however they are written: half of the smallest positive number goes to
zero, which is even, and numerals that are too large go to an infinity.

* `Numeral.exists_toDouble?`: a numeral has the double precision number that it is rounded to
  correctly;
* `Value.isLegacyTruthy_numeric`: which numerals are kept.
-/

namespace RailsSchema

namespace Numeral

/-- The number that a numeral denotes, as the fraction that is rounded. -/
theorem toRat_eq_magnitude (cs : List Char) :
    toRat cs = (if cs.head? == some '-' then -1 else 1) *
      ((magnitude cs).1 / (Nat.pow 10 (magnitude cs).2 : ℕ)) := by
  have hpow : ∀ k, ((Nat.pow 10 k : ℕ) : ℚ) = 10 ^ k := fun k => Nat.cast_pow 10 k
  simp only [toRat, magnitude, digitsValue_append, beq_iff_eq, hpow]
  congr 1
  push_cast
  field_simp

theorem exists_toDouble? {cs : List Char} (h : isToken cs = true) :
    ∃ number, toDouble? cs = some number ∧ number.Rounds (toRat cs) := by
  refine ⟨_, if_pos h, ?_⟩
  rw [toRat_eq_magnitude]
  exact Double.rounds_nearest _ (Nat.pow_pos (by decide))

end Numeral

theorem Value.isLegacyTruthy_of_toDouble? {text : String} {number : Double}
    (h : Numeral.toDouble? text.toList = some number) :
    isLegacyTruthy (.numeric text) = !number.isZero := by
  simp only [isLegacyTruthy, h]

/-- A numeral has a correctly rounded double precision number, and whichever that is, the numeral
counts as absent if it is zero, that is, if the magnitude of the numeral is at most 2^-1075. Numerals
of magnitude 1 and more count as present, however many digits they have. -/
theorem Value.isLegacyTruthy_numeric {text : String} (h : Numeral.IsCanonical text.toList) :
    (∃ number, Numeral.toDouble? text.toList = some number ∧
      number.Rounds (Numeral.toRat text.toList)) ∧
    (∀ number : Double, number.Rounds (Numeral.toRat text.toList) →
      isLegacyTruthy (.numeric text) = !number.isZero) ∧
    (isLegacyTruthy (.numeric text) = false ↔
      |Numeral.toRat text.toList| ≤ 2 ^ (-1075 : ℤ)) ∧
    (1 ≤ |Numeral.toRat text.toList| → isLegacyTruthy (.numeric text) = true) := by
  obtain ⟨number, hnumber, hrounds⟩ :=
    Numeral.exists_toDouble? (Numeral.isToken_of_isCanonical h)
  have hkept := Value.isLegacyTruthy_of_toDouble? hnumber
  have hiff : isLegacyTruthy (.numeric text) = false ↔
      |Numeral.toRat text.toList| ≤ 2 ^ (-1075 : ℤ) := by
    rw [hkept, Bool.not_eq_false', hrounds.isZero_iff]
  refine ⟨⟨number, hnumber, hrounds⟩, fun other hother => ?_, hiff, fun hone => ?_⟩
  · rw [hkept, Bool.not_inj_iff, Bool.eq_iff_iff, hrounds.isZero_iff, hother.isZero_iff]
  · have hsmall : (2 : ℚ) ^ (-1075 : ℤ) < 1 := zpow_lt_one_of_neg₀ (by norm_num) (by decide)
    rw [← Bool.not_eq_false, hiff, not_le]
    exact hsmall.trans_le hone

/-- A numeral that is not zero, but too near to it. -/
def underflowing : List Char := "-0.".toList ++ List.replicate 323 '0' ++ ['2']

theorem Value.isLegacyTruthy_underflowing :
    Numeral.IsCanonical (String.ofList underflowing).toList ∧
      isLegacyTruthy (.numeric (String.ofList underflowing)) = false ∧
      |Numeral.toRat (String.ofList underflowing).toList| ≤ 2 ^ (-1075 : ℤ) := by
  have hcanonical : Numeral.IsCanonical (String.ofList underflowing).toList := by
    rw [String.toList_ofList, Numeral.isCanonical_iff]
    decide +kernel
  have hdropped : isLegacyTruthy (.numeric (String.ofList underflowing)) = false := by
    have hzero : Numeral.toDouble? underflowing = some (.finite ⟨true, 0, -1074⟩) := by decide +kernel
    rw [← String.toList_ofList (l := underflowing)] at hzero
    exact isLegacyTruthy_of_toDouble? hzero
  exact ⟨hcanonical, hdropped, (isLegacyTruthy_numeric hcanonical).2.2.1.mp hdropped⟩

end RailsSchema
