import RailsSchema.Value.Double
import Mathlib.Algebra.Order.Field.Power
import Mathlib.Algebra.Order.Ring.Rat
import Mathlib.Tactic.FieldSimp
import Mathlib.Tactic.Linarith
import Mathlib.Tactic.NormNum
import Mathlib.Tactic.Positivity
import Mathlib.Tactic.Ring

/-!
# Rounding to double precision

What it means that a double precision number is the correctly rounded one is said without computing
it: no other number in normal form is nearer, and of two that are equally near it is the even one.
Numbers in normal form have no greatest exponent here; a number overflows when the nearest of them is
out of range.

* `Double.rounds_nearest`: the computed number is the correctly rounded one;
* `Double.Rounds.isZero_iff`: a correctly rounded number is zero up to half of the smallest positive
  double precision number.
-/

namespace RailsSchema

/-! ## Correct rounding -/

namespace Binary

/-- The number. -/
def toRat (b : Binary) : ℚ := (if b.negative then -1 else 1) * (b.significand * 2 ^ b.exponent)

/-- Whether the significand has at most 53 bits, and exactly 53 unless the exponent is the least. -/
structure IsNormal (b : Binary) : Prop where
  significand_lt : b.significand < 2 ^ 53
  le_exponent : -1074 ≤ b.exponent
  full : b.exponent = -1074 ∨ 2 ^ 52 ≤ b.significand

/-- Whether no number in normal form is nearer to `v` than `b`, and `b` is even if another one is
equally near. -/
structure IsNearest (v : ℚ) (b : Binary) : Prop where
  isNormal : b.IsNormal
  le : ∀ c : Binary, c.IsNormal → |v - b.toRat| ≤ |v - c.toRat|
  even : ∀ c : Binary, c.IsNormal → |v - b.toRat| = |v - c.toRat| → c.toRat ≠ b.toRat →
    b.significand % 2 = 0

theorem abs_toRat (b : Binary) : |b.toRat| = b.significand * 2 ^ b.exponent := by
  have hnonneg : (0 : ℚ) ≤ b.significand * 2 ^ b.exponent := by positivity
  unfold toRat
  cases b.negative <;> simp [abs_of_nonneg hnonneg]

theorem toRat_eq_zero_iff (b : Binary) : b.toRat = 0 ↔ b.significand = 0 := by
  have hpow : (2 : ℚ) ^ b.exponent ≠ 0 := zpow_ne_zero _ (by norm_num)
  rw [← abs_eq_zero, abs_toRat, mul_eq_zero, or_iff_left hpow, Nat.cast_eq_zero]

/-- Numbers in normal form that are not zero have at least the magnitude of the smallest one, and
twice that if they are even. -/
theorem IsNormal.least_le {b : Binary} (h : b.IsNormal) (hne : b.toRat ≠ 0) :
    2 ^ (-1074 : ℤ) ≤ |b.toRat| ∧
      (b.significand % 2 = 0 → 2 * 2 ^ (-1074 : ℤ) ≤ |b.toRat|) := by
  have hpow : (2 : ℚ) ^ (-1074 : ℤ) ≤ 2 ^ b.exponent :=
    zpow_le_zpow_right₀ (by norm_num) h.le_exponent
  have hmultiple : ∀ k : ℕ, k ≤ b.significand → (k : ℚ) * 2 ^ (-1074 : ℤ) ≤ |b.toRat| := by
    intro k hk
    rw [abs_toRat]
    exact mul_le_mul (by exact_mod_cast hk) hpow (by positivity) (by positivity)
  rw [ne_eq, toRat_eq_zero_iff] at hne
  have hone := hmultiple 1 (by omega)
  rw [Nat.cast_one, one_mul] at hone
  refine ⟨hone, fun heven => ?_⟩
  have htwo := hmultiple 2 (by omega)
  rwa [Nat.cast_ofNat] at htwo

theorem isNormal_zero : IsNormal ⟨false, 0, -1074⟩ := ⟨by decide, by decide, .inl rfl⟩

theorem toRat_zero : toRat ⟨false, 0, -1074⟩ = 0 := (toRat_eq_zero_iff _).mpr rfl

theorem isNormal_least (negative : Bool) : IsNormal ⟨negative, 1, -1074⟩ :=
  ⟨by norm_num, Int.le_refl _, .inl rfl⟩

theorem toRat_least (negative : Bool) :
    toRat ⟨negative, 1, -1074⟩ = (if negative then -1 else 1) * 2 ^ (-1074 : ℤ) := by
  rw [toRat, Nat.cast_one, one_mul]

variable {v : ℚ} {b : Binary}

/-- What rounds to zero is at least as far from the smallest positive and negative numbers. What does
not is no nearer to zero than to its neighbour, which then is not the smallest number, as that is
odd. -/
theorem IsNearest.toRat_eq_zero_iff (h : IsNearest v b) :
    b.toRat = 0 ↔ |v| ≤ 2 ^ (-1075 : ℤ) := by
  have hhalf : (2 : ℚ) ^ (-1075 : ℤ) = 2 ^ (-1074 : ℤ) / 2 := zpow_sub_one₀ (by norm_num) (-1074)
  have hpos : (0 : ℚ) < 2 ^ (-1074 : ℤ) := by positivity
  have hplus := h.le _ (isNormal_least false)
  have hminus := h.le _ (isNormal_least true)
  have hzero := h.le _ isNormal_zero
  have heven := h.even _ isNormal_zero
  have hleast := h.isNormal.least_le
  rw [hhalf]
  rw [toRat_zero, sub_zero] at hzero heven
  simp only [toRat_least, if_true, if_false, Bool.false_eq_true, one_mul, neg_mul] at hplus hminus
  generalize (2 : ℚ) ^ (-1074 : ℤ) = least at *
  constructor
  · intro hb
    rw [hb, sub_zero] at hplus hminus
    rcases abs_cases v with ⟨hv, hsign⟩ | ⟨hv, hsign⟩
    · rcases abs_cases (v - least) with ⟨hdiff, -⟩ | ⟨hdiff, -⟩ <;> linarith
    · rcases abs_cases (v - -least) with ⟨hdiff, -⟩ | ⟨hdiff, -⟩ <;> linarith
  · intro hv
    by_contra hne
    have hsum : |b.toRat| ≤ |v - b.toRat| + |v| := by
      have htriangle := abs_sub_abs_le_abs_sub b.toRat v
      rw [abs_sub_comm] at htriangle
      linarith
    obtain ⟨hlow, hhigh⟩ := hleast hne
    have htie : |v - b.toRat| = |v| := le_antisymm hzero (by linarith)
    linarith [hhigh (heven htie (Ne.symm hne))]

/-- Whether `y` is no farther from `x` than `z` is, and `even` if it is as far and another number. -/
def Preferred (even : Prop) (x y z : ℚ) : Prop :=
  |x - y| ≤ |x - z| ∧ (|x - y| = |x - z| → z = y ∨ even)

theorem Preferred.imp {even even' : Prop} {x y z : ℚ} (h : Preferred even x y z)
    (heven : even → even') : Preferred even' x y z :=
  ⟨h.1, fun htie => (h.2 htie).imp_right heven⟩

/-- Distances may be compared in any unit. -/
theorem preferred_div {even : Prop} {x y z unit : ℚ} (hunit : 0 < unit) :
    Preferred even (x / unit) (y / unit) (z / unit) ↔ Preferred even x y z := by
  have hdiv : ∀ y : ℚ, |x / unit - y / unit| = |x - y| / unit := fun y => by
    rw [← sub_div, abs_div, abs_of_pos hunit]
  rw [Preferred, hdiv, hdiv, div_le_div_iff_of_pos_right hunit, div_left_inj' hunit.ne',
    div_left_inj' hunit.ne', ← Preferred]

/-- It is enough to compare magnitudes, if the sign is the right one. -/
theorem isNearest_of_abs (hb : b.IsNormal) (hsign : |v - b.toRat| = |(|v| - |b.toRat|)|)
    (habs : ∀ c : Binary, c.IsNormal →
      Preferred (b.significand % 2 = 0) |v| |b.toRat| |c.toRat|) :
    IsNearest v b := by
  have hle : ∀ c : Binary, c.IsNormal → |v - b.toRat| ≤ |v - c.toRat| := fun c hc => by
    rw [hsign]
    exact (habs c hc).1.trans (abs_abs_sub_abs_le v c.toRat)
  refine ⟨hb, hle, fun c hc htie hne => ?_⟩
  have heq : |(|v| - |b.toRat|)| = |(|v| - |c.toRat|)| := by
    refine le_antisymm (habs c hc).1 ?_
    rw [← hsign, htie]
    exact abs_abs_sub_abs_le v c.toRat
  refine ((habs c hc).2 heq).resolve_left fun hcb => ?_
  -- The negated number is equally near only to zero, but then the nearest one is zero itself.
  have hneg : c.toRat = -b.toRat := (abs_eq_abs.mp hcb).resolve_left hne
  rw [hneg] at htie hne
  have hv : v = 0 := by
    rcases abs_eq_abs.mp htie with h | h
    · exact absurd (by linarith) hne
    · linarith
  have hzero := hle _ isNormal_zero
  rw [hv, toRat_zero, sub_zero, abs_zero, zero_sub, abs_neg] at hzero
  exact hne (by rw [abs_nonpos_iff.mp hzero, neg_zero])

end Binary

namespace Double

/-- Whether a double precision number is the correctly rounded value of a number. -/
def Rounds (v : ℚ) : Double → Prop
  | .finite b => Binary.IsNearest v b ∧ b.exponent ≤ 971
  | .infinite negative => ∃ b : Binary, Binary.IsNearest v b ∧ 971 < b.exponent ∧ b.negative = negative

/-- A number rounds to zero if its magnitude is at most half of the smallest positive one. -/
theorem Rounds.isZero_iff {v : ℚ} {d : Double} (h : d.Rounds v) :
    d.isZero = true ↔ |v| ≤ 2 ^ (-1075 : ℤ) := by
  cases d with
  | finite b =>
    rw [← h.1.toRat_eq_zero_iff, Binary.toRat_eq_zero_iff, isZero, beq_iff_eq]
  | infinite negative =>
    obtain ⟨b, hb, hrange, -⟩ := h
    rw [← hb.toRat_eq_zero_iff, Binary.toRat_eq_zero_iff]
    have hfull := hb.isNormal.full.resolve_left (by omega)
    exact iff_of_false Bool.false_ne_true (by omega)

/-! ## The computation -/

variable (num : Nat) {den : Nat}

theorem scale_pos (hden : 0 < den) (exponent : Int) : 0 < (scale num den exponent).2 :=
  Nat.mul_pos hden (Nat.pow_pos (by decide))

theorem scale_div (num den : Nat) (exponent : Int) :
    ((scale num den exponent).1 / (scale num den exponent).2 : ℚ) = num / den / 2 ^ exponent := by
  have hpow : (2 : ℚ) ^ exponent = 2 ^ exponent.toNat / 2 ^ (-exponent).toNat := by
    rw [← zpow_natCast, ← zpow_natCast, ← zpow_sub₀ (by norm_num)]
    congr 1
    omega
  have hnum : ((scale num den exponent).1 : ℚ) = num * 2 ^ (-exponent).toNat := by
    exact_mod_cast rfl
  have hden : ((scale num den exponent).2 : ℚ) = den * 2 ^ exponent.toNat := by
    exact_mod_cast rfl
  rw [hnum, hden, hpow, div_div_eq_mul_div, div_mul_eq_mul_div, div_div]

/-- The rounded quotient is at most a half away, and even if it is that far. -/
theorem abs_sub_roundQuotient (hden : 0 < den) :
    |(num / den : ℚ) - roundQuotient num den| ≤ 1 / 2 ∧
      (|(num / den : ℚ) - roundQuotient num den| = 1 / 2 → roundQuotient num den % 2 = 0) := by
  have hpos : (0 : ℚ) < den := by exact_mod_cast hden
  have hquotient : (num / den : ℚ) = (num / den : Nat) + (num % den : Nat) / den := by
    field_simp
    exact_mod_cast (Nat.div_add_mod num den).symm
  have hlt : ((num % den : Nat) : ℚ) < den := by exact_mod_cast Nat.mod_lt num hden
  have hnonneg : (0 : ℚ) ≤ (num % den : Nat) / den := by positivity
  unfold roundQuotient
  dsimp only
  split_ifs with h
  · rw [hquotient, add_sub_cancel_left, abs_of_nonneg hnonneg]
    rcases h with h | ⟨h, heven⟩
    · have hhalf : ((num % den : Nat) : ℚ) / den < 1 / 2 := by
        rw [div_lt_div_iff₀ hpos (by norm_num)]
        exact_mod_cast (by omega : num % den * 2 < 1 * den)
      exact ⟨hhalf.le, fun htie => absurd htie hhalf.ne⟩
    · have hhalf : ((num % den : Nat) : ℚ) / den = 1 / 2 := by
        rw [div_eq_div_iff hpos.ne' (by norm_num)]
        exact_mod_cast (by omega : num % den * 2 = 1 * den)
      exact ⟨hhalf.le, fun _ => heven⟩
  · have hone : ((num % den : Nat) : ℚ) / den < 1 := (div_lt_one hpos).mpr hlt
    have habs : |(num / den : ℚ) - (num / den + 1 : Nat)| = 1 - (num % den : Nat) / den := by
      rw [hquotient, abs_of_nonpos] <;> push_cast <;> linarith
    have hhalf : 1 / 2 ≤ ((num % den : Nat) : ℚ) / den := by
      rw [div_le_div_iff₀ (by norm_num) hpos]
      exact_mod_cast (by omega : 1 * den ≤ num % den * 2)
    rw [habs]
    refine ⟨by linarith, fun htie => ?_⟩
    have heq : ((num % den : Nat) : ℚ) / den = 1 / 2 := by linarith
    rw [div_eq_div_iff hpos.ne' (by norm_num)] at heq
    have hnat : num % den * 2 = 1 * den := by exact_mod_cast heq
    omega

/-- No whole number is nearer than the rounded quotient, and another one is equally near only if the
rounded quotient is even. -/
theorem roundQuotient_nearest (hden : 0 < den) (k : Nat) :
    Binary.Preferred (roundQuotient num den % 2 = 0) (num / den) (roundQuotient num den) k := by
  obtain ⟨hhalf, heven⟩ := abs_sub_roundQuotient num hden
  by_cases hk : k = roundQuotient num den
  · rw [← hk]
    exact ⟨le_refl _, fun _ => .inl rfl⟩
  have hapart : (1 : ℚ) ≤ |(roundQuotient num den : ℚ) - k| := by
    have hint : (1 : ℤ) ≤ |(roundQuotient num den : ℤ) - k| := Int.one_le_abs (by omega)
    exact_mod_cast hint
  have htriangle := abs_sub_le (roundQuotient num den : ℚ) (num / den) k
  rw [abs_sub_comm (roundQuotient num den : ℚ) (num / den)] at htriangle
  exact ⟨by linarith, fun htie => .inr (heven (by linarith))⟩

theorem log2_bounds {num : Nat} (hnum : num ≠ 0) (hden : 0 < den) :
    (2 : ℚ) ^ ((num.log2 : ℤ) - den.log2 - 1) ≤ num / den ∧
      (num / den : ℚ) < 2 ^ ((num.log2 : ℤ) - den.log2 + 1) := by
  have hpos : (0 : ℚ) < den := by exact_mod_cast hden
  have hnumLow : (2 : ℚ) ^ num.log2 ≤ num := by exact_mod_cast Nat.log2_self_le hnum
  have hnumHigh : (num : ℚ) < 2 ^ (num.log2 + 1) := by exact_mod_cast Nat.lt_log2_self
  have hdenLow : (2 : ℚ) ^ den.log2 ≤ den := by exact_mod_cast Nat.log2_self_le hden.ne'
  have hdenHigh : (den : ℚ) < 2 ^ (den.log2 + 1) := by exact_mod_cast Nat.lt_log2_self
  have hlow : (num.log2 : ℤ) - den.log2 - 1 = (num.log2 : ℕ) - (den.log2 + 1 : ℕ) := by omega
  have hhigh : (num.log2 : ℤ) - den.log2 + 1 = (num.log2 + 1 : ℕ) - (den.log2 : ℕ) := by omega
  rw [hlow, hhigh, zpow_sub₀ (by norm_num), zpow_sub₀ (by norm_num)]
  simp only [zpow_natCast]
  exact ⟨div_le_div₀ (Nat.cast_nonneg _) hnumLow hpos hdenHigh.le,
    div_lt_div₀ hnumHigh hdenLow (by positivity) (by positivity)⟩

theorem scale_lt_iff (hden : 0 < den) (exponent : Int) :
    (scale num den exponent).1 < (scale num den exponent).2 ↔ (num / den : ℚ) < 2 ^ exponent := by
  have hpos : (0 : ℚ) < (scale num den exponent).2 := by
    exact_mod_cast scale_pos num hden exponent
  rw [← Nat.cast_lt (α := ℚ), ← div_lt_one hpos, scale_div, div_lt_one (by positivity)]

/-- The last place is 53 bits behind the first power of two above the fraction, or the least. -/
theorem exists_lastPlace {num : Nat} (hnum : num ≠ 0) (hden : 0 < den) :
    ∃ first : ℤ, (num / den : ℚ) < 2 ^ first ∧ (2 : ℚ) ^ (first - 1) ≤ num / den ∧
      lastPlace num den = if first - 53 < -1074 then -1074 else first - 53 := by
  obtain ⟨hlow, hhigh⟩ := log2_bounds hnum hden
  have hside := scale_lt_iff num hden (num.log2 - den.log2)
  by_cases hlt : (num / den : ℚ) < 2 ^ ((num.log2 : ℤ) - den.log2)
  · refine ⟨num.log2 - den.log2, hlt, hlow, ?_⟩
    simp only [lastPlace, if_neg hnum, if_pos (hside.mpr hlt)]
    rfl
  · refine ⟨num.log2 - den.log2 + 1, hhigh, ?_, ?_⟩
    · rw [add_sub_cancel_right]
      exact not_lt.mp hlt
    · simp only [lastPlace, if_neg hnum, if_neg fun h => hlt (hside.mp h)]
      rfl

/-- In units of the last place a fraction has at most 53 bits, and exactly 53 unless that place is
the least one. -/
theorem lastPlace_spec (hden : 0 < den) :
    -1074 ≤ lastPlace num den ∧ (num / den / 2 ^ lastPlace num den : ℚ) < 2 ^ 53 ∧
      (lastPlace num den = -1074 ∨ (2 : ℚ) ^ 52 ≤ num / den / 2 ^ lastPlace num den) := by
  by_cases hnum : num = 0
  · have hplace : lastPlace num den = -1074 := by rw [lastPlace, if_pos hnum]; rfl
    rw [hplace, hnum, Nat.cast_zero, zero_div, zero_div]
    exact ⟨Int.le_refl _, by norm_num, .inl rfl⟩
  obtain ⟨first, hbelow, habove, hplace⟩ := exists_lastPlace hnum hden
  rw [hplace, div_lt_iff₀ (by positivity), le_div_iff₀ (by positivity), ← zpow_natCast,
    ← zpow_natCast, ← zpow_add₀ (by norm_num), ← zpow_add₀ (by norm_num)]
  split_ifs with hsmall
  · refine ⟨Int.le_refl _, hbelow.trans_le ?_, .inl rfl⟩
    exact zpow_le_zpow_right₀ (by norm_num) (by omega)
  · refine ⟨by omega, ?_, .inr ?_⟩
    · rwa [show ((53 : ℕ) : ℤ) + (first - 53) = first by omega]
    · rwa [show ((52 : ℕ) : ℤ) + (first - 53) = first - 1 by omega]

theorem units_nearest (hden : 0 < den) (k : Nat) :
    Binary.Preferred (units num den % 2 = 0) (num / den / 2 ^ lastPlace num den)
      (units num den) k := by
  rw [← scale_div]
  exact roundQuotient_nearest _ (scale_pos num hden _) k

theorem units_le (hden : 0 < den) :
    units num den ≤ 2 ^ 53 ∧ (lastPlace num den = -1074 ∨ 2 ^ 52 ≤ units num den) := by
  obtain ⟨-, hlt, hfull⟩ := lastPlace_spec num hden
  have hhigh := (units_nearest num hden (2 ^ 53)).1
  have hlow := (units_nearest num hden (2 ^ 52)).1
  rw [Nat.cast_pow, Nat.cast_ofNat] at hhigh hlow
  constructor
  · rw [abs_of_neg (sub_neg.mpr hlt), abs_le] at hhigh
    exact_mod_cast (by linarith : (units num den : ℚ) ≤ 2 ^ 53)
  · refine hfull.imp_right fun hfull => ?_
    rw [abs_of_nonneg (sub_nonneg.mpr hfull), abs_le] at hlow
    exact_mod_cast (by linarith : (2 : ℚ) ^ 52 ≤ units num den)

/-- Numbers in normal form whose exponent is not below the last place are multiples of it. Those with
a smaller exponent are below all numbers of 53 bits, hence farther away. -/
theorem units_nearest_normal (hden : 0 < den) {c : Binary} (hc : c.IsNormal) :
    Binary.Preferred (units num den % 2 = 0) (num / den / 2 ^ lastPlace num den) (units num den)
      (|c.toRat| / 2 ^ lastPlace num den) := by
  obtain ⟨-, -, hfull⟩ := lastPlace_spec num hden
  by_cases hplace : lastPlace num den ≤ c.exponent
  · have hmultiple : |c.toRat| / 2 ^ lastPlace num den =
        (c.significand * 2 ^ (c.exponent - lastPlace num den).toNat : ℕ) := by
      rw [Binary.abs_toRat, mul_div_assoc, ← zpow_sub₀ (by norm_num), Nat.cast_mul, Nat.cast_pow,
        Nat.cast_ofNat, ← zpow_natCast, Int.toNat_of_nonneg (by omega)]
    rw [hmultiple]
    exact units_nearest num hden _
  · have hfull := hfull.resolve_left (by have := hc.le_exponent; omega)
    have hsmall : |c.toRat| / 2 ^ lastPlace num den < 2 ^ 52 := by
      have hpow : (2 : ℚ) ^ c.exponent ≤ 2 ^ (lastPlace num den - 1) :=
        zpow_le_zpow_right₀ (by norm_num) (by omega)
      have hlt : (c.significand : ℚ) < 2 ^ 53 := by exact_mod_cast hc.significand_lt
      rw [div_lt_iff₀ (by positivity), Binary.abs_toRat]
      calc (c.significand : ℚ) * 2 ^ c.exponent < 2 ^ 53 * 2 ^ c.exponent :=
            mul_lt_mul_of_pos_right hlt (by positivity)
        _ ≤ 2 ^ 53 * 2 ^ (lastPlace num den - 1) := mul_le_mul_of_nonneg_left hpow (by positivity)
        _ = 2 ^ 52 * 2 ^ lastPlace num den := by
          rw [zpow_sub₀ (by norm_num), zpow_one]
          ring
    have hnear := (units_nearest num hden (2 ^ 52)).1
    rw [Nat.cast_pow, Nat.cast_ofNat, abs_of_nonneg (sub_nonneg.mpr hfull)] at hnear
    rw [Binary.Preferred, abs_of_pos (by linarith : 0 < _ - |c.toRat| / 2 ^ lastPlace num den)]
    exact ⟨by linarith, fun htie => absurd htie (by linarith)⟩

variable {negative : Bool}

theorem negative_round : (round negative num den).negative = negative := by
  unfold round
  split <;> rfl

theorem abs_toRat_round :
    |(round negative num den).toRat| = units num den * 2 ^ lastPlace num den := by
  rw [Binary.abs_toRat]
  unfold round
  split
  · next hcarry =>
    rw [hcarry, zpow_add₀ (by norm_num), zpow_one]
    have hcarry : ((Nat.pow 2 precision : ℕ) : ℚ) = (Nat.pow 2 (precision - 1) : ℕ) * 2 := by
      exact_mod_cast rfl
    rw [hcarry]
    ring
  · rfl

theorem even_round (h : units num den % 2 = 0) : (round negative num den).significand % 2 = 0 := by
  have hpow : Nat.pow 2 (precision - 1) % 2 = 0 := by decide
  unfold round
  split
  · exact hpow
  · exact h

theorem isNormal_round (hden : 0 < den) : (round negative num den).IsNormal := by
  obtain ⟨hplace, -, -⟩ := lastPlace_spec num hden
  obtain ⟨hle, hfull⟩ := units_le num hden
  have hpow : Nat.pow 2 precision = 2 ^ 53 := rfl
  unfold round
  rw [hpow]
  split
  · have hlt : Nat.pow 2 (precision - 1) < 2 ^ 53 := by decide
    exact ⟨hlt, Int.le_add_one hplace, .inr (Nat.le_refl _)⟩
  · next hcarry => exact ⟨Nat.lt_of_le_of_ne hle hcarry, hplace, hfull⟩

/-- The rounded fraction is the nearest number in normal form. -/
theorem isNearest_round (hden : 0 < den) :
    Binary.IsNearest ((if negative then -1 else 1) * (num / den)) (round negative num den) := by
  have hnonneg : (0 : ℚ) ≤ num / den := by positivity
  have hv : |(if negative then -1 else 1) * (num / den : ℚ)| = num / den := by
    cases negative <;> simp [abs_of_nonneg hnonneg]
  have hunit : (0 : ℚ) < 2 ^ lastPlace num den := by positivity
  have hunits : |(round negative num den).toRat| / 2 ^ lastPlace num den = units num den := by
    rw [abs_toRat_round, mul_div_cancel_right₀ _ hunit.ne']
  apply Binary.isNearest_of_abs (isNormal_round num hden)
  · rw [hv, Binary.abs_toRat, Binary.toRat, negative_round, ← mul_sub, abs_mul]
    cases negative <;> simp
  · intro c hc
    rw [hv, ← Binary.preferred_div hunit, hunits]
    exact (units_nearest_normal num hden hc).imp (even_round num)

/-- The computed number is the correctly rounded one. -/
theorem rounds_nearest (hden : 0 < den) :
    (nearest negative num den).Rounds ((if negative then -1 else 1) * (num / den)) := by
  have hnearest : Binary.IsNearest ((if negative then -1 else 1) * (num / den))
      (round negative num den) := isNearest_round num hden
  by_cases hrange : maxExponent < (round negative num den).exponent
  · rw [nearest, if_pos hrange]
    exact ⟨_, hnearest, hrange, negative_round num⟩
  · rw [nearest, if_neg hrange]
    exact ⟨hnearest, not_lt.mp hrange⟩

/-- A tenth is not a double precision number. -/
example : nearest false 1 10 = .finite ⟨false, 7205759403792794, -56⟩ := by decide

end Double

end RailsSchema
