import RailsSchema.Proofs.Value.Written

/-!
# Canonical numerals

A canonical numeral has a digit before its point. It is a numeral token, which reading keeps as it
is, and every numeral token is canonical once it has been normalized.

* `Numeral.isToken_of_isCanonical`, `Numeral.normalize_of_isCanonical`: a canonical numeral is a
  numeral token and is kept as it is;
* `Numeral.isCanonical_iff`: what it is made of can be told by scanning;
* `Numeral.isCanonical_normalize`: reading makes a canonical numeral of every numeral token.
-/

namespace RailsSchema

open Text

namespace Numeral

/-- A canonical numeral begins with a digit or with a minus sign and a digit. -/
theorem IsCanonical.head {cs : List Char} (h : IsCanonical cs) :
    (∃ d ds, cs = d :: ds ∧ d.isDigit = true) ∨
      ∃ d ds, cs = '-' :: d :: ds ∧ d.isDigit = true := by
  obtain ⟨sign, whole, fraction, rfl, hsign, ⟨hne, hwhole⟩, -⟩ := h
  cases whole with
  | nil => exact absurd rfl hne
  | cons d whole =>
    have hd : d.isDigit = true := List.all_eq_true.mp hwhole d List.mem_cons_self
    rcases hsign with rfl | rfl
    · exact Or.inl ⟨d, whole ++ fraction, rfl, hd⟩
    · exact Or.inr ⟨d, whole ++ fraction, rfl, hd⟩

/-- The characters of a canonical numeral are digits, a minus sign and a point. -/
theorem IsCanonical.mem {cs : List Char} (h : IsCanonical cs) {c : Char} (hc : c ∈ cs) :
    c.isDigit = true ∨ c = '-' ∨ c = '.' := by
  obtain ⟨sign, whole, fraction, rfl, hsign, ⟨-, hwhole⟩, hfraction⟩ := h
  rcases List.mem_append.mp hc with hc | hc
  · rcases hsign with rfl | rfl
    · cases hc
    · exact Or.inr (Or.inl (List.mem_singleton.mp hc))
  rcases List.mem_append.mp hc with hc | hc
  · exact Or.inl (List.all_eq_true.mp hwhole c hc)
  rcases hfraction with rfl | ⟨places, rfl, -, hplaces⟩
  · cases hc
  rcases List.mem_cons.mp hc with rfl | hc
  · exact Or.inr (Or.inr rfl)
  · exact Or.inl (List.all_eq_true.mp hplaces c hc)

theorem unsigned_of_isDigit {d : Char} (hd : d.isDigit = true) (ds : List Char) :
    unsigned (d :: ds) = d :: ds := by
  unfold unsigned
  split
  · next heq => cases heq; cases hd
  · rfl

/-- Without its sign, a canonical numeral is digits up to the end or to a point. -/
theorem isToken_of_isCanonical {cs : List Char} (h : IsCanonical cs) : isToken cs = true := by
  obtain ⟨sign, whole, fraction, rfl, hsign, ⟨hne, hwhole⟩, hfraction⟩ := h
  have hunsigned : unsigned (sign ++ (whole ++ fraction)) = whole ++ fraction := by
    rcases hsign with rfl | rfl
    · cases whole with
      | nil => exact absurd rfl hne
      | cons d whole =>
        exact unsigned_of_isDigit (List.all_eq_true.mp hwhole d List.mem_cons_self) _
    · rfl
  have hrun : ∀ c ∈ whole, (c != '.') = true := by
    intro c hc
    simpa using ne_of_class (List.all_eq_true.mp hwhole c hc) (by decide : Char.isDigit '.' = false)
  have hstop : Stops (· != '.') fraction := by
    rcases hfraction with rfl | ⟨places, rfl, -⟩ <;> simp
  simp only [isToken, hunsigned, takeWhile_append_of_stops hrun hstop,
    dropWhile_append_of_stops hrun hstop]
  rcases hfraction with rfl | ⟨places, rfl, hplaces, hall⟩
  · simpa [hwhole] using hne
  · simpa [hwhole, hall] using hplaces

/-- There is a digit before the point of a canonical numeral already. -/
theorem normalize_of_isCanonical {cs : List Char} (h : IsCanonical cs) : normalize cs = cs := by
  unfold normalize
  rcases h.head with ⟨d, ds, rfl, hd⟩ | ⟨d, ds, rfl, hd⟩
  · split
    · next heq => cases heq; cases hd
    · next heq => cases heq; cases hd
    · rfl
  · split
    · next heq => cases heq; cases hd
    · next heq => cases heq
    · rfl

variable {cs : List Char}

theorem exists_sign (cs : List Char) :
    ∃ sign, cs = sign ++ unsigned cs ∧ (sign = [] ∨ sign = ['-']) := by
  unfold unsigned
  split
  · exact ⟨['-'], rfl, Or.inr rfl⟩
  · exact ⟨[], rfl, Or.inl rfl⟩

theorem areDigits_of_isToken (h : isToken cs = true) :
    areDigits ((unsigned cs).takeWhile (· != '.')) = true := by
  unfold isToken at h
  split at h
  · exact (Bool.and_eq_true_iff.mp h).2
  · exact (Bool.and_eq_true_iff.mp (Bool.and_eq_true_iff.mp h).1).1

theorem takeWhile_ne_nil_of_isToken (h : isToken cs = true)
    (hhead : (unsigned cs).head? ≠ some '.') : (unsigned cs).takeWhile (· != '.') ≠ [] := by
  cases hunsigned : unsigned cs with
  | nil =>
    unfold isToken at h
    rw [hunsigned] at h
    cases h
  | cons d ds =>
    rw [hunsigned] at hhead
    have hd : d ≠ '.' := fun hd => hhead (congrArg some hd)
    simp [hd]

theorem fraction_of_isToken (h : isToken cs = true) :
    (unsigned cs).dropWhile (· != '.') = [] ∨ ∃ places,
      (unsigned cs).dropWhile (· != '.') = '.' :: places ∧ places ≠ [] ∧
        areDigits places = true := by
  cases hfraction : (unsigned cs).dropWhile (· != '.') with
  | nil => exact Or.inl rfl
  | cons c places =>
    have hc : c = '.' := by
      have hfirst := List.head_dropWhile_not (· != '.') (l := unsigned cs) (by simp [hfraction])
      simpa [hfraction] using hfirst
    unfold isToken at h
    simp only [hfraction, Bool.and_eq_true] at h
    exact Or.inr ⟨places, by rw [hc], by simpa using h.1.2, h.2⟩

/-- A canonical numeral is a numeral token with a digit before its point. -/
theorem isCanonical_iff :
    IsCanonical cs ↔ isToken cs = true ∧ (unsigned cs).head? ≠ some '.' := by
  constructor
  · intro h
    refine ⟨isToken_of_isCanonical h, ?_⟩
    rcases h.head with ⟨d, ds, rfl, hd⟩ | ⟨d, ds, rfl, hd⟩
    · rw [unsigned_of_isDigit hd]
      rintro ⟨⟩
      cases hd
    · rintro ⟨⟩
      cases hd
  · rintro ⟨htoken, hhead⟩
    obtain ⟨sign, hcs, hsign⟩ := exists_sign cs
    have hsplit := @List.takeWhile_append_dropWhile _ (· != '.') (unsigned cs)
    exact ⟨sign, _, _, by rw [hsplit]; exact hcs, hsign,
      ⟨takeWhile_ne_nil_of_isToken htoken hhead, areDigits_of_isToken htoken⟩,
      fraction_of_isToken htoken⟩

/-- A numeral token becomes canonical when it gets the zero that may be missing. -/
theorem isCanonical_normalize (h : isToken cs = true) : IsCanonical (normalize cs) := by
  have hpoint : ∀ places, (unsigned cs).dropWhile (· != '.') = '.' :: places →
      places ≠ [] ∧ areDigits places = true := by
    intro places hplaces
    rcases fraction_of_isToken h with hnil | ⟨ds, hds, hne, hdigits⟩
    · rw [hnil] at hplaces
      cases hplaces
    · rw [hds] at hplaces
      cases hplaces
      exact ⟨hne, hdigits⟩
  unfold normalize
  split
  · next places =>
    have hplaces := hpoint places (by simp [unsigned])
    exact ⟨['-'], ['0'], '.' :: places, rfl, Or.inr rfl, ⟨by simp, by decide⟩,
      Or.inr ⟨places, rfl, hplaces⟩⟩
  · next places =>
    have hplaces := hpoint places (by simp [unsigned])
    exact ⟨[], ['0'], '.' :: places, rfl, Or.inl rfl, ⟨by simp, by decide⟩,
      Or.inr ⟨places, rfl, hplaces⟩⟩
  · next hminus hbare =>
    refine isCanonical_iff.mpr ⟨h, fun hhead => ?_⟩
    obtain ⟨places, hunsigned⟩ := List.head?_eq_some_iff.mp hhead
    unfold unsigned at hunsigned
    split at hunsigned
    · exact hminus places (by rw [hunsigned])
    · exact hbare places hunsigned

end Numeral

instance (cs : List Char) : Decidable (Numeral.IsCanonical cs) :=
  decidable_of_iff _ Numeral.isCanonical_iff.symm

end RailsSchema
