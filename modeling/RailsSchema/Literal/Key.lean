import RailsSchema.Text.Scan

/-!
# Keys of option maps

A key is written in one of four forms: a name in double or in single quotes before an arrow, a name
with a colon in front before an arrow, or a name with one colon behind it. White space may stand on
both sides of an arrow and after the colon of the last form.
-/

namespace RailsSchema.Literal

open Text

/-- What follows an arrow and the white space around it. -/
def afterArrow? (cs : List Char) : Option (List Char) :=
  (after? ['=', '>'] (trimStart cs)).map trimStart

/-- A key in quotes, behind its first quote. -/
def quotedKey? (quote : Char) (cs : List Char) : Option (List Char × List Char) := do
  let (key, behind) ← untilQuote? quote cs
  let rest ← afterArrow? behind
  return (key, rest)

/-- A key with a colon in front, behind that colon. -/
def symbolKey? (cs : List Char) : Option (List Char × List Char) :=
  match cs.takeWhile isWordChar with
  | [] => none
  | key => (afterArrow? (cs.dropWhile isWordChar)).map fun rest => (key, rest)

/-- A key with one colon behind it. -/
def labelKey? (cs : List Char) : Option (List Char × List Char) :=
  match cs.takeWhile isWordChar with
  | [] => none
  | key =>
    match cs.dropWhile isWordChar with
    | ':' :: behind => if behind.head? = some ':' then none else some (key, trimStart behind)
    | _ => none

/-- The key at the front of a text, and the text from the start of its value. -/
def key? : List Char → Option (List Char × List Char)
  | '"' :: cs => quotedKey? '"' cs
  | '\'' :: cs => quotedKey? '\'' cs
  | ':' :: cs => symbolKey? cs
  | cs => labelKey? cs

/-! ## What follows -/

theorem isProperEnd_of_afterArrow? {cs rest : List Char} (h : afterArrow? cs = some rest) :
    IsProperEnd rest cs := by
  simp only [afterArrow?, Option.map_eq_some_iff] at h
  obtain ⟨r, hr, rfl⟩ := h
  have hcons : IsProperEnd r (trimStart cs) := by
    rw [after?_eq_some_iff.mp hr]
    exact (IsProperEnd.of_suffix (List.suffix_refl r) _).cons _
  exact .suffix_trans (trimStart_suffix r) (hcons.trans_suffix (trimStart_suffix cs))

theorem isProperEnd_of_quotedKey? {quote : Char} {cs key rest : List Char}
    (h : quotedKey? quote cs = some (key, rest)) : IsProperEnd rest cs := by
  simp only [quotedKey?, Option.bind_eq_bind, Option.bind_eq_some_iff] at h
  obtain ⟨⟨k, behind⟩, hq, r, hr, heq⟩ := h
  cases heq
  exact (isProperEnd_of_afterArrow? hr).trans (isProperEnd_of_untilQuote? hq)

theorem isProperEnd_of_symbolKey? {cs key rest : List Char}
    (h : symbolKey? cs = some (key, rest)) : IsProperEnd rest cs := by
  simp only [symbolKey?] at h
  split at h
  · cases h
  · simp only [Option.map_eq_some_iff] at h
    obtain ⟨r, hr, heq⟩ := h
    cases heq
    exact (isProperEnd_of_afterArrow? hr).trans_suffix (List.dropWhile_suffix _)

theorem isProperEnd_of_labelKey? {cs key rest : List Char}
    (h : labelKey? cs = some (key, rest)) : IsProperEnd rest cs := by
  simp only [labelKey?] at h
  split at h
  · cases h
  · split at h
    · next behind hd =>
      split at h
      · cases h
      · cases h
        have hs : ':' :: behind <:+ cs := hd ▸ List.dropWhile_suffix isWordChar
        exact (IsProperEnd.of_suffix (trimStart_suffix behind) ':').trans_suffix hs
    · cases h

theorem isProperEnd_of_key? {cs key rest : List Char} (h : key? cs = some (key, rest)) :
    IsProperEnd rest cs := by
  unfold key? at h
  split at h
  · exact (isProperEnd_of_quotedKey? h).cons _
  · exact (isProperEnd_of_quotedKey? h).cons _
  · exact (isProperEnd_of_symbolKey? h).cons _
  · exact isProperEnd_of_labelKey? h

end RailsSchema.Literal
