import RailsSchema.Literal.Basic
import RailsSchema.Text.Bracket

/-!
# Literals without items

Quoted texts, callables and bare tokens. A quoted text runs to the next quote of the same kind and
knows no escapes. A callable is an arrow and a group in braces. A bare token is a run of token
characters, with or without a colon in front: a keyword if it spells one, a numeral if it has no
colon and spells one, and a symbol otherwise.
-/

namespace RailsSchema.Literal

open Text

/-- Whether a character can be part of a bare token. -/
def isTokenChar (c : Char) : Bool :=
  !(isBlank c || c == '"' || c == ',' || c == ':' ||
    (Bracket.ofOpening? c).isSome || (Bracket.ofClosing? c).isSome)

/-- The literal that a token spells, `marked` if a colon stands in front of it. -/
def ofToken (marked : Bool) (token : List Char) : Literal :=
  match Keyword.ofWord? (String.ofList token) with
  | some word => .keyword word
  | none =>
    if !marked && Numeral.isToken token then .numeric (String.ofList (Numeral.normalize token))
    else .symbol (String.ofList token)

/-- Reads a token that has no colon in front any more. -/
def token? (marked : Bool) (cs : List Char) : Option (Literal × List Char) :=
  match cs.takeWhile isTokenChar with
  | [] => none
  | token => some (ofToken marked token, cs.dropWhile isTokenChar)

/-- Reads a bare token. -/
def bare? : List Char → Option (Literal × List Char)
  | ':' :: cs => token? true cs
  | cs => token? false cs

/-- Reads the group in braces of a callable, whose source begins with the given characters. -/
def callable? (source cs : List Char) : Option (Literal × List Char) :=
  match group? (trimStart cs) with
  | some ⟨.curly, _, rest⟩ =>
    some (.callable (String.ofList (upTo source rest)), rest)
  | _ => none

/-- Reads a quoted text behind its first quote. -/
def quoted? (quote : Char) (cs : List Char) : Option (Literal × List Char) :=
  (untilQuote? quote cs).map fun found => (.str (String.ofList found.1), found.2)

/-- Reads a literal that is neither a list nor a map. -/
def scalar? : List Char → Option (Literal × List Char)
  | '"' :: cs => quoted? '"' cs
  | '\'' :: cs => quoted? '\'' cs
  | '-' :: '>' :: cs => callable? ('-' :: '>' :: cs) cs
  | cs => bare? cs

/-! ## What follows -/

theorem isProperEnd_of_token? {marked : Bool} {cs rest : List Char} {l : Literal}
    (h : token? marked cs = some (l, rest)) : IsProperEnd rest cs := by
  simp only [token?] at h
  split at h
  · cases h
  · next token hne =>
    cases h
    cases cs with
    | nil => simp at hne
    | cons c cs =>
      by_cases hc : isTokenChar c
      · rw [List.dropWhile_cons_of_pos hc]
        exact .of_suffix (List.dropWhile_suffix _) c
      · simp [hc] at hne

theorem isProperEnd_of_bare? {cs rest : List Char} {l : Literal}
    (h : bare? cs = some (l, rest)) : IsProperEnd rest cs := by
  unfold bare? at h
  split at h
  · exact (isProperEnd_of_token? h).cons _
  · exact isProperEnd_of_token? h

theorem isProperEnd_of_callable? {source cs rest : List Char} {l : Literal}
    (h : callable? source cs = some (l, rest)) : IsProperEnd rest cs := by
  simp only [callable?] at h
  split at h
  · next hg =>
    cases h
    exact (Group.isProperEnd_rest hg).trans_suffix (trimStart_suffix cs)
  · cases h

theorem isProperEnd_of_quoted? {quote : Char} {cs rest : List Char} {l : Literal}
    (h : quoted? quote cs = some (l, rest)) : IsProperEnd rest cs := by
  simp only [quoted?, Option.map_eq_some_iff] at h
  obtain ⟨⟨inner, r⟩, hq, heq⟩ := h
  cases heq
  exact isProperEnd_of_untilQuote? hq

theorem isProperEnd_of_scalar? {cs rest : List Char} {l : Literal}
    (h : scalar? cs = some (l, rest)) : IsProperEnd rest cs := by
  unfold scalar? at h
  split at h
  · exact (isProperEnd_of_quoted? h).cons _
  · exact (isProperEnd_of_quoted? h).cons _
  · exact ((isProperEnd_of_callable? h).cons _).cons _
  · exact isProperEnd_of_bare? h

end RailsSchema.Literal
