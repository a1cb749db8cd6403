import RailsSchema.Literal.Key
import RailsSchema.Proofs.Value.Written

/-!
# Reading a key back

Each of the four forms of a key is read as that key, whatever follows it, provided that what
follows begins with a character that is no white space. `key?_text` is the statement for all forms.
-/

namespace RailsSchema.Literal

open Text

theorem untilQuote?_append {q : Char} {inner : List Char} (hq : q ∉ inner) (rest : List Char) :
    untilQuote? q (inner ++ q :: rest) = some (inner, rest) := by
  have hinner : ∀ c ∈ inner, (c != q) = true := by
    intro c hc
    simpa using fun h : c = q => hq (h ▸ hc)
  have hstop : Stops (· != q) (q :: rest) := by simp
  simp only [untilQuote?, dropWhile_append_of_stops hinner hstop,
    takeWhile_append_of_stops hinner hstop]

/-- The arrow between a key and its value, with the spaces around it. -/
theorem afterArrow?_append {rest : List Char} (hrest : Stops isBlank rest) :
    afterArrow? (' ' :: '=' :: '>' :: ' ' :: rest) = some rest := by
  have hfront : trimStart (' ' :: '=' :: '>' :: ' ' :: rest) = '=' :: '>' :: ' ' :: rest :=
    trimStart_cons (by decide) (stops_cons.mpr (by decide))
  have hback : trimStart (' ' :: rest) = rest := trimStart_cons (by decide) hrest
  simp only [afterArrow?, hfront, after?, if_true, Option.map_some, hback]

theorem not_mem_of_isWord {cs : List Char} (h : IsWord cs) {d : Char}
    (hd : isWordChar d = false) : d ∉ cs :=
  fun hmem => ne_of_class (h.2 d hmem) hd rfl

theorem quotedKey?_append {q : Char} (hq : isWordChar q = false) {key rest : List Char}
    (hkey : IsWord key) (hrest : Stops isBlank rest) :
    quotedKey? q (key ++ q :: ' ' :: '=' :: '>' :: ' ' :: rest) = some (key, rest) := by
  simp [quotedKey?, untilQuote?_append (not_mem_of_isWord hkey hq), afterArrow?_append hrest]

theorem symbolKey?_append {key rest : List Char} (hkey : IsWord key) (hrest : Stops isBlank rest) :
    symbolKey? (key ++ ' ' :: '=' :: '>' :: ' ' :: rest) = some (key, rest) := by
  have hstop : Stops isWordChar (' ' :: '=' :: '>' :: ' ' :: rest) := by simp; decide
  simp only [symbolKey?, takeWhile_append_of_stops hkey.2 hstop,
    dropWhile_append_of_stops hkey.2 hstop, afterArrow?_append hrest]
  cases key with
  | nil => exact absurd rfl hkey.1
  | cons c key => rfl

theorem labelKey?_append {key rest : List Char} (hkey : IsWord key) (hrest : Stops isBlank rest) :
    labelKey? (key ++ ':' :: ' ' :: rest) = some (key, rest) := by
  have hstop : Stops isWordChar (':' :: ' ' :: rest) := by simp; decide
  have hback : trimStart (' ' :: rest) = rest := trimStart_cons (by decide) hrest
  simp only [labelKey?, takeWhile_append_of_stops hkey.2 hstop,
    dropWhile_append_of_stops hkey.2 hstop]
  cases key with
  | nil => exact absurd rfl hkey.1
  | cons c key => simp [hback]

theorem key?_of_isWordChar {c : Char} (hc : isWordChar c = true) (cs : List Char) :
    key? (c :: cs) = labelKey? (c :: cs) := by
  have h1 : c ≠ '"' := ne_of_class hc (by decide)
  have h2 : c ≠ '\'' := ne_of_class hc (by decide)
  have h3 : c ≠ ':' := ne_of_class hc (by decide)
  unfold key?
  split
  · next heq => cases heq; exact absurd rfl h1
  · next heq => cases heq; exact absurd rfl h2
  · next heq => cases heq; exact absurd rfl h3
  · rfl

/-- A key in any of its forms is read as that key. -/
theorem key?_text (form : KeyForm) {key : String} (hkey : IsWord key.toList) {rest : List Char}
    (hrest : Stops isBlank rest) :
    key? (form.text key ++ rest) = some (key.toList, rest) := by
  cases form with
  | label =>
    have hread := labelKey?_append hkey hrest
    simp only [KeyForm.text, List.append_assoc, List.cons_append, List.nil_append]
    cases hcs : key.toList with
    | nil => exact absurd hcs hkey.1
    | cons c cs =>
      rw [hcs] at hread
      have hc : isWordChar c = true := hkey.2 c (hcs ▸ List.mem_cons_self)
      exact (key?_of_isWordChar hc _).trans hread
  | symbol =>
    simp only [KeyForm.text, List.append_assoc, List.cons_append, List.nil_append]
    exact symbolKey?_append hkey hrest
  | doubleQuoted =>
    simp only [KeyForm.text, List.append_assoc, List.cons_append, List.nil_append]
    exact quotedKey?_append (by decide) hkey hrest
  | singleQuoted =>
    simp only [KeyForm.text, List.append_assoc, List.cons_append, List.nil_append]
    exact quotedKey?_append (by decide) hkey hrest

end RailsSchema.Literal
