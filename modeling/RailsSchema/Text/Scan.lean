import RailsSchema.Text.Blank

/-!
# Small scanners

Each scanner looks at the front of a text, given as the characters still to come, and answers with
what it took and what is left. None of them looks behind itself, and what is left is always an end
of the text (`IsProperEnd`).
-/

namespace RailsSchema.Text

/-- A text without the white space in front. -/
def trimStart (cs : List Char) : List Char := cs.dropWhile isBlank

/-- A text without the white space at its end. -/
def trimEnd (cs : List Char) : List Char := (cs.reverse.dropWhile isBlank).reverse

/-- A text without the white space around it. -/
def trim (cs : List Char) : List Char := trimEnd (trimStart cs)

/-- The rest of the current line, without its line break. -/
def line (cs : List Char) : List Char := cs.takeWhile (· != '\n')

/-- What follows the given text at the front of another. -/
def after? : (expected : List Char) → List Char → Option (List Char)
  | [], cs => some cs
  | _ :: _, [] => none
  | e :: es, c :: cs => if c = e then after? es cs else none

/-- The part of a text that comes before its end `rest`. -/
def upTo (cs rest : List Char) : List Char := cs.take (cs.length - rest.length)

/-- Skips characters of a class, at least one. -/
def skipSome? (p : Char → Bool) : List Char → Option (List Char)
  | [] => none
  | c :: cs => if p c then some (cs.dropWhile p) else none

/-- The text up to the next `quote`, and what follows that quote. -/
def untilQuote? (quote : Char) (cs : List Char) : Option (List Char × List Char) :=
  match cs.dropWhile (· != quote) with
  | [] => none
  | _ :: rest => some (cs.takeWhile (· != quote), rest)

/-- A name in double quotes on one line, and what follows it. -/
def quotedName? : List Char → Option (List Char × List Char)
  | '"' :: cs =>
    match cs.dropWhile (fun c => c != '"' && c != '\n') with
    | '"' :: rest => some (cs.takeWhile (fun c => c != '"' && c != '\n'), rest)
    | _ => none
  | _ => none

/-- A text without a comma in front, if there is one. -/
def skipComma : List Char → List Char
  | ',' :: cs => cs
  | cs => cs

/-- The options at the end of a statement: the rest of its line is blank or starts with a comma. -/
def trailingOptions? (cs : List Char) : Option (List Char) :=
  match trim (line cs) with
  | [] => some []
  | ',' :: options => some (trim options)
  | _ => none

/-- Takes a bracket off the front of a text and, if it is there, its partner off the end. -/
def stripOuter (opening closing : Char) (cs : List Char) : List Char :=
  match cs with
  | [] => []
  | c :: inner =>
    if c = opening then
      if inner.getLast? = some closing then inner.dropLast else inner
    else cs

/-! ## What the scanners leave

Whatever a scanner leaves is an end of the text that it was given, and a proper one where it takes
something. -/

/-- Whether `rest` is an end of a text and not all of it. -/
def IsProperEnd (rest cs : List Char) : Prop := rest <:+ cs ∧ rest.length < cs.length

namespace IsProperEnd

theorem of_suffix {rest cs : List Char} (h : rest <:+ cs) (c : Char) :
    IsProperEnd rest (c :: cs) :=
  ⟨h.trans (List.suffix_cons c cs), Nat.lt_succ_of_le h.length_le⟩

theorem cons {rest cs : List Char} (h : IsProperEnd rest cs) (c : Char) :
    IsProperEnd rest (c :: cs) := of_suffix h.1 c

theorem trans_suffix {rest mid cs : List Char} (h : IsProperEnd rest mid) (hs : mid <:+ cs) :
    IsProperEnd rest cs :=
  ⟨h.1.trans hs, Nat.lt_of_lt_of_le h.2 hs.length_le⟩

theorem suffix_trans {rest mid cs : List Char} (hs : rest <:+ mid) (h : IsProperEnd mid cs) :
    IsProperEnd rest cs :=
  ⟨hs.trans h.1, Nat.lt_of_le_of_lt hs.length_le h.2⟩

theorem trans {rest mid cs : List Char} (h : IsProperEnd rest mid) (h' : IsProperEnd mid cs) :
    IsProperEnd rest cs := h.trans_suffix h'.1

end IsProperEnd

theorem after?_eq_some_iff {expected cs rest : List Char} :
    after? expected cs = some rest ↔ cs = expected ++ rest := by
  fun_induction after? expected cs with
  | case1 cs => simp [eq_comm]
  | case2 => simp
  | case3 es c cs ih => simp [ih]
  | case4 e es c cs h => simp [h]

@[simp] theorem upTo_append (cs rest : List Char) : upTo (cs ++ rest) rest = cs := by
  simp [upTo]

/-- The part before an end of a text makes up the text together with that end. -/
theorem upTo_append_of_suffix {rest cs : List Char} (h : rest <:+ cs) :
    upTo cs rest ++ rest = cs := by
  obtain ⟨taken, rfl⟩ := h
  rw [upTo_append]

theorem trimStart_suffix (cs : List Char) : trimStart cs <:+ cs := List.dropWhile_suffix isBlank

theorem isProperEnd_of_skipSome? {p : Char → Bool} {cs rest : List Char}
    (h : skipSome? p cs = some rest) : IsProperEnd rest cs := by
  cases cs with
  | nil => simp [skipSome?] at h
  | cons c cs =>
    simp only [skipSome?] at h
    split at h
    · cases h
      exact .of_suffix (List.dropWhile_suffix p) c
    · cases h

/-- The quoted text, its closing quote and the rest make up the text. -/
theorem eq_of_untilQuote? {q : Char} {cs inner rest : List Char}
    (h : untilQuote? q cs = some (inner, rest)) : cs = inner ++ q :: rest := by
  simp only [untilQuote?] at h
  split at h
  · cases h
  · next c r hr =>
    cases h
    have hc : c = q := by
      have := List.head_dropWhile_not (· != q) (l := cs) (by simp [hr])
      simpa [hr] using this
    subst hc
    rw [← hr, List.takeWhile_append_dropWhile]

theorem isProperEnd_of_untilQuote? {q : Char} {cs inner rest : List Char}
    (h : untilQuote? q cs = some (inner, rest)) : IsProperEnd rest cs := by
  rw [eq_of_untilQuote? h]
  exact (IsProperEnd.of_suffix (List.suffix_refl rest) q).trans_suffix
    (List.suffix_append inner (q :: rest))

/-- The name, its quotes and the rest make up the text. -/
theorem eq_of_quotedName? {cs name rest : List Char} (h : quotedName? cs = some (name, rest)) :
    cs = '"' :: (name ++ '"' :: rest) := by
  cases cs with
  | nil => simp [quotedName?] at h
  | cons c cs =>
    simp only [quotedName?] at h
    split at h
    · next cs' heq =>
      split at h
      · next r hr =>
        cases h
        cases heq
        rw [← hr, List.takeWhile_append_dropWhile]
      · cases h
    · cases h

end RailsSchema.Text
