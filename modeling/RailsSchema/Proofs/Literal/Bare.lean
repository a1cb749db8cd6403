import RailsSchema.Proofs.Literal.Truncation
import RailsSchema.Proofs.Value.Rational

/-!
# Bare tokens

Where a text begins with no quote, no bracket and no arrow, a run of token characters is read, with
or without a colon in front. What it is depends on the run and on the colon alone.

* `Literal.read?_of_beginsBare`: the run is what is read;
* `Literal.ofToken_of_isNumeral`, `Literal.ofToken_of_eq_word`, `Literal.ofToken_of_name`: what it
  spells;
* `parseValue_bare`: numerals are recognized and stored exactly.
-/

namespace RailsSchema

open Text

namespace Literal

/-! ## What a token spells -/

theorem ofWord?_of_isToken {token : List Char} (h : Numeral.isToken token = true) :
    Keyword.ofWord? (String.ofList token) = none := by
  refine Option.eq_none_iff_forall_ne_some.mpr fun word hword => ?_
  have hwords : Numeral.isToken word.word.toList = false := by cases word <;> decide
  rw [← eq_word_of_ofWord? hword, String.toList_ofList, h] at hwords
  cases hwords

theorem ofToken_of_isNumeral {token : List Char} (h : Numeral.IsNumeral token) :
    ofToken false token = .numeric (String.ofList (Numeral.normalize token)) := by
  have htoken := Numeral.isToken_of_isNumeral h
  unfold ofToken
  rw [ofWord?_of_isToken htoken, htoken]
  rfl

theorem ofToken_word (marked : Bool) (word : Keyword) :
    ofToken marked word.word.toList = .keyword word := by
  unfold ofToken
  rw [String.ofList_toList, ofWord?_word]

/-- A token that is neither a keyword nor a numeral is a name. -/
theorem ofToken_of_name {marked : Bool} {token : List Char}
    (hword : ∀ word : Keyword, token ≠ word.word.toList)
    (hnumeral : ¬ (marked = false ∧ Numeral.IsNumeral token)) :
    ofToken marked token = .symbol (String.ofList token) := by
  have hnone : Keyword.ofWord? (String.ofList token) = none := by
    refine Option.eq_none_iff_forall_ne_some.mpr fun word h => hword word ?_
    rw [← eq_word_of_ofWord? h, String.toList_ofList]
  have hscan : (!marked && Numeral.isToken token) = false := by
    rw [← Numeral.isToken_iff] at hnumeral
    simpa using hnumeral
  unfold ofToken
  rw [hnone, hscan]
  rfl

/-- The value of a token is a numeral if and only if the token is one and has no colon in front. -/
theorem value_ofToken_eq_numeric_iff {marked : Bool} {token : List Char} {filter : ArrayFilter}
    {stored : String} : (ofToken marked token).value filter = .numeric stored ↔
      (marked = false ∧ Numeral.IsNumeral token) ∧
        stored = String.ofList (Numeral.normalize token) := by
  by_cases hnumeral : marked = false ∧ Numeral.IsNumeral token
  · obtain ⟨rfl, htoken⟩ := hnumeral
    rw [ofToken_of_isNumeral htoken]
    simp [value, htoken, eq_comm]
  · refine iff_of_false (fun h => ?_) fun h => hnumeral h.1
    by_cases hword : ∃ word : Keyword, token = word.word.toList
    · obtain ⟨word, rfl⟩ := hword
      rw [ofToken_word] at h
      cases h
    · rw [ofToken_of_name (not_exists.mp hword) hnumeral] at h
      cases h

/-! ## Where a bare token is read -/

/-- Whether a text begins, behind white space, with no quote, no bracket and no arrow. -/
structure BeginsBare (cs : List Char) : Prop where
  quote : ∀ c ∈ (trimStart cs).head?, isQuote c = false
  bracket : ∀ b : Bracket, (trimStart cs).head? ≠ some b.opening
  arrow : ¬ ['-', '>'] <+: trimStart cs

/-- Whether a text begins with a colon, behind white space. -/
def isMarked (cs : List Char) : Bool := (trimStart cs).head? == some ':'

/-- What follows an optional colon. -/
def afterColon : List Char → List Char
  | ':' :: cs => cs
  | cs => cs

/-- The run of token characters at the beginning of a text, behind white space and an optional
colon. -/
def bareRun (cs : List Char) : List Char := (afterColon (trimStart cs)).takeWhile isTokenChar

/-- What follows that run. -/
def afterBareRun (cs : List Char) : List Char := (afterColon (trimStart cs)).dropWhile isTokenChar

theorem token?_eq (marked : Bool) (cs : List Char) :
    token? marked cs = if cs.takeWhile isTokenChar = [] then none
      else some (ofToken marked (cs.takeWhile isTokenChar), cs.dropWhile isTokenChar) := by
  unfold token?
  split
  · next h => rw [if_pos h]
  · next h => rw [if_neg h]

theorem bare?_eq (cs : List Char) : bare? cs = token? (cs.head? == some ':') (afterColon cs) := by
  unfold bare?
  split
  · rfl
  · next hcolon =>
    have hafter : afterColon cs = cs := by
      unfold afterColon
      split
      · exact absurd rfl (hcolon _)
      · rfl
    have hunmarked : (cs.head? == some ':') = false := by
      rw [beq_eq_false_iff_ne]
      intro hhead
      obtain ⟨behind, rfl⟩ := List.head?_eq_some_iff.mp hhead
      exact hcolon behind rfl
    rw [hunmarked, hafter]

variable {cs : List Char}

theorem read?_of_beginsBare (h : BeginsBare cs) (room : Nat) :
    read? room cs = if bareRun cs = [] then none
      else some (ofToken (isMarked cs) (bareRun cs), afterBareRun cs) := by
  obtain ⟨hquote, hbracket, harrow⟩ := h
  have hbare : read? room cs = bare? (trimStart cs) := by
    rw [read?_of_not_opening hbracket, read?_zero]
    cases hcs : trimStart cs with
    | nil => rfl
    | cons c behind =>
      rw [hcs] at hquote hbracket harrow
      have hopening : Bracket.ofOpening? c = none := by
        refine Option.eq_none_iff_forall_ne_some.mpr fun b hb => hbracket b ?_
        rw [Bracket.ofOpening?_eq_some_iff.mp hb, List.head?_cons]
      have hc := hquote c rfl
      rw [form?, hopening, Option.isSome_none, if_neg (by decide)]
      unfold scalar?
      split
      · next heq =>
        cases heq
        cases hc
      · next heq =>
        cases heq
        cases hc
      · next heq =>
        cases heq
        exact absurd ⟨_, rfl⟩ harrow
      · rfl
  rw [hbare, bare?_eq, token?_eq]
  rfl

end Literal

/-! ## Texts -/

/-- A canonical numeral that stands alone is read as itself. -/
theorem parseValue_canonical {stored : String} (h : Numeral.IsCanonical stored.toList)
    (settings : Settings) : parseValue settings stored.toList 0 =
      .ok (some (.numeric stored, byteLength stored.toList)) := by
  have hread := Literal.read?_numeric settings.maxDepth h (stops_nil Literal.isTokenChar)
  have hparse := parseValue_append settings [] (stored.toList ++ [])
  rw [hread, List.nil_append, List.append_nil] at hparse
  exact hparse

theorem parseValue_of_beginsBare {text cs : List Char} {start : Nat}
    (hplace : dropBytes start text = .ok cs) (hbare : Literal.BeginsBare cs)
    (settings : Settings) : parseValue settings text start =
      .ok (if Literal.bareRun cs = [] then none
        else some ((Literal.ofToken (Literal.isMarked cs) (Literal.bareRun cs)).value
          settings.arrayFilter, offsetOf text (Literal.afterBareRun cs))) := by
  obtain ⟨front, rfl, rfl⟩ := dropBytes_eq_ok_iff.mp hplace
  rw [parseValue_append, Literal.read?_of_beginsBare hbare]
  split
  · rfl
  · rfl

/-- Where a text begins, behind white space, with no quote, no bracket and no arrow, a numeral is
read if and only if no colon stands in front of the run of token characters there and the run is a
numeral. What is stored is then a canonical numeral, denotes the same number and is read again as
itself. Any other run is read as a keyword if it is one, with or without a colon, and as a symbol
with just this name if it is none; where there is no run, nothing is read. -/
theorem parseValue_bare {text cs : List Char} {start : Nat} (hplace : dropBytes start text = .ok cs)
    (hbare : Literal.BeginsBare cs) (settings : Settings) :
    let run := Literal.bareRun cs
    let stop := offsetOf text (Literal.afterBareRun cs)
    let isNumeral := Literal.isMarked cs = false ∧ Numeral.IsNumeral run
    ((∃ stored stop', parseValue settings text start = .ok (some (.numeric stored, stop'))) ↔
      isNumeral) ∧
    (∀ stored stop', parseValue settings text start = .ok (some (.numeric stored, stop')) →
      stop' = stop ∧ Numeral.IsCanonical stored.toList ∧
      Numeral.toRat stored.toList = Numeral.toRat run ∧
      ∀ settings', parseValue settings' stored.toList 0 =
        .ok (some (.numeric stored, byteLength stored.toList))) ∧
    (∀ word : Keyword, run = word.word.toList →
      parseValue settings text start = .ok (some (.keyword word, stop))) ∧
    (run ≠ [] → ¬ isNumeral → (∀ word : Keyword, run ≠ word.word.toList) →
      parseValue settings text start = .ok (some (.symbol (String.ofList run), stop))) ∧
    (run = [] → parseValue settings text start = .ok none) := by
  intro run stop isNumeral
  have hnone : run = [] → parseValue settings text start = .ok none := by
    intro hrun
    rw [parseValue_of_beginsBare hplace hbare, if_pos hrun]
  have hsome : run ≠ [] → parseValue settings text start =
      .ok (some ((Literal.ofToken (Literal.isMarked cs) run).value settings.arrayFilter, stop)) := by
    intro hrun
    rw [parseValue_of_beginsBare hplace hbare, if_neg hrun]
  have hnumeric : ∀ stored stop', parseValue settings text start =
      .ok (some (.numeric stored, stop')) ↔
        isNumeral ∧ stored = String.ofList (Numeral.normalize run) ∧ stop' = stop := by
    intro stored stop'
    by_cases hrun : run = []
    · rw [hnone hrun]
      refine iff_of_false (fun h => by cases h) fun h => h.1.2.ne_nil hrun
    · rw [hsome hrun, Except.ok.injEq, Option.some.injEq, Prod.mk.injEq,
        Literal.value_ofToken_eq_numeric_iff, and_assoc, eq_comm (a := stop)]
  refine ⟨?_, ?_, ?_, ?_, hnone⟩
  · simp only [hnumeric, exists_and_left, exists_eq, and_true]
  · intro stored stop' hread
    obtain ⟨hnumeral, rfl, rfl⟩ := (hnumeric stored stop').mp hread
    have hcanonical := Numeral.isCanonical_normalize (Numeral.isToken_of_isNumeral hnumeral.2)
    rw [← String.toList_ofList (l := Numeral.normalize run)] at hcanonical
    refine ⟨rfl, hcanonical, ?_, parseValue_canonical hcanonical⟩
    rw [String.toList_ofList]
    exact Numeral.toRat_normalize run
  · intro word hword
    have hne : run ≠ [] := by
      rw [hword]
      cases word <;> decide
    rw [hsome hne, hword, Literal.ofToken_word]
    rfl
  · intro hne hnumeral hword
    rw [hsome hne, Literal.ofToken_of_name hword hnumeral]
    rfl

/-- A negative numeral without a digit before its point, behind four bytes and white space. -/
def pointNumeral : List Char := "né:  -.50, 1".toList

theorem parseValue_bare_point :
    dropBytes 4 pointNumeral = .ok "  -.50, 1".toList ∧ Literal.BeginsBare "  -.50, 1".toList ∧
    parseValue {} pointNumeral 4 = .ok (some (.numeric "-0.50", 10)) ∧
    Numeral.toRat "-0.50".toList = Numeral.toRat "-.50".toList ∧
    parseValue {} "-0.50".toList 0 = .ok (some (.numeric "-0.50", 5)) := by
  have hplace : dropBytes 4 pointNumeral = .ok "  -.50, 1".toList := by decide
  have hhead : (trimStart "  -.50, 1".toList).head? = some '-' := by decide
  have hbare : Literal.BeginsBare "  -.50, 1".toList := by
    refine ⟨?_, ?_, by decide⟩
    · rw [hhead]
      rintro c ⟨⟩
      decide
    · intro b
      rw [hhead]
      cases b <;> decide
  have hread : parseValue {} pointNumeral 4 = .ok (some (.numeric "-0.50", 10)) := by cbv
  obtain ⟨-, -, hvalue, hagain⟩ := (parseValue_bare hplace hbare {}).2.1 _ _ hread
  exact ⟨hplace, hbare, hread, hvalue, hagain {}⟩

end RailsSchema
