import RailsSchema.Literal.Read
import RailsSchema.Proofs.Literal.Keys
import RailsSchema.Proofs.Text.Groups
import RailsSchema.Proofs.Value.Numeral

/-!
# Reading a scalar back

The text of a string, a callable, a numeral, a symbol or a keyword is read as just that, whatever
is in front of it is left out and whatever follows it is left over. Bare tokens need to know that
the text behind them does not go on with a token character; the others do not look at it.

* `token?_append`: a run of token characters is a token;
* `read?_trimStart`, `read?_of_scalar?`, `read?_of_group?`: what stands at the beginning of a text
  decides whether a scalar is read, or a list or a map;
* `read?_str`, `read?_callable`, `read?_numeric`, `read?_symbol`, `read?_keyword`.
-/

namespace RailsSchema

open Text

namespace Literal

/-! ## Tokens -/

theorem token?_append (marked : Bool) {token rest : List Char} (hne : token ≠ [])
    (htoken : ∀ c ∈ token, isTokenChar c = true) (hrest : Stops isTokenChar rest) :
    token? marked (token ++ rest) = some (ofToken marked token, rest) := by
  simp only [token?, takeWhile_append_of_stops htoken hrest,
    dropWhile_append_of_stops htoken hrest]

theorem isTokenChar_of_isCanonical {cs : List Char} (h : Numeral.IsCanonical cs) :
    ∀ c ∈ cs, isTokenChar c = true := by
  intro c hc
  rcases h.mem hc with hd | rfl | rfl
  · exact isTokenChar_of_isWordChar (isWordChar_of_isDigit hd)
  · decide
  · decide

theorem ofWord?_of_head {c : Char} {cs : List Char} (ht : c ≠ 't') (hf : c ≠ 'f')
    (hn : c ≠ 'n') : Keyword.ofWord? (String.ofList (c :: cs)) = none := by
  have hne : ∀ word : String, word.toList.head? ≠ some c → String.ofList (c :: cs) ≠ word := by
    rintro word hhead rfl
    simp at hhead
  unfold Keyword.ofWord?
  rw [if_neg (hne "true" (by simpa using ht.symm)), if_neg (hne "false" (by simpa using hf.symm)),
    if_neg (hne "nil" (by simpa using hn.symm))]

theorem ofToken_of_isCanonical {cs : List Char} (h : Numeral.IsCanonical cs) :
    ofToken false cs = .numeric (String.ofList cs) := by
  have hword : Keyword.ofWord? (String.ofList cs) = none := by
    rcases h.head with ⟨d, ds, rfl, hd⟩ | ⟨d, ds, rfl, hd⟩
    · exact ofWord?_of_head (ne_of_class hd (by decide))
        (ne_of_class hd (by decide)) (ne_of_class hd (by decide))
    · exact ofWord?_of_head (by decide) (by decide) (by decide)
  simp [ofToken, hword, Numeral.isToken_of_isCanonical h, Numeral.normalize_of_isCanonical h]

theorem ofWord?_word (word : Keyword) : Keyword.ofWord? word.word = some word := by
  cases word <;> decide

theorem eq_word_of_ofWord? {text : String} {word : Keyword} (h : Keyword.ofWord? text = some word) :
    text = word.word := by
  unfold Keyword.ofWord? at h
  split at h
  · cases h
    assumption
  split at h
  · cases h
    assumption
  split at h
  · cases h
    assumption
  · cases h

/-! ## Which branch of the reader a text takes -/

theorem scalar?_of_isWordChar {c : Char} (hc : isWordChar c = true) (cs : List Char) :
    scalar? (c :: cs) = token? false (c :: cs) := by
  unfold scalar?
  split
  · next heq => cases heq; exact absurd hc (by decide)
  · next heq => cases heq; exact absurd hc (by decide)
  · next heq => cases heq; exact absurd hc (by decide)
  · unfold bare?
    split
    · next heq => cases heq; exact absurd hc (by decide)
    · rfl

theorem scalar?_minus {d : Char} (hd : d ≠ '>') (cs : List Char) :
    scalar? ('-' :: d :: cs) = token? false ('-' :: d :: cs) := by
  unfold scalar?
  split
  · next heq => cases heq
  · next heq => cases heq
  · next heq => cases heq; exact absurd rfl hd
  · rfl

/-! ## What stands in front -/

/-- White space in front of a literal does not count. -/
theorem read?_trimStart (room : Nat) (cs : List Char) :
    read? room (trimStart cs) = read? room cs := by
  have htrim : trimStart (trimStart cs) = trimStart cs :=
    trimStart_of_stops (stops_dropWhile isBlank cs)
  cases room with
  | zero => rw [read?_zero, read?_zero, htrim]
  | succ room => rw [read?_succ, read?_succ, htrim]

theorem form?_of_opening (inBrackets : List Char → Option (Literal × List Char)) {cs : List Char}
    {b : Bracket} (h : cs.head? = some b.opening) : form? inBrackets cs = inBrackets cs := by
  cases cs with
  | nil => cases h
  | cons c cs =>
    rw [List.head?_cons, Option.some.injEq] at h
    rw [form?, Bracket.ofOpening?_eq_some_iff.mpr h, Option.isSome_some, if_pos rfl]

/-- With some room, a list or a map is read where a bracket is opened. -/
theorem read?_succ_of_opening {cs : List Char} {b : Bracket}
    (h : (trimStart cs).head? = some b.opening) (room : Nat) :
    read? (room + 1) cs = nested? (reader room) (trimStart cs) := by
  rw [read?_succ, form?_of_opening _ h]

/-- With some room, a list or a map is read where a group stands. -/
theorem read?_of_group? {cs : List Char} {group : Group} (h : group? cs = some group)
    (room : Nat) : read? (room + 1) cs = some (ofGroup (reader room) group, group.rest) := by
  have hcs := Group.eq_text_append h
  have htrim : trimStart cs = cs := by
    rw [hcs]
    exact trimStart_of_stops (group.stops_text group.rest)
  have hopening : (trimStart cs).head? = some group.bracket.opening := by
    rw [htrim, hcs]
    rfl
  rw [read?_succ_of_opening hopening, htrim, nested?, h, Option.map_some]

/-- A text that begins with neither white space nor a bracket is read as a scalar. -/
theorem read?_of_scalar? {room : Nat} {c : Char} {cs : List Char} {r : Literal × List Char}
    (hblank : isBlank c = false) (hopen : Bracket.ofOpening? c = none)
    (h : scalar? (c :: cs) = some r) : read? room (c :: cs) = some r := by
  have htrim : trimStart (c :: cs) = c :: cs := trimStart_of_stops (by simpa using hblank)
  cases room with
  | zero => rw [read?_zero, htrim, form?, hopen]; exact h
  | succ room => rw [read?_succ, htrim, form?, hopen]; exact h

theorem ofOpening?_of_isTokenChar {c : Char} (h : isTokenChar c = true) :
    Bracket.ofOpening? c = none := by
  simp only [isTokenChar, Bool.not_eq_true', Bool.or_eq_false_iff, Option.isSome_eq_false_iff,
    Option.isNone_iff_eq_none] at h
  exact h.1.2

theorem isBlank_of_isTokenChar {c : Char} (h : isTokenChar c = true) : isBlank c = false := by
  simp only [isTokenChar, Bool.not_eq_true', Bool.or_eq_false_iff] at h
  exact h.1.1.1.1.1

/-! ## Scalars -/

theorem read?_str (room : Nat) {text : String} (h : '"' ∉ text.toList) (rest : List Char) :
    read? room ('"' :: (text.toList ++ '"' :: rest)) = some (.str text, rest) := by
  refine read?_of_scalar? (by decide) (by decide) ?_
  simp [scalar?, quoted?, untilQuote?_append h]

theorem read?_symbol (room : Nat) {name : String} (h : IsSymbolName name.toList)
    {rest : List Char} (hrest : Stops isTokenChar rest) :
    read? room (':' :: (name.toList ++ rest)) = some (.symbol name, rest) := by
  obtain ⟨hne, hchars, hword⟩ := h
  refine read?_of_scalar? (by decide) (by decide) ?_
  have htoken := token?_append true hne (fun c hc => (hchars c hc).1) hrest
  rw [ofToken, hword] at htoken
  simpa [scalar?, bare?] using htoken

theorem read?_numeric (room : Nat) {text : String} (h : Numeral.IsCanonical text.toList)
    {rest : List Char} (hrest : Stops isTokenChar rest) :
    read? room (text.toList ++ rest) = some (.numeric text, rest) := by
  have hne : text.toList ≠ [] := by
    rcases h.head with ⟨d, ds, heq, -⟩ | ⟨d, ds, heq, -⟩ <;> simp [heq]
  have htoken := token?_append false hne (isTokenChar_of_isCanonical h) hrest
  rw [ofToken_of_isCanonical h, String.ofList_toList] at htoken
  rcases h.head with ⟨d, ds, heq, hd⟩ | ⟨d, ds, heq, hd⟩
  · rw [heq] at htoken ⊢
    have hword := isWordChar_of_isDigit hd
    refine read?_of_scalar? (isBlank_eq_false_of_isWordChar hword)
      (ofOpening?_of_isTokenChar (isTokenChar_of_isWordChar hword)) ?_
    exact (scalar?_of_isWordChar hword _).trans htoken
  · rw [heq] at htoken ⊢
    refine read?_of_scalar? (by decide) (by decide) ?_
    exact (scalar?_minus (ne_of_class hd (by decide)) _).trans htoken

theorem isWordChar_of_mem_word (word : Keyword) : ∀ c ∈ word.word.toList, isWordChar c = true := by
  cases word <;> decide

theorem read?_keyword (room : Nat) (word : Keyword) {rest : List Char}
    (hrest : Stops isTokenChar rest) :
    read? room (word.word.toList ++ rest) = some (.keyword word, rest) := by
  have hchars := isWordChar_of_mem_word word
  have hne : word.word.toList ≠ [] := by cases word <;> decide
  have htoken := token?_append false hne (fun c hc => isTokenChar_of_isWordChar (hchars c hc)) hrest
  rw [ofToken, String.ofList_toList, ofWord?_word] at htoken
  cases hcs : word.word.toList with
  | nil => exact absurd hcs hne
  | cons c cs =>
    have hc : isWordChar c = true := hchars c (hcs ▸ List.mem_cons_self)
    rw [hcs] at htoken
    refine read?_of_scalar? (isBlank_eq_false_of_isWordChar hc)
      (ofOpening?_of_isTokenChar (isTokenChar_of_isWordChar hc)) ?_
    exact (scalar?_of_isWordChar hc _).trans htoken

/-- The body of a callable is a group in braces with nothing behind it. -/
theorem exists_of_isCallable {cs : List Char} (h : IsCallable cs) :
    ∃ blanks body inner, cs = '-' :: '>' :: (blanks ++ body) ∧ (∀ c ∈ blanks, isBlank c = true) ∧
      group? body = some ⟨.curly, inner, []⟩ ∧ Stops isBlank body := by
  obtain ⟨blanks, body, rfl, hblanks, hhead, hend⟩ := h
  obtain ⟨⟨bracket, inner, rest⟩, hgroup, rfl⟩ := exists_group?_of_groupEnd? hend
  have htext := Group.eq_text_append hgroup
  have hbracket : bracket = .curly := by
    rw [htext] at hhead
    cases bracket with
    | square => exact absurd hhead (by simp [Group.text, Bracket.opening])
    | curly => rfl
  subst hbracket
  refine ⟨blanks, body, inner, rfl, hblanks, hgroup, ?_⟩
  rw [htext]
  exact stops_cons.mpr (by decide : isBlank Bracket.curly.opening = false)

theorem read?_callable (room : Nat) {source : String} (h : IsCallable source.toList)
    (rest : List Char) : read? room (source.toList ++ rest) = some (.callable source, rest) := by
  obtain ⟨blanks, body, inner, hsource, hblanks, hgroup, hbody⟩ := exists_of_isCallable h
  have hstop : Stops isBlank (body ++ rest) := by
    cases body with
    | nil => cases hgroup
    | cons c body => exact hbody
  have htrim : trimStart (blanks ++ (body ++ rest)) = body ++ rest :=
    dropWhile_append_of_stops hblanks hstop
  have hread : callable? (source.toList ++ rest) (blanks ++ (body ++ rest))
      = some (.callable source, rest) := by
    simp [callable?, htrim, group?_append hgroup rest]
  rw [hsource, List.cons_append, List.cons_append, List.append_assoc] at hread ⊢
  exact read?_of_scalar? (by decide) (by decide) hread

end Literal

end RailsSchema
