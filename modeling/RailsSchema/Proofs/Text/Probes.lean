import RailsSchema.Proofs.Literal.Scalars

/-!
# Where a keyword search finds nothing

Statements, and the words that open and close a block, are all found in the same way: at every
place of a text the scanner asks whether a certain word stands there, whether the character before
it lets the word begin there, and whether what follows it goes on in the right way. A `Probe` is
such a question, and `Probe.Silent p before cs rest` says that it is answered with no at every
place of `cs`, where `before` is the character in front of `cs` and `rest` the text behind it.

* `Probe.silent_append`: silence of a text is silence of its parts;
* `Probe.silent_iff`: silence in terms of the places of a text;
* `Probe.silent_of_absent`: a text that does not contain the word is silent;
* `Probe.Regular`: what the probes of schema statements have in common, by which they are silent in
  words, marks and numerals (`Probe.silent_word`, `Probe.silent_marks`, `Probe.silent_numeral`).
-/

namespace RailsSchema.Text

/-- The last character of a text, or the one before it if the text is empty. -/
def lastOf (before : Option Char) (cs : List Char) : Option Char :=
  cs.foldl (fun _ c => some c) before

@[simp] theorem lastOf_nil (before : Option Char) : lastOf before [] = before := rfl

@[simp] theorem lastOf_cons (before : Option Char) (c : Char) (cs : List Char) :
    lastOf before (c :: cs) = lastOf (some c) cs := rfl

@[simp] theorem lastOf_append (before : Option Char) (cs ds : List Char) :
    lastOf before (cs ++ ds) = lastOf (lastOf before cs) ds := List.foldl_append ..

/-- A text that is not empty ends in one of its characters. -/
theorem exists_lastOf {cs : List Char} (h : cs ≠ []) (before : Option Char) :
    ∃ c ∈ cs, lastOf before cs = some c := by
  induction cs generalizing before with
  | nil => exact absurd rfl h
  | cons c cs ih =>
    cases cs with
    | nil => exact ⟨c, List.mem_singleton_self c, rfl⟩
    | cons d cs =>
      obtain ⟨e, he, hlast⟩ := ih (List.cons_ne_nil d cs) (some c)
      exact ⟨e, List.mem_cons_of_mem c he, hlast⟩

/-- A question asked at every place of a text. -/
structure Probe where
  /-- The word looked for. -/
  word : List Char
  /-- Whether the word can begin after a character. -/
  opens : Option Char → Bool
  /-- Whether the text behind the word goes on in the right way. -/
  accepts : List Char → Bool

namespace Probe

/-- Whether the question is answered with yes at the front of a text. -/
def fires (p : Probe) (before : Option Char) (cs : List Char) : Bool :=
  p.opens before && ((after? p.word cs).map p.accepts).getD false

/-- Whether the question is answered with no at every place of a text. -/
def Silent (p : Probe) : (before : Option Char) → (cs rest : List Char) → Prop
  | _, [], _ => True
  | before, c :: cs, rest => p.fires before (c :: (cs ++ rest)) = false ∧ p.Silent (some c) cs rest

variable {p : Probe}

theorem fires_iff {before : Option Char} {cs : List Char} :
    p.fires before cs = true ↔
      p.opens before = true ∧ ∃ rest, cs = p.word ++ rest ∧ p.accepts rest = true := by
  simp only [fires, Bool.and_eq_true, and_congr_right_iff]
  intro _
  cases h : after? p.word cs with
  | none =>
    refine ⟨fun hf => absurd hf (by simp), ?_⟩
    rintro ⟨rest, hcs, -⟩
    rw [after?_eq_some_iff.mpr hcs] at h
    cases h
  | some found =>
    simp only [Option.map_some, Option.getD_some]
    refine ⟨fun hf => ⟨found, after?_eq_some_iff.mp h, hf⟩, ?_⟩
    rintro ⟨rest, hcs, hrest⟩
    rw [after?_eq_some_iff.mpr hcs] at h
    cases h
    exact hrest

/-- Silence of a text is silence of its parts. -/
theorem silent_append {before : Option Char} {cs ds rest : List Char} :
    p.Silent before (cs ++ ds) rest ↔
      p.Silent before cs (ds ++ rest) ∧ p.Silent (lastOf before cs) ds rest := by
  induction cs generalizing before with
  | nil => simp [Silent]
  | cons c cs ih => simp only [List.cons_append, Silent, ih, List.append_assoc, lastOf_cons, and_assoc]

/-- Silence in terms of the places of a text. -/
theorem silent_iff {before : Option Char} {cs rest : List Char} :
    p.Silent before cs rest ↔
      ∀ front c back, cs = front ++ c :: back →
        p.fires (lastOf before front) (c :: (back ++ rest)) = false := by
  induction cs generalizing before with
  | nil => simp [Silent]
  | cons c cs ih =>
    simp only [Silent, ih]
    constructor
    · rintro ⟨hfirst, hothers⟩ front d back hcs
      cases front with
      | nil => cases hcs; exact hfirst
      | cons e front => cases hcs; exact hothers front d back rfl
    · intro h
      exact ⟨h [] c cs rfl, fun front d back hcs => h (c :: front) d back (by rw [hcs]; rfl)⟩

/-- A text is silent if the probe accepts nothing behind the word inside the text, provided that
the word cannot run over the end of the text. -/
theorem silent_of_forall {cs : List Char} {d : Char} (hd : d ∉ p.word)
    {before : Option Char} {rest : List Char}
    (h : ∀ front back, cs = front ++ (p.word ++ back) → p.opens (lastOf before front) = true →
      p.accepts (back ++ d :: rest) = false) : p.Silent before cs (d :: rest) := by
  rw [silent_iff]
  intro front c back hcs
  rw [Bool.eq_false_iff]
  intro hfires
  obtain ⟨hopens, more, hmore, haccepts⟩ := fires_iff.mp hfires
  rw [← List.cons_append] at hmore
  obtain ⟨extra, hextra, rfl⟩ : ∃ extra, c :: back = p.word ++ extra ∧
      more = extra ++ d :: rest := by
    rcases List.append_eq_append_iff.mp hmore with ⟨extra, hword, hextra⟩ | ⟨extra, hback, hextra⟩
    · cases extra with
      | nil => exact ⟨[], by simpa using hword.symm, by simpa using hextra.symm⟩
      | cons e extra =>
        cases hextra
        exact absurd (by simp [hword]) hd
    · exact ⟨extra, hback, hextra⟩
  rw [h front extra (by rw [hcs, hextra]) hopens] at haccepts
  cases haccepts

/-- A text that does not contain the word is silent, if the word cannot run over its end. -/
theorem silent_of_absent {cs : List Char} (h : ¬ p.word <:+: cs) {d : Char}
    (hd : d ∉ p.word) (before : Option Char) (rest : List Char) :
    p.Silent before cs (d :: rest) := by
  refine silent_of_forall hd fun front back hcs _ => absurd ⟨front, back, ?_⟩ h
  rw [hcs, List.append_assoc]

/-- A character with which the word does not begin is silent. -/
theorem fires_of_head {c : Char} (h : p.word.head? ≠ some c) (hne : p.word ≠ [])
    (before : Option Char) (cs : List Char) : p.fires before (c :: cs) = false := by
  rw [Bool.eq_false_iff]
  intro hfires
  obtain ⟨-, rest, hcs, -⟩ := fires_iff.mp hfires
  cases hword : p.word with
  | nil => exact hne hword
  | cons d ds =>
    rw [hword] at h hcs
    cases hcs
    exact h rfl

theorem silent_of_heads {cs : List Char} (h : ∀ c ∈ cs, p.word.head? ≠ some c)
    (hne : p.word ≠ []) (before : Option Char) (rest : List Char) : p.Silent before cs rest := by
  induction cs generalizing before with
  | nil => trivial
  | cons c cs ih =>
    exact ⟨fires_of_head (h c List.mem_cons_self) hne before _,
      ih (fun d hd => h d (List.mem_cons_of_mem c hd)) (some c)⟩

end Probe

/-! ## Regular probes -/

/-- Whether a character begins what a statement goes on with behind its keyword. -/
def isOpener (c : Char) : Bool := c == '"' || c == '[' || c == '|'

/-- Whether a text can follow an option: it continues no word and, behind white space, begins
nothing that a statement goes on with. -/
def Follows (rest : List Char) : Prop :=
  Stops (fun c => isWordChar c || c == '.') rest ∧ Stops isOpener (trimStart rest)

theorem follows_of_blank {b : Char} {blanks cs : List Char} (hb : isBlank b = true)
    (hblanks : ∀ c ∈ blanks, isBlank c = true) (hblank : Stops isBlank cs)
    (hopener : Stops isOpener cs) : Follows (b :: (blanks ++ cs)) := by
  have hword : isWordChar b = false := by
    rw [Bool.eq_false_iff]
    intro h
    rw [isBlank_eq_false_of_isWordChar h] at hb
    cases hb
  have hpoint : b ≠ '.' := ne_of_class hb (by decide)
  have htrim : trimStart (b :: blanks ++ cs) = cs :=
    trimStart_append (List.forall_mem_cons.mpr ⟨hb, hblanks⟩) hblank
  refine ⟨stops_cons.mpr (by simp [hword, hpoint]), ?_⟩
  rw [← List.cons_append, htrim]
  exact hopener

/-- The words that the strings and callables of plain schemas do not contain. -/
def barredWords : List String := ["end", "do", "t.", "create_table", "add_foreign_key"]

/-- What the probes of schema statements have in common. -/
structure Probe.Regular (p : Probe) : Prop where
  /-- The word begins with a letter. -/
  head : ∃ c cs, p.word = c :: cs ∧ isWordChar c = true ∧ c.isDigit = false
  /-- The word is a word, or it has a point behind its first character. -/
  word : (∀ c ∈ p.word, isWordChar c = true) ∨ ∃ c cs, p.word = c :: '.' :: cs
  /-- The word runs over no closing quote and no closing brace. -/
  closing : '"' ∉ p.word ∧ '\x7d' ∉ p.word
  /-- What can begin inside a word can begin behind a colon. -/
  opens : ∀ c, isWordChar c = true → p.opens (some c) = true → p.opens (some ':') = true
  /-- No mark goes on a statement directly behind its word. -/
  accepts_mark : (∀ c ∈ p.word, isWordChar c = true) → ∀ c cs, isBlank c = false → c ≠ '|' →
    p.accepts (c :: cs) = false
  /-- What follows an option does not go on a statement that begins with a symbol. -/
  accepts_rest : p.opens (some ':') = true → ∀ rest, Follows rest → p.accepts rest = false
  /-- The word is no part of a keyword. -/
  keyword : ∀ word : Keyword, ¬ p.word <:+: word.word.toList
  /-- The word contains a barred word. -/
  barred : ∃ barred ∈ barredWords, barred.toList <:+: p.word

namespace Probe

variable {p : Probe}

theorem Regular.ne_nil (hp : p.Regular) : p.word ≠ [] := by
  obtain ⟨c, cs, hword, -⟩ := hp.head
  simp [hword]

theorem Regular.head_ne (hp : p.Regular) {c : Char} (hc : isWordChar c = false ∨ c.isDigit = true) :
    p.word.head? ≠ some c := by
  obtain ⟨d, ds, hword, hd, hdigit⟩ := hp.head
  rw [hword]
  intro h
  cases h
  rcases hc with hc | hc
  · rw [hd] at hc; cases hc
  · rw [hdigit] at hc; cases hc

/-- Characters that are no word characters are silent. -/
theorem silent_marks (hp : p.Regular) {cs : List Char} (h : ∀ c ∈ cs, isWordChar c = false)
    (before : Option Char) (rest : List Char) : p.Silent before cs rest :=
  silent_of_heads (fun c hc => hp.head_ne (Or.inl (h c hc))) hp.ne_nil before rest

theorem silent_numeral (hp : p.Regular) {cs : List Char} (h : Numeral.IsCanonical cs)
    (before : Option Char) (rest : List Char) : p.Silent before cs rest := by
  refine silent_of_heads (fun c hc => hp.head_ne ?_) hp.ne_nil before rest
  rcases h.mem hc with hd | rfl | rfl
  · exact Or.inr hd
  · exact Or.inl (by decide)
  · exact Or.inl (by decide)

/-- A word is silent if the probe would not accept what follows it. -/
theorem silent_word (hp : p.Regular) {word : List Char} (hword : ∀ c ∈ word, isWordChar c = true)
    {before : Option Char} {rest : List Char}
    (hrest : Stops (fun c => isWordChar c || c == '.') rest)
    (hend : ∀ front, word = front ++ p.word → p.opens (lastOf before front) = true →
      p.accepts rest = false) : p.Silent before word rest := by
  have hstop : Stops isWordChar rest := by
    intro c hc
    have h := hrest c hc
    simp only [Bool.or_eq_false_iff] at h
    exact h.1
  rw [silent_iff]
  intro front c back hcs
  rw [Bool.eq_false_iff]
  intro hfires
  obtain ⟨hopens, more, hmore, haccepts⟩ := fires_iff.mp hfires
  have hback : ∀ d ∈ c :: back, isWordChar d = true := by
    intro d hd
    exact hword d (by rw [hcs]; exact List.mem_append_right front hd)
  rcases hp.word with hall | ⟨d, ds, hdot⟩
  · rw [← List.cons_append] at hmore
    obtain ⟨extra, hextra, rfl⟩ := exists_of_append_eq hall hstop hmore
    cases extra with
    | nil =>
      rw [List.append_nil] at hextra
      rw [List.nil_append, hend front (by rw [hcs, hextra]) hopens] at haccepts
      cases haccepts
    | cons e extra =>
      have he : isWordChar e = true := hback e (by rw [hextra]; simp)
      rw [List.cons_append, hp.accepts_mark hall e _ (isBlank_eq_false_of_isWordChar he)
        (ne_of_class he (by decide))] at haccepts
      cases haccepts
  · -- the point behind the first character is neither in the word nor right behind it
    rw [hdot] at hmore
    cases back with
    | nil =>
      cases rest with
      | nil => cases hmore
      | cons e rest =>
        cases hmore
        simp at hrest
    | cons e back =>
      simp only [List.cons_append, List.cons.injEq] at hmore
      obtain ⟨-, rfl, -⟩ := hmore
      exact absurd (hback '.' (by simp)) (by decide)

end Probe

end RailsSchema.Text
