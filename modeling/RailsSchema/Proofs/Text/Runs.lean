import RailsSchema.Literal.Scalar
import Mathlib.Data.List.TakeWhile

/-!
# Character classes and runs

How the character classes of schema statements lie to each other, and what a scanner takes when a
run of one class is followed by something else.

* `Ranges.has_eq_false_of_apart`: two tables without a common range have no common character;
* `isBlank_eq_false_of_isWordChar`, `isTokenChar_of_isWordChar`: words have no white space and are
  tokens;
* `Stops p cs`: the text `cs` is empty or begins with a character outside the class `p`;
* `takeWhile_append_of_stops`, `dropWhile_append_of_stops`: a run is taken up to its end;
* `skipSome?_eq_some_iff`, `quotedName?_eq_some_iff`: what the scanners of runs take;
* `exists_trim`, `trim_append`: what is taken off the ends of a text.
-/

namespace RailsSchema.Text

/-! ## Classes -/

/-- That all characters of a text are of one kind is decided on the text, not on all characters
that there are. -/
instance decidableForallMem {p : Char → Prop} [DecidablePred p] (cs : List Char) :
    Decidable (∀ c ∈ cs, p c) := List.decidableBAll p cs

/-- Whether no range of the one table overlaps a range of the other. -/
def Ranges.apart (as bs : Ranges) : Bool :=
  as.all fun a => bs.all fun b => a.2 < b.1 || b.2 < a.1

theorem Ranges.has_eq_false_of_apart {as bs : Ranges} (h : as.apart bs = true) {c : Char}
    (hc : as.has c = true) : bs.has c = false := by
  obtain ⟨a, ha, hlo, hhi⟩ := Ranges.has_iff.mp hc
  rw [Bool.eq_false_iff]
  intro hb
  obtain ⟨b, hb, hlo', hhi'⟩ := Ranges.has_iff.mp hb
  have hab := List.all_eq_true.mp (List.all_eq_true.mp h a ha) b hb
  simp only [Bool.or_eq_true, decide_eq_true_eq] at hab
  omega

/-- The ASCII letters and digits. -/
def asciiWordRanges : Ranges := [(0x30, 0x39), (0x41, 0x5A), (0x61, 0x7A)]

theorem has_asciiWordRanges_of_isAlphanum {c : Char} (h : c.isAlphanum = true) :
    asciiWordRanges.has c = true := by
  have hclass : c.isAlphanum = ((decide (65 ≤ c.val ∧ c.val ≤ 90) ||
      (decide (97 ≤ c.val) && decide (c.val ≤ 122))) ||
        (decide (48 ≤ c.val) && decide (c.val ≤ 57))) := rfl
  simp only [hclass, Bool.or_eq_true, Bool.and_eq_true, decide_eq_true_eq,
    UInt32.le_iff_toNat_le] at h
  change ((65 ≤ c.toNat ∧ c.toNat ≤ 90) ∨ (97 ≤ c.toNat ∧ c.toNat ≤ 122)) ∨
    (48 ≤ c.toNat ∧ c.toNat ≤ 57) at h
  simp only [Ranges.has, asciiWordRanges, List.any_cons, List.any_nil, Bool.or_false,
    Bool.or_eq_true, Bool.and_eq_true, decide_eq_true_eq]
  omega

/-- White space is no letter and no number. -/
theorem isAlphanumeric_eq_false_of_isBlank {c : Char} (h : isBlank c = true) :
    isAlphanumeric c = false := by
  have hascii : c.isAlphanum = false := by
    rw [Bool.eq_false_iff]
    intro hc
    have := Ranges.has_eq_false_of_apart (by decide : blankRanges.apart asciiWordRanges = true) h
    rw [has_asciiWordRanges_of_isAlphanum hc] at this
    cases this
  have halpha : alphabeticRanges.has c = false :=
    Ranges.has_eq_false_of_apart (by decide +kernel : blankRanges.apart _ = true) h
  have hnumber : numberRanges.has c = false :=
    Ranges.has_eq_false_of_apart (by decide +kernel : blankRanges.apart _ = true) h
  simp [isAlphanumeric, hascii, halpha, hnumber]

theorem isBlank_eq_false_of_isWordChar {c : Char} (h : isWordChar c = true) :
    isBlank c = false := by
  rw [Bool.eq_false_iff]
  intro hb
  simp only [isWordChar, isAlphanumeric_eq_false_of_isBlank hb, Bool.false_or, beq_iff_eq] at h
  subst h
  revert hb
  decide

/-- A character of a class is no character outside it. -/
theorem ne_of_class {p : Char → Bool} {c d : Char} (h : p c = true) (hd : p d = false) :
    c ≠ d := by
  rintro rfl
  rw [h] at hd
  cases hd

/-! ## Runs -/

/-- The text is empty or begins with a character outside the class. -/
def Stops (p : Char → Bool) (cs : List Char) : Prop := ∀ c ∈ cs.head?, p c = false

@[simp] theorem stops_nil (p : Char → Bool) : Stops p [] := by simp [Stops]

@[simp] theorem stops_cons {p : Char → Bool} {c : Char} {cs : List Char} :
    Stops p (c :: cs) ↔ p c = false := by simp [Stops]

theorem takeWhile_append_of_stops {p : Char → Bool} {run cs : List Char}
    (hrun : ∀ c ∈ run, p c = true) (hcs : Stops p cs) : (run ++ cs).takeWhile p = run := by
  rw [List.takeWhile_append_of_pos hrun]
  cases cs with
  | nil => simp
  | cons c cs => rw [List.takeWhile_cons_of_neg (by simpa using hcs), List.append_nil]

theorem dropWhile_append_of_stops {p : Char → Bool} {run cs : List Char}
    (hrun : ∀ c ∈ run, p c = true) (hcs : Stops p cs) : (run ++ cs).dropWhile p = cs := by
  rw [List.dropWhile_append_of_pos hrun]
  cases cs with
  | nil => rfl
  | cons c cs => rw [List.dropWhile_cons_of_neg (by simpa using hcs)]

/-- A character outside a class ends every run of the class. -/
theorem dropWhile_append_cons {p : Char → Bool} {d : Char} (hd : p d = false)
    (cs rest : List Char) : (cs ++ d :: rest).dropWhile p = cs.dropWhile p ++ d :: rest := by
  induction cs with
  | nil => exact List.dropWhile_cons_of_neg (by simp [hd])
  | cons c cs ih =>
    rw [List.cons_append, List.dropWhile_cons, List.dropWhile_cons]
    split_ifs
    · exact ih
    · rfl

theorem takeWhile_append_cons {p : Char → Bool} {d : Char} (hd : p d = false)
    (cs rest : List Char) : (cs ++ d :: rest).takeWhile p = cs.takeWhile p := by
  induction cs with
  | nil => exact List.takeWhile_cons_of_neg (by simp [hd])
  | cons c cs ih =>
    rw [List.cons_append, List.takeWhile_cons, List.takeWhile_cons]
    split_ifs
    · rw [ih]
    · rfl

/-- A beginning that consists of characters of a class lies inside the run of that class. -/
theorem exists_of_append_eq {p : Char → Bool} {run rest front back : List Char}
    (hfront : ∀ c ∈ front, p c = true) (hrest : Stops p rest) (h : run ++ rest = front ++ back) :
    ∃ more, run = front ++ more ∧ back = more ++ rest := by
  rcases List.append_eq_append_iff.mp h with ⟨extra, hf, hr⟩ | ⟨more, hrun, hback⟩
  · cases extra with
    | nil => exact ⟨[], by simpa using hf.symm, by simpa using hr.symm⟩
    | cons c extra =>
      have hc : p c = true := hfront c (by simp [hf])
      rw [hr, List.cons_append, stops_cons, hc] at hrest
      cases hrest
  · exact ⟨more, hrun, hback⟩

/-- A run and what follows it can be told from each other. -/
theorem eq_of_run_append {p : Char → Bool} {run run' cs cs' : List Char}
    (hrun : ∀ c ∈ run, p c = true) (hrun' : ∀ c ∈ run', p c = true) (hcs : Stops p cs)
    (hcs' : Stops p cs') (h : run ++ cs = run' ++ cs') : run = run' ∧ cs = cs' := by
  have htake := congrArg (List.takeWhile p) h
  rw [takeWhile_append_of_stops hrun hcs, takeWhile_append_of_stops hrun' hcs'] at htake
  rw [htake] at h
  exact ⟨htake, List.append_cancel_left h⟩

/-- What follows a run begins with no character of the class. -/
theorem stops_dropWhile (p : Char → Bool) (cs : List Char) : Stops p (cs.dropWhile p) := by
  intro c hc
  have hnot := List.head?_dropWhile_not p cs
  rw [Option.mem_def.mp hc] at hnot
  simpa using hnot

/-- A text that does not begin with a character of the class keeps all of itself. -/
theorem dropWhile_of_stops {p : Char → Bool} {cs : List Char} (hcs : Stops p cs) :
    cs.dropWhile p = cs := by
  have h := @dropWhile_append_of_stops p [] cs (by simp) hcs
  exact h

/-- What is taken is a run of the class, not empty, with something else behind it. -/
theorem skipSome?_eq_some_iff {p : Char → Bool} {cs rest : List Char} :
    skipSome? p cs = some rest ↔
      ∃ run, cs = run ++ rest ∧ run ≠ [] ∧ (∀ c ∈ run, p c = true) ∧ Stops p rest := by
  constructor
  · intro h
    cases cs with
    | nil => cases h
    | cons c cs =>
      simp only [skipSome?] at h
      split at h
      · next hc =>
        cases h
        refine ⟨c :: cs.takeWhile p, ?_, List.cons_ne_nil _ _, ?_, ?_⟩
        · rw [List.cons_append, List.takeWhile_append_dropWhile]
        · exact List.forall_mem_cons.mpr ⟨hc, fun d hd => List.mem_takeWhile_imp hd⟩
        · exact stops_dropWhile p cs
      · cases h
  · rintro ⟨run, rfl, hne, hrun, hrest⟩
    cases run with
    | nil => exact absurd rfl hne
    | cons c run =>
      obtain ⟨hc, hrun⟩ := List.forall_mem_cons.mp hrun
      rw [List.cons_append, skipSome?, if_pos hc, dropWhile_append_of_stops hrun hrest]

/-- A name has no quote and no line break in it. -/
theorem quotedName?_eq_some_iff {cs name rest : List Char} :
    quotedName? cs = some (name, rest) ↔
      cs = '"' :: (name ++ '"' :: rest) ∧ ∀ c ∈ name, c ≠ '"' ∧ c ≠ '\n' := by
  constructor
  · intro h
    refine ⟨eq_of_quotedName? h, fun c hc => ?_⟩
    unfold quotedName? at h
    split at h
    · split at h
      · cases h
        simpa using List.mem_takeWhile_imp hc
      · cases h
    · cases h
  · rintro ⟨rfl, hname⟩
    have hplain : ∀ c ∈ name, (c != '"' && c != '\n') = true := by simpa using hname
    have hstop : Stops (fun c => c != '"' && c != '\n') ('"' :: rest) := stops_cons.mpr (by decide)
    rw [quotedName?, dropWhile_append_of_stops hplain hstop, takeWhile_append_of_stops hplain hstop]
    rfl

theorem trimStart_of_stops {cs : List Char} (hcs : Stops isBlank cs) : trimStart cs = cs :=
  dropWhile_of_stops hcs

theorem trimStart_append {blanks cs : List Char} (hblanks : ∀ c ∈ blanks, isBlank c = true)
    (hcs : Stops isBlank cs) : trimStart (blanks ++ cs) = cs :=
  dropWhile_append_of_stops hblanks hcs

theorem trimStart_cons {c : Char} {cs : List Char} (hc : isBlank c = true)
    (hcs : Stops isBlank cs) : trimStart (c :: cs) = cs :=
  @trimStart_append [c] cs (by simpa using hc) hcs

/-! ## Ends -/

/-- The text is not empty and its last character is no white space. -/
def EndsSolid (cs : List Char) : Prop := ∃ front c, cs = front ++ [c] ∧ isBlank c = false

theorem EndsSolid.append {ds : List Char} (h : EndsSolid ds) (cs : List Char) :
    EndsSolid (cs ++ ds) := by
  obtain ⟨front, c, rfl, hc⟩ := h
  exact ⟨cs ++ front, c, by simp, hc⟩

theorem EndsSolid.of_forall {cs : List Char} (hne : cs ≠ [])
    (h : ∀ c ∈ cs, isBlank c = false) : EndsSolid cs :=
  ⟨cs.dropLast, cs.getLast hne, (List.dropLast_concat_getLast hne).symm,
    h _ (List.getLast_mem hne)⟩

theorem EndsSolid.intercalate {sep : List Char} {parts : List (List Char)} (hne : parts ≠ [])
    (h : ∀ part ∈ parts, EndsSolid part) : EndsSolid (sep.intercalate parts) := by
  induction parts with
  | nil => exact absurd rfl hne
  | cons part parts ih =>
    cases parts with
    | nil =>
      rw [List.intercalate_singleton]
      exact h part List.mem_cons_self
    | cons next parts =>
      rw [List.intercalate_cons_cons]
      exact (ih (List.cons_ne_nil _ _) fun p hp => h p (List.mem_cons_of_mem part hp)).append _

/-- White space is taken off the end of a text, all of it. -/
theorem exists_trimEnd (cs : List Char) :
    ∃ blanks, cs = trimEnd cs ++ blanks ∧ (∀ c ∈ blanks, isBlank c = true) ∧
      ∀ c ∈ (trimEnd cs).getLast?, isBlank c = false := by
  refine ⟨(cs.reverse.takeWhile isBlank).reverse, ?_, ?_, ?_⟩
  · rw [trimEnd, ← List.reverse_append, List.takeWhile_append_dropWhile, List.reverse_reverse]
  · intro c hc
    exact List.mem_takeWhile_imp (List.mem_reverse.mp hc)
  · intro c hc
    rw [trimEnd, List.getLast?_reverse] at hc
    exact stops_dropWhile isBlank cs.reverse c hc

theorem trimEnd_append {cs blanks : List Char} (hcs : EndsSolid cs)
    (hblanks : ∀ c ∈ blanks, isBlank c = true) : trimEnd (cs ++ blanks) = cs := by
  obtain ⟨front, c, rfl, hc⟩ := hcs
  have hrev : ∀ d ∈ blanks.reverse, isBlank d = true := by
    intro d hd
    exact hblanks d (List.mem_reverse.mp hd)
  have hstop : Stops isBlank (front ++ [c]).reverse := by
    rw [List.reverse_append]
    exact stops_cons.mpr hc
  rw [trimEnd, List.reverse_append, dropWhile_append_of_stops hrev hstop, List.reverse_reverse]

/-- What is left of a text between white space. -/
theorem trim_append {front cs back : List Char} (hfront : ∀ c ∈ front, isBlank c = true)
    (hstart : Stops isBlank cs) (hend : EndsSolid cs) (hback : ∀ c ∈ back, isBlank c = true) :
    trim (front ++ (cs ++ back)) = cs := by
  have hstop : Stops isBlank (cs ++ back) := by
    obtain ⟨start, c, rfl, -⟩ := hend
    cases start with
    | nil => exact stops_cons.mpr (stops_cons.mp hstart)
    | cons d start => exact stops_cons.mpr (stops_cons.mp hstart)
  rw [trim, trimStart_append hfront hstop]
  exact trimEnd_append hend hback

theorem trim_of_blank {cs : List Char} (h : ∀ c ∈ cs, isBlank c = true) : trim cs = [] := by
  rw [trim, trimStart, List.dropWhile_eq_nil_iff.mpr h]
  rfl

/-- White space is taken off both ends of a text. -/
theorem exists_trim (cs : List Char) :
    ∃ front back, cs = front ++ (trim cs ++ back) ∧ (∀ c ∈ front, isBlank c = true) ∧
      ∀ c ∈ back, isBlank c = true := by
  obtain ⟨back, hback, hblanks, -⟩ := exists_trimEnd (trimStart cs)
  refine ⟨cs.takeWhile isBlank, back, ?_, fun c hc => List.mem_takeWhile_imp hc, hblanks⟩
  rw [trim, ← hback]
  exact List.takeWhile_append_dropWhile.symm

/-- What ends with a character that is no white space is found in front of the white space at the
end of a text. -/
theorem exists_rest_of_endsSolid {cs blanks taken rest : List Char} (htaken : EndsSolid taken)
    (hblanks : ∀ c ∈ blanks, isBlank c = true) (h : cs ++ blanks = taken ++ rest) :
    ∃ rest', cs = taken ++ rest' ∧ rest = rest' ++ blanks := by
  rcases List.append_eq_append_iff.mp h with ⟨more, htext, hmore⟩ | ⟨rest', hcs, hrest⟩
  · obtain ⟨front, c, rfl, hc⟩ := htaken
    rcases List.eq_nil_or_concat more with rfl | ⟨start, last, rfl⟩
    · exact ⟨[], by simpa using htext.symm, by simpa using hmore.symm⟩
    · rw [List.concat_eq_append, ← List.append_assoc] at htext
      obtain ⟨-, hlast⟩ := List.append_inj' htext rfl
      cases hlast
      have hblank := hblanks c (by simp [hmore])
      rw [hc] at hblank
      cases hblank
  · exact ⟨rest', hcs, hrest⟩

/-- Only a bracket at the beginning of a text is taken off. -/
theorem stripOuter_of_head?_ne {opening closing : Char} {cs : List Char}
    (h : cs.head? ≠ some opening) : stripOuter opening closing cs = cs := by
  cases cs with
  | nil => rfl
  | cons c cs =>
    rw [stripOuter, if_neg]
    rintro rfl
    exact h rfl

end RailsSchema.Text

namespace RailsSchema.Literal

open Text

theorem isTokenChar_of_isWordChar {c : Char} (h : isWordChar c = true) : isTokenChar c = true := by
  have hne : ∀ d, isWordChar d = false → c ≠ d := fun d => ne_of_class h
  have h1 := hne '"' (by decide)
  have h2 := hne ',' (by decide)
  have h3 := hne ':' (by decide)
  have h4 := hne '[' (by decide)
  have h5 := hne ']' (by decide)
  have h6 := hne '\x7b' (by decide)
  have h7 := hne '\x7d' (by decide)
  simp [isTokenChar, isBlank_eq_false_of_isWordChar h, h1, h2, h3, Bracket.ofOpening?,
    Bracket.ofClosing?, Bracket.opening, Bracket.closing, h4, h5, h6, h7]

theorem isWordChar_of_isDigit {c : Char} (h : c.isDigit = true) : isWordChar c = true := by
  simp [isWordChar, isAlphanumeric, Char.isAlphanum, h]

end RailsSchema.Literal
