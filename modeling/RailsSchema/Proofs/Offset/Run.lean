import RailsSchema.Proofs.Offset.Literal

/-!
# Runs of a cursor

A cursor may be taken through any steps with any arguments. From a place of the text no step ever
fails, and what was between the first offset and the last is what the steps have taken, piece by
piece. From an offset that is no place every step fails.

* `Step.Does`: what a step takes, leaves and reports, said without the order in which it looks;
  `Step.does_iff`: it is what `Cursor.step` computes;
* `Offset.step`, `Cursor.step_eq`: the steps by offsets, in which every access is checked and every
  kind of step adds up lengths in its own way, and that they are the steps of `Cursor.step`;
* `Cursor.stepsTo_of_isPlace`: one step from a place;
* `Cursor.runs_of_isPlace`: any number of steps, by induction;
* `Cursor.run_places`: both parts.
-/

namespace RailsSchema.Offset

open Text

/-- A step of a cursor: what it reports, and the offset at which it leaves the cursor. -/
def step (text : List Char) (pos : Nat) : Cursor.Step → Except OffsetError (Cursor.Report × Nat)
  | .rest => return (.text (← dropBytes pos text), pos)
  | .peek => return (.char (← peek text pos), pos)
  | .bump => do
    match ← bump text pos with
    | none => return (.char none, pos)
    | some (c, next) => return (.char (some c), next)
  | .eat expected => do
    let (found, next) ← eat expected text pos
    return (.flag found, next)
  | .eatChar expected => do
    let (found, next) ← eatChar expected text pos
    return (.flag found, next)
  | .eatWhile p => do
    let (taken, next) ← eatWhile p text pos
    return (.text taken, next)
  | .skipBlanks => do
    let (taken, next) ← eatWhile isBlank text pos
    return (.flag !taken.isEmpty, next)
  | .skipInlineBlanks => do
    let (taken, next) ← eatWhile isInlineBlank text pos
    return (.flag !taken.isEmpty, next)
  | .lineRest => do
    let (taken, next) ← eatWhile (· != '\n') text pos
    return (.text taken, next)

/-- Every step looks at the text, so all of them fail where no character begins. -/
theorem step_of_error {text : List Char} {pos : Nat} {e : OffsetError}
    (h : dropBytes pos text = .error e) (s : Cursor.Step) : step text pos s = .error e := by
  cases s with
  | rest => rw [step, h, error_bind]
  | peek => rw [step, peek_of_error h, error_bind]
  | bump => rw [step, bump, peek_of_error h, error_bind, error_bind]
  | eat expected => rw [step, eat, h, error_bind, error_bind]
  | eatChar expected => rw [step, eatChar, peek_of_error h, error_bind, error_bind]
  | eatWhile p => rw [step, eatWhile_of_error h, error_bind]
  | skipBlanks => rw [step, eatWhile_of_error h, error_bind]
  | skipInlineBlanks => rw [step, eatWhile_of_error h, error_bind]
  | lineRest => rw [step, eatWhile_of_error h, error_bind]

/-- What stands between two offsets and then between the second and a third stands between the
first and the third. -/
theorem slice_trans {text first second : List Char} {start mid stop : Nat}
    (hfirst : slice text start mid = .ok first) (hsecond : slice text mid stop = .ok second) :
    slice text start stop = .ok (first ++ second) := by
  obtain ⟨front, behind, htext, hstart, hmid⟩ := slice_eq_ok_iff.mp hfirst
  obtain ⟨front', behind', htext', hmid', hstop⟩ := slice_eq_ok_iff.mp hsecond
  have hsame : behind = second ++ behind' := by
    have hleft : dropBytes mid text = .ok behind := by
      rw [htext, hmid, hstart, ← byteLength_append, ← List.append_assoc]
      exact dropBytes_append (front ++ first) behind
    have hright : dropBytes mid text = .ok (second ++ behind') := by
      rw [htext', hmid']
      exact dropBytes_append front' (second ++ behind')
    rw [hleft] at hright
    exact Except.ok.inj hright
  refine slice_eq_ok_iff.mpr ⟨front, behind', ?_, hstart, ?_⟩
  · rw [htext, hsame, List.append_assoc]
  · rw [hstop, hmid, byteLength_append, Nat.add_assoc]

/-- At a place a step reports and takes what `Cursor.step` says. -/
theorem step_offsetOf {text cs : List Char} (h : cs <:+ text) (s : Cursor.Step) :
    step text (offsetOf text cs) s =
      .ok (s.report cs, offsetOf text cs + byteLength (s.taken cs)) := by
  cases s with
  | rest => rw [step, dropBytes_offsetOf h]; rfl
  | peek => rw [step, peek_offsetOf h]; rfl
  | bump =>
    rw [step, bump, peek_offsetOf h]
    cases cs <;> rfl
  | eat expected =>
    rw [step, eat, dropBytes_offsetOf h, ok_bind]
    cases hfound : expected.isPrefixOf cs <;> simp [Cursor.Step.report, Cursor.Step.taken, hfound]
  | eatChar expected =>
    rw [step, eatChar, peek_offsetOf h, ok_bind]
    by_cases hfound : cs.head? = some expected <;>
      simp [Cursor.Step.report, Cursor.Step.taken, hfound]
  | eatWhile p => rw [step, eatWhile_offsetOf h, offsetOf_dropWhile h]; rfl
  | skipBlanks => rw [step, eatWhile_offsetOf h, offsetOf_dropWhile h]; rfl
  | skipInlineBlanks => rw [step, eatWhile_offsetOf h, offsetOf_dropWhile h]; rfl
  | lineRest => rw [step, eatWhile_offsetOf h, offsetOf_dropWhile h]; rfl

end RailsSchema.Offset

namespace RailsSchema.Text.Cursor

open Offset (slice)

/-! ## What a step does -/

/-- Whether a report says that nothing was found. -/
def Report.isFailure : Report → Bool
  | .text shown => shown.isEmpty
  | .char shown => shown.isNone
  | .flag holds => !holds

/-- Whether a step takes `taken`, leaves `rest` and reports so. -/
inductive Step.Does : Step → (taken rest : List Char) → Report → Prop where
  | rest {cs : List Char} : Does .rest [] cs (.text cs)
  | peek {cs : List Char} : Does .peek [] cs (.char cs.head?)
  | bump {c : Char} {cs : List Char} : Does .bump [c] cs (.char (some c))
  | bumpAtEnd : Does .bump [] [] (.char none)
  | eat {expected cs : List Char} : Does (.eat expected) expected cs (.flag true)
  | eatOther {expected cs : List Char} (h : ¬ expected <+: cs) :
      Does (.eat expected) [] cs (.flag false)
  | eatChar {c : Char} {cs : List Char} : Does (.eatChar c) [c] cs (.flag true)
  | eatCharOther {c : Char} {cs : List Char} (h : cs.head? ≠ some c) :
      Does (.eatChar c) [] cs (.flag false)
  /-- All characters of a class up to the first that is none. -/
  | eatWhile {p : Char → Bool} {run cs : List Char} (hrun : ∀ c ∈ run, p c = true)
      (hstop : Stops p cs) : Does (.eatWhile p) run cs (.text run)
  | skipBlanks {run cs : List Char} (hrun : ∀ c ∈ run, isBlank c = true)
      (hstop : Stops isBlank cs) : Does .skipBlanks run cs (.flag !run.isEmpty)
  | skipInlineBlanks {run cs : List Char}
      (hrun : ∀ c ∈ run, isBlank c = true ∧ c ≠ '\n')
      (hstop : ∀ c ∈ cs.head?, isBlank c = true → c = '\n') :
      Does .skipInlineBlanks run cs (.flag !run.isEmpty)
  | lineRest {run cs : List Char} (hrun : '\n' ∉ run) (hstop : ∀ c ∈ cs.head?, c = '\n') :
      Does .lineRest run cs (.text run)

variable {cs taken rest : List Char} {report : Report}

theorem isInlineBlank_iff {c : Char} : isInlineBlank c = true ↔ isBlank c = true ∧ c ≠ '\n' := by
  simp [isInlineBlank]

/-- What `Cursor.step` computes is what the step does. -/
theorem Step.does_taken (s : Step) (cs : List Char) :
    ∃ rest, cs = s.taken cs ++ rest ∧ s.Does (s.taken cs) rest (s.report cs) := by
  have hsplit : ∀ p : Char → Bool, cs = cs.takeWhile p ++ cs.dropWhile p :=
    fun p => List.takeWhile_append_dropWhile.symm
  cases s with
  | rest => exact ⟨cs, rfl, .rest⟩
  | peek => exact ⟨cs, rfl, .peek⟩
  | bump =>
    cases cs with
    | nil => exact ⟨[], rfl, .bumpAtEnd⟩
    | cons c cs => exact ⟨cs, rfl, .bump⟩
  | eat expected =>
    cases hfound : expected.isPrefixOf cs with
    | true =>
      obtain ⟨rest, rfl⟩ := List.isPrefixOf_iff_prefix.mp hfound
      simp only [Step.taken, Step.report, hfound, if_true]
      exact ⟨rest, rfl, .eat⟩
    | false =>
      have hother : ¬ expected <+: cs := by
        rw [← List.isPrefixOf_iff_prefix, hfound]
        exact Bool.false_ne_true
      simp only [Step.taken, Step.report, hfound, Bool.false_eq_true, if_false]
      exact ⟨cs, rfl, .eatOther hother⟩
  | eatChar expected =>
    by_cases hfound : cs.head? = some expected
    · obtain ⟨rest, rfl⟩ := List.head?_eq_some_iff.mp hfound
      simp only [Step.taken, Step.report, hfound, if_true, beq_self_eq_true]
      exact ⟨rest, rfl, .eatChar⟩
    · simp only [Step.taken, Step.report, if_neg hfound, beq_eq_false_iff_ne.mpr hfound]
      exact ⟨cs, rfl, .eatCharOther hfound⟩
  | eatWhile p =>
    exact ⟨_, hsplit p, .eatWhile (fun _ hc => List.mem_takeWhile_imp hc) (stops_dropWhile p cs)⟩
  | skipBlanks =>
    exact ⟨_, hsplit isBlank,
      .skipBlanks (fun _ hc => List.mem_takeWhile_imp hc) (stops_dropWhile isBlank cs)⟩
  | skipInlineBlanks =>
    refine ⟨_, hsplit isInlineBlank, .skipInlineBlanks ?_ ?_⟩
    · exact fun c hc => isInlineBlank_iff.mp (List.mem_takeWhile_imp hc)
    · intro c hc hblank
      have hstop := stops_dropWhile isInlineBlank cs c hc
      by_contra hne
      rw [isInlineBlank_iff.mpr ⟨hblank, hne⟩] at hstop
      cases hstop
  | lineRest =>
    refine ⟨_, hsplit (· != '\n'), .lineRest ?_ ?_⟩
    · intro hmem
      exact absurd (List.mem_takeWhile_imp hmem) (by decide)
    · intro c hc
      simpa using stops_dropWhile (· != '\n') cs c hc

/-- A step does one thing only, and that is what `Cursor.step` computes. -/
theorem Step.does_iff {s : Step} :
    s.Does taken rest report ↔
      taken = s.taken (taken ++ rest) ∧ report = s.report (taken ++ rest) := by
  constructor
  · intro h
    cases h with
    | rest => exact ⟨rfl, rfl⟩
    | peek => exact ⟨rfl, rfl⟩
    | bump => exact ⟨rfl, rfl⟩
    | bumpAtEnd => exact ⟨rfl, rfl⟩
    | eat =>
      have hfound : taken.isPrefixOf (taken ++ rest) = true :=
        List.isPrefixOf_iff_prefix.mpr (List.prefix_append taken rest)
      simp [Step.taken, Step.report, hfound]
    | @eatOther expected _ h =>
      have hother : expected.isPrefixOf rest = false := by
        rwa [Bool.eq_false_iff, ne_eq, List.isPrefixOf_iff_prefix]
      simp [Step.taken, Step.report, hother]
    | eatChar => simp [Step.taken, Step.report]
    | eatCharOther h => simp [Step.taken, Step.report, h]
    | eatWhile hrun hstop =>
      simp [Step.taken, Step.report, takeWhile_append_of_stops hrun hstop]
    | skipBlanks hrun hstop =>
      simp [Step.taken, Step.report, takeWhile_append_of_stops hrun hstop]
    | skipInlineBlanks hrun hstop =>
      have hrun' : ∀ c ∈ taken, isInlineBlank c = true :=
        fun c hc => isInlineBlank_iff.mpr (hrun c hc)
      have hstop' : Stops isInlineBlank rest := by
        intro c hc
        rw [Bool.eq_false_iff]
        intro hblank
        obtain ⟨hblank, hne⟩ := isInlineBlank_iff.mp hblank
        exact hne (hstop c hc hblank)
      simp [Step.taken, Step.report, takeWhile_append_of_stops hrun' hstop']
    | lineRest hrun hstop =>
      have hrun' : ∀ c ∈ taken, (c != '\n') = true := by
        intro c hc
        simpa using fun heq : c = '\n' => hrun (heq ▸ hc)
      have hstop' : Stops (· != '\n') rest := fun c hc => by simpa using hstop c hc
      simp [Step.taken, Step.report, line, takeWhile_append_of_stops hrun' hstop']
  · rintro ⟨htaken, hreport⟩
    obtain ⟨rest', hcs, hdoes⟩ := s.does_taken (taken ++ rest)
    rw [← htaken, List.append_cancel_left_eq] at hcs
    rwa [← htaken, ← hreport, ← hcs] at hdoes

/-- A step that reports that it has found nothing takes nothing. -/
theorem Step.Does.taken_eq_nil {s : Step} (h : s.Does taken rest report)
    (hfailure : report.isFailure = true) : taken = [] := by
  cases h with
  | rest | peek | bumpAtEnd | eatOther | eatCharOther => rfl
  | bump | eat | eatChar => cases hfailure
  | eatWhile | lineRest => exact List.isEmpty_iff.mp hfailure
  | skipBlanks | skipInlineBlanks => simpa [Report.isFailure] using hfailure

/-! ## Steps and runs -/

/-- The steps of a cursor are the steps by offsets. -/
theorem step_eq (text : List Char) (pos : Nat) (s : Step) :
    step ⟨text, pos⟩ s = do
      let (report, next) ← Offset.step text pos s
      return (report, ⟨text, next⟩) := by
  show (dropBytes pos text >>= fun cs => _) = _
  cases hdrop : dropBytes pos text with
  | error e => rw [Offset.step_of_error hdrop, Offset.error_bind, Offset.error_bind]
  | ok cs =>
    obtain ⟨hcs, rfl⟩ := dropBytes_eq_ok_iff_offsetOf.mp hdrop
    rw [Offset.step_offsetOf hcs]
    rfl

/-- One step of a cursor from an offset to the next, with what it reports and takes. -/
structure StepsTo (text : List Char) (pos : Nat) (s : Step) (report : Report) (taken : List Char)
    (next : Nat) : Prop where
  step : step ⟨text, pos⟩ s = .ok (report, ⟨text, next⟩)
  /-- No access of the step by offsets fails. -/
  checked : Offset.step text pos s = .ok (report, next)
  le : pos ≤ next
  isPlace : IsPlace text next
  slice : slice text pos next = .ok taken
  does : ∃ rest, dropBytes next text = .ok rest ∧ s.Does taken rest report
  stays : report.isFailure = true → next = pos

/-- A run of a cursor: each step begins where the one before it has left off. -/
inductive Runs (text : List Char) :
    Nat → List Step → List Report → List (List Char) → Nat → Prop where
  | nil {pos : Nat} : Runs text pos [] [] [] pos
  | cons {pos next stop : Nat} {s : Step} {steps : List Step} {report : Report}
      {reports : List Report} {taken : List Char} {takens : List (List Char)}
      (hstep : StepsTo text pos s report taken next)
      (hruns : Runs text next steps reports takens stop) :
      Runs text pos (s :: steps) (report :: reports) (taken :: takens) stop

/-- A cursor taken through some steps, with what they report. -/
def run (cursor : Cursor) : List Step → Except OffsetError (List Report × Cursor)
  | [] => return ([], cursor)
  | s :: steps => do
    let (report, next) ← cursor.step s
    let (reports, last) ← next.run steps
    return (report :: reports, last)

variable {text : List Char} {pos stop : Nat}

/-- From a place every step goes to a place, over what it takes. -/
theorem stepsTo_of_isPlace (h : IsPlace text pos) (s : Step) :
    ∃ report taken next, StepsTo text pos s report taken next := by
  obtain ⟨front, cs, rfl, rfl⟩ := h
  have hplace : offsetOf (front ++ cs) cs = byteLength front := offsetOf_append front cs
  obtain ⟨rest, hcs, hdoes⟩ := s.does_taken cs
  have hchecked := Offset.step_offsetOf (List.suffix_append front cs) s
  rw [hplace] at hchecked
  have hnext : byteLength front + byteLength (s.taken cs) = byteLength (front ++ s.taken cs) :=
    (byteLength_append _ _).symm
  have htext : front ++ cs = front ++ s.taken cs ++ rest := by
    rw [List.append_assoc, ← hcs]
  refine ⟨s.report cs, s.taken cs, byteLength front + byteLength (s.taken cs), ?_⟩
  constructor
  · rw [step_eq, hchecked]
    rfl
  · exact hchecked
  · exact Nat.le_add_right _ _
  · exact ⟨front ++ s.taken cs, rest, htext, hnext.symm⟩
  · exact Offset.slice_eq_ok_iff.mpr ⟨front, rest, by rw [← hcs], rfl, rfl⟩
  · refine ⟨rest, ?_, hdoes⟩
    rw [htext, hnext]
    exact dropBytes_append _ _
  · intro hfailure
    rw [hdoes.taken_eq_nil hfailure]
    rfl

/-- From a place every run gets to its end. -/
theorem runs_of_isPlace (h : IsPlace text pos) (steps : List Step) :
    ∃ reports takens stop, Runs text pos steps reports takens stop := by
  induction steps generalizing pos with
  | nil => exact ⟨[], [], pos, .nil⟩
  | cons s steps ih =>
    obtain ⟨report, taken, next, hstep⟩ := stepsTo_of_isPlace h s
    obtain ⟨reports, takens, stop, hruns⟩ := ih hstep.isPlace
    exact ⟨report :: reports, taken :: takens, stop, .cons hstep hruns⟩

namespace Runs

variable {steps : List Step} {reports : List Report} {takens : List (List Char)}

theorem run_eq (h : Runs text pos steps reports takens stop) :
    run ⟨text, pos⟩ steps = .ok (reports, ⟨text, stop⟩) := by
  induction h with
  | nil => rfl
  | cons hstep _ ih => simp only [run, hstep.step, ih, Offset.ok_bind, Offset.pure_eq_ok]

theorem le (h : Runs text pos steps reports takens stop) : pos ≤ stop := by
  induction h with
  | nil => exact Nat.le_refl _
  | cons hstep _ ih => exact Nat.le_trans hstep.le ih

theorem isPlace (h : Runs text pos steps reports takens stop) (hpos : IsPlace text pos) :
    IsPlace text stop := by
  induction h with
  | nil => exact hpos
  | cons hstep _ ih => exact ih hstep.isPlace

/-- What a run has passed is what its steps have taken. -/
theorem slice (h : Runs text pos steps reports takens stop) (hpos : IsPlace text pos) :
    slice text pos stop = .ok takens.flatten := by
  induction h with
  | nil =>
    obtain ⟨front, back, rfl, rfl⟩ := hpos
    exact Offset.slice_eq_ok_iff.mpr ⟨front, back, rfl, rfl, rfl⟩
  | cons hstep _ ih => exact Offset.slice_trans hstep.slice (ih hstep.isPlace)

end Runs

/-- From a place of a text a cursor can be taken through any steps: none fails, the offset never goes
down and always is a place, and the text that was passed is what the steps have taken, in their
order; a step that finds nothing leaves the cursor where it was. From an offset behind the end or
inside a character every step fails; the offset itself and the test for the end do not look at the
text there. -/
theorem run_places (text : List Char) (pos : Nat) :
    (IsPlace text pos → ∀ steps, ∃ reports takens stop,
      run ⟨text, pos⟩ steps = .ok (reports, ⟨text, stop⟩) ∧
        Runs text pos steps reports takens stop ∧
        pos ≤ stop ∧ stop ≤ byteLength text ∧ IsPlace text stop ∧
        Offset.slice text pos stop = .ok takens.flatten) ∧
    (byteLength text < pos ∨ ¬ IsPlace text pos →
      (∀ s, ∃ e, step ⟨text, pos⟩ s = .error e ∧ Offset.step text pos s = .error e) ∧
        (⟨text, pos⟩ : Cursor).isAtEnd = decide (byteLength text ≤ pos)) := by
  constructor
  · intro hpos steps
    obtain ⟨reports, takens, stop, hruns⟩ := runs_of_isPlace hpos steps
    have hstop := hruns.isPlace hpos
    exact ⟨reports, takens, stop, hruns.run_eq, hruns, hruns.le, hstop.le_byteLength, hstop,
      hruns.slice hpos⟩
  · intro hpos
    have hnone : ¬ IsPlace text pos :=
      hpos.elim (fun hlt hplace => Nat.not_lt.mpr hplace.le_byteLength hlt) id
    cases hdrop : dropBytes pos text with
    | ok cs => exact absurd (isPlace_iff.mpr ⟨cs, hdrop⟩) hnone
    | error e =>
      refine ⟨fun s => ⟨e, ?_, Offset.step_of_error hdrop s⟩, rfl⟩
      rw [step_eq, Offset.step_of_error hdrop, Offset.error_bind]

/-- A text whose second character takes two bytes. -/
def accented : List Char := "né: x".toList

theorem run_places_accented :
    IsPlace accented 0 ∧ ¬ IsPlace accented 2 ∧
    (∃ reports stop, ∃ takens : List (List Char),
      run ⟨accented, 0⟩ [.eatWhile isWordChar, .eatChar ':', .eat ['x'], .skipBlanks, .bump] =
          .ok (reports, ⟨accented, stop⟩) ∧
        IsPlace accented stop ∧ Offset.slice accented 0 stop = .ok takens.flatten) ∧
    ∃ e, step ⟨accented, 2⟩ .peek = .error e := by
  have hplace : IsPlace accented 0 := ⟨[], accented, rfl, rfl⟩
  have hinside : ¬ IsPlace accented 2 := by
    rw [isPlace_iff]
    rintro ⟨cs, hcs⟩
    have herror : dropBytes 2 accented = .error .insideCharacter := by decide
    rw [herror] at hcs
    cases hcs
  obtain ⟨reports, takens, stop, hrun, -, -, -, hstop, hslice⟩ := (run_places accented 0).1 hplace
    [.eatWhile isWordChar, .eatChar ':', .eat ['x'], .skipBlanks, .bump]
  obtain ⟨e, he, -⟩ := ((run_places accented 2).2 (.inr hinside)).1 .peek
  exact ⟨hplace, hinside, ⟨reports, stop, takens, hrun, hstop, hslice⟩, e, he⟩

end RailsSchema.Text.Cursor
