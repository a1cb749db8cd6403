import RailsSchema.Text.Cursor
import Mathlib.Data.List.Basic

/-!
# Reading by byte offsets

The scanners of this library work on the characters still to come, where nothing can go wrong. A
program that keeps its text in one piece works with byte offsets instead, adds up the lengths of what
it has passed, and fails where an offset is no place of the text or where a slice ends before it
begins. The modules here spell out that program, with every access checked, and show that no check
ever fails: each scanner by offsets finds what the scanner on characters finds.

This module has the slices of a text and the steps of a cursor. An offset is written as
`offsetOf text cs`, the place in `text` at which its end `cs` begins; every step of a cursor is an
equation between such offsets.

* `dropBytes_eq_ok_iff_offsetOf`: the places of a text are the offsets of its ends;
* `slice_offsetOf`: a slice between two places in order;
* `eatWhile_offsetOf`, `eatChar_offsetOf`, `doubleQuoted_offsetOf`: the steps.
-/

namespace RailsSchema.Text

/-! ## Places -/

/-- The byte offset at which an end of a text begins. -/
def offsetOf (text cs : List Char) : Nat := byteLength text - byteLength cs

variable {text cs rest : List Char}

theorem byteLength_le_of_suffix (h : cs <:+ text) : byteLength cs ≤ byteLength text := by
  obtain ⟨front, rfl⟩ := h
  rw [byteLength_append]
  omega

theorem offsetOf_append (front cs : List Char) : offsetOf (front ++ cs) cs = byteLength front := by
  unfold offsetOf
  rw [byteLength_append]
  omega

@[simp] theorem offsetOf_self (text : List Char) : offsetOf text text = 0 := Nat.sub_self _

@[simp] theorem offsetOf_nil (text : List Char) : offsetOf text [] = byteLength text := rfl

/-- The offset behind some characters of a text. -/
theorem offsetOf_append_add {taken : List Char} (h : taken ++ rest <:+ text) :
    offsetOf text (taken ++ rest) + byteLength taken = offsetOf text rest := by
  have hle := byteLength_le_of_suffix h
  unfold offsetOf
  rw [byteLength_append] at hle ⊢
  omega

theorem offsetOf_cons_add {c : Char} (h : c :: rest <:+ text) :
    offsetOf text (c :: rest) + c.utf8Size = offsetOf text rest := by
  have happend : [c] ++ rest <:+ text := h
  exact offsetOf_append_add happend

/-- The offset behind the characters of a class. -/
theorem offsetOf_dropWhile {p : Char → Bool} (h : cs <:+ text) :
    offsetOf text (cs.dropWhile p) = offsetOf text cs + byteLength (cs.takeWhile p) := by
  have hsplit : cs.takeWhile p ++ cs.dropWhile p = cs := List.takeWhile_append_dropWhile
  have hsum := offsetOf_append_add (hsplit.symm ▸ h)
  rw [hsplit] at hsum
  exact hsum.symm

theorem offsetOf_le_offsetOf (h : rest <:+ cs) (hcs : cs <:+ text) :
    offsetOf text cs ≤ offsetOf text rest := by
  have h1 := byteLength_le_of_suffix h
  have h2 := byteLength_le_of_suffix hcs
  unfold offsetOf
  omega

theorem offsetOf_lt_offsetOf (h : IsProperEnd rest cs) (hcs : cs <:+ text) :
    offsetOf text cs < offsetOf text rest := by
  obtain ⟨⟨front, rfl⟩, hlt⟩ := h
  have hpos : 0 < byteLength front := by
    cases front with
    | nil => exact absurd hlt (Nat.lt_irrefl _)
    | cons c front => exact Nat.add_pos_left c.utf8Size_pos _
  have := offsetOf_append_add hcs
  omega

/-- Of two ends of a text, the one that begins later is an end of the other. -/
theorem suffix_of_offsetOf_le (hcs : cs <:+ text) (hrest : rest <:+ text)
    (h : offsetOf text cs ≤ offsetOf text rest) : rest <:+ cs := by
  rcases List.suffix_or_suffix_of_suffix hrest hcs with hsuffix | hsuffix
  · exact hsuffix
  · by_cases hlt : cs.length < rest.length
    · exact absurd (offsetOf_lt_offsetOf ⟨hsuffix, hlt⟩ hrest) (Nat.not_lt.mpr h)
    · obtain rfl := hsuffix.eq_of_length_le (Nat.not_lt.mp hlt)
      exact List.suffix_refl cs

theorem offsetOf_le_byteLength (text cs : List Char) : offsetOf text cs ≤ byteLength text :=
  Nat.sub_le _ _

/-- The places of a text are the offsets at which its ends begin. -/
theorem dropBytes_eq_ok_iff_offsetOf {pos : Nat} :
    dropBytes pos text = .ok cs ↔ cs <:+ text ∧ pos = offsetOf text cs := by
  rw [dropBytes_eq_ok_iff]
  constructor
  · rintro ⟨front, rfl, rfl⟩
    exact ⟨List.suffix_append front cs, (offsetOf_append front cs).symm⟩
  · rintro ⟨⟨front, rfl⟩, rfl⟩
    exact ⟨front, rfl, (offsetOf_append front cs).symm⟩

theorem dropBytes_offsetOf (h : cs <:+ text) : dropBytes (offsetOf text cs) text = .ok cs :=
  dropBytes_eq_ok_iff_offsetOf.mpr ⟨h, rfl⟩

theorem eq_of_dropWhile_ne {c d : Char} (h : cs.dropWhile (· != d) = c :: rest) : c = d := by
  have hc := List.head_dropWhile_not (· != d) (l := cs) (by simp [h])
  simpa [h] using hc

/-- Whether a character of a text begins at an offset, or the text ends there. -/
def IsPlace (text : List Char) (pos : Nat) : Prop :=
  ∃ front back, text = front ++ back ∧ byteLength front = pos

theorem IsPlace.le_byteLength {pos : Nat} (h : IsPlace text pos) : pos ≤ byteLength text := by
  obtain ⟨front, back, rfl, rfl⟩ := h
  rw [byteLength_append]
  omega

theorem isPlace_iff {pos : Nat} : IsPlace text pos ↔ ∃ cs, dropBytes pos text = .ok cs := by
  simp only [dropBytes_eq_ok_iff]
  exact exists_comm

/-- What is computed from the characters behind an offset fails just where there are none. -/
theorem exists_error_iff {α : Type} {pos : Nat} {f : List Char → α} :
    (∃ e, (dropBytes pos text >>= fun cs => pure (f cs)) = .error e) ↔
      byteLength text < pos ∨ ¬ IsPlace text pos := by
  cases hdrop : dropBytes pos text with
  | ok cs =>
    have h := isPlace_iff.mpr ⟨cs, hdrop⟩
    refine iff_of_false ?_ (not_or.mpr ⟨Nat.not_lt.mpr h.le_byteLength, not_not.mpr h⟩)
    rintro ⟨e, he⟩
    cases he
  | error e =>
    refine iff_of_true ⟨e, rfl⟩ (Or.inr fun h => ?_)
    obtain ⟨cs, hcs⟩ := isPlace_iff.mp h
    rw [hdrop] at hcs
    cases hcs

end RailsSchema.Text

namespace RailsSchema.Offset

open Text

variable {text cs rest : List Char}

@[simp] theorem ok_bind {α β : Type} (a : α) (f : α → Except OffsetError β) :
    (Except.ok a >>= f) = f a := rfl

@[simp] theorem error_bind {α β : Type} (e : OffsetError) (f : α → Except OffsetError β) :
    (Except.error e >>= f) = .error e := rfl

@[simp] theorem pure_eq_ok {α : Type} (a : α) : (pure a : Except OffsetError α) = .ok a := rfl

/-- Goes on with what has been found, if anything has. -/
def ifFound {α β : Type} (found : Except OffsetError (Option α))
    (next : α → Except OffsetError (Option β)) : Except OffsetError (Option β) := do
  match ← found with
  | none => return none
  | some a => next a

/-- Two searches one after the other find what two scanners one after the other find; `place` is how
the second is told where the first has left off. -/
theorem ifFound_eq {α β γ : Type} {found : Except OffsetError (Option α)}
    {next : α → Except OffsetError (Option β)} {first : Option γ} {place : γ → α}
    {second : γ → Option β} (hfirst : found = .ok (first.map place))
    (hsecond : ∀ c, first = some c → next (place c) = .ok (second c)) :
    ifFound found next = .ok (first.bind second) := by
  rw [ifFound, hfirst]
  cases hc : first with
  | none => rfl
  | some c => exact hsecond c hc

theorem ifFound_ok {α β : Type} {next : α → Except OffsetError (Option β)} {first : Option α}
    {second : α → Option β} (hsecond : ∀ a, first = some a → next a = .ok (second a)) :
    ifFound (.ok first) next = .ok (first.bind second) := by
  cases ha : first with
  | none => rfl
  | some a => exact hsecond a ha

/-! ## Slices -/

/-- The offset some bytes before another; there is none before the beginning of a text. -/
def back (pos count : Nat) : Except OffsetError Nat :=
  if count ≤ pos then .ok (pos - count) else .error .pastEnd

/-- The characters between two offsets, which must be places and in order. -/
def slice (text : List Char) (start stop : Nat) : Except OffsetError (List Char) := do
  let cs ← dropBytes start text
  let rest ← dropBytes stop text
  if start ≤ stop then return upTo cs rest else .error .pastEnd

theorem slice_offsetOf (h : rest <:+ cs) (hcs : cs <:+ text) :
    slice text (offsetOf text cs) (offsetOf text rest) = .ok (upTo cs rest) := by
  simp only [slice, dropBytes_offsetOf hcs, dropBytes_offsetOf (h.trans hcs), ok_bind,
    if_pos (offsetOf_le_offsetOf h hcs), pure_eq_ok]

/-- A slice is what stands between a beginning of a text and an end of it. -/
theorem slice_eq_ok_iff {start stop : Nat} {part : List Char} :
    slice text start stop = .ok part ↔
      ∃ front behind, text = front ++ (part ++ behind) ∧ start = byteLength front ∧
        stop = start + byteLength part := by
  constructor
  · intro h
    unfold slice at h
    cases hstart : dropBytes start text with
    | error e => rw [hstart, error_bind] at h; cases h
    | ok cs =>
    cases hstop : dropBytes stop text with
    | error e => rw [hstart, hstop, ok_bind, error_bind] at h; cases h
    | ok rest =>
    rw [hstart, hstop, ok_bind, ok_bind] at h
    split at h
    · next hle =>
      cases h
      obtain ⟨hcs, rfl⟩ := dropBytes_eq_ok_iff_offsetOf.mp hstart
      obtain ⟨hrest, rfl⟩ := dropBytes_eq_ok_iff_offsetOf.mp hstop
      have htaken := upTo_append_of_suffix (suffix_of_offsetOf_le hcs hrest hle)
      have hsum := offsetOf_append_add (htaken.symm ▸ hcs)
      rw [htaken] at hsum
      obtain ⟨front, rfl⟩ := hcs
      exact ⟨front, rest, by rw [htaken], offsetOf_append front cs, hsum.symm⟩
    · cases h
  · rintro ⟨front, behind, rfl, rfl, rfl⟩
    have hcs := List.suffix_append front (part ++ behind)
    have h := slice_offsetOf (List.suffix_append part behind) hcs
    rwa [← offsetOf_append_add hcs, offsetOf_append, upTo_append] at h

theorem back_offsetOf {taken : List Char} (h : taken ++ rest <:+ text) :
    back (offsetOf text rest) (byteLength taken) = .ok (offsetOf text (taken ++ rest)) := by
  have hsum := offsetOf_append_add h
  rw [back, if_pos (by omega), ← hsum, Nat.add_sub_cancel]

/-! ## Steps -/

/-- The next character. -/
def peek (text : List Char) (pos : Nat) : Except OffsetError (Option Char) := do
  return (← dropBytes pos text).head?

/-- Takes the given text if it comes next; says whether it did, and where it left off. -/
def eat (expected text : List Char) (pos : Nat) : Except OffsetError (Bool × Nat) := do
  if expected.isPrefixOf (← dropBytes pos text) then return (true, pos + byteLength expected)
  else return (false, pos)

/-- Takes the given character if it comes next. -/
def eatChar (expected : Char) (text : List Char) (pos : Nat) :
    Except OffsetError (Bool × Nat) := do
  if (← peek text pos) = some expected then return (true, pos + expected.utf8Size)
  else return (false, pos)

theorem lt_of_peek {pos : Nat} {c : Char} (h : peek text pos = .ok (some c)) :
    pos < byteLength text := by
  unfold peek at h
  cases hdrop : dropBytes pos text with
  | error e =>
    rw [hdrop] at h
    cases h
  | ok cs =>
    rw [hdrop] at h
    obtain ⟨hcs, rfl⟩ := dropBytes_eq_ok_iff_offsetOf.mp hdrop
    cases cs with
    | nil => cases h
    | cons d cs => exact offsetOf_lt_offsetOf (.of_suffix (List.nil_suffix) d) hcs

/-- The offset behind the characters of a class, looked at one after the other. -/
def pastWhile (p : Char → Bool) (text : List Char) (pos : Nat) : Except OffsetError Nat :=
  match _h : peek text pos with
  | .error e => .error e
  | .ok none => .ok pos
  | .ok (some c) => if p c then pastWhile p text (pos + c.utf8Size) else .ok pos
termination_by byteLength text - pos
decreasing_by
  have := lt_of_peek _h
  have := c.utf8Size_pos
  omega

/-- Takes the characters of a class. -/
def eatWhile (p : Char → Bool) (text : List Char) (pos : Nat) :
    Except OffsetError (List Char × Nat) := do
  let stop ← pastWhile p text pos
  return (← slice text pos stop, stop)

/-- Takes a text up to the next `quote`, and that quote. -/
def untilQuote (quote : Char) (text : List Char) (pos : Nat) :
    Except OffsetError (Option (List Char × Nat)) := do
  let (inner, next) ← eatWhile (· != quote) text pos
  let (closed, stop) ← eatChar quote text next
  return if closed then some (inner, stop) else none

/-- Takes a name in double quotes on one line. -/
def doubleQuoted (text : List Char) (pos : Nat) : Except OffsetError (Option (List Char × Nat)) := do
  let (opened, start) ← eatChar '"' text pos
  if !opened then return none
  let (name, next) ← eatWhile (fun c => c != '"' && c != '\n') text start
  let (closed, stop) ← eatChar '"' text next
  return if closed then some (name, stop) else none

/-! ## What the steps find -/

/-- What has been found, with the offset of what follows it. -/
def locate {α : Type} (text : List Char) (found : α × List Char) : α × Nat :=
  (found.1, offsetOf text found.2)

theorem peek_offsetOf (h : cs <:+ text) : peek text (offsetOf text cs) = .ok cs.head? := by
  rw [peek, dropBytes_offsetOf h, ok_bind, pure_eq_ok]

theorem peek_of_error {pos : Nat} {e : OffsetError} (h : dropBytes pos text = .error e) :
    peek text pos = .error e := by
  rw [peek, h, error_bind]

theorem suffix_of_after? {expected : List Char} (h : after? expected cs = some rest) :
    rest <:+ cs :=
  after?_eq_some_iff.mp h ▸ List.suffix_append expected rest

theorem isPrefixOf_eq_isSome_after? (expected cs : List Char) :
    expected.isPrefixOf cs = (after? expected cs).isSome := by
  rw [Bool.eq_iff_iff, List.isPrefixOf_iff_prefix, Option.isSome_iff_exists]
  exact exists_congr fun rest => by rw [after?_eq_some_iff, eq_comm]

theorem eat_offsetOf {expected : List Char} (h : cs <:+ text) :
    eat expected text (offsetOf text cs) =
      .ok (match after? expected cs with
        | some rest => (true, offsetOf text rest)
        | none => (false, offsetOf text cs)) := by
  rw [eat, dropBytes_offsetOf h, ok_bind, isPrefixOf_eq_isSome_after?]
  cases hafter : after? expected cs with
  | none => rfl
  | some rest =>
    obtain rfl := after?_eq_some_iff.mp hafter
    simp only [Option.isSome_some, if_true, pure_eq_ok, offsetOf_append_add h]

theorem eatChar_offsetOf {expected : Char} (h : cs <:+ text) :
    eatChar expected text (offsetOf text cs) =
      .ok (match after? [expected] cs with
        | some rest => (true, offsetOf text rest)
        | none => (false, offsetOf text cs)) := by
  rw [eatChar, peek_offsetOf h, ok_bind]
  cases cs with
  | nil => rfl
  | cons c cs =>
    by_cases hc : c = expected
    · subst hc
      simp only [List.head?_cons, if_true, after?, pure_eq_ok, offsetOf_cons_add h]
    · have hhead : (c :: cs).head? ≠ some expected := by simp [hc]
      simp only [if_neg hhead, after?, if_neg hc, pure_eq_ok]

theorem pastWhile_offsetOf {p : Char → Bool} (h : cs <:+ text) :
    pastWhile p text (offsetOf text cs) = .ok (offsetOf text (cs.dropWhile p)) := by
  induction cs with
  | nil =>
    rw [pastWhile]
    split
    · next hpeek => rw [peek_offsetOf h] at hpeek; cases hpeek
    · rfl
    · next hpeek => rw [peek_offsetOf h] at hpeek; cases hpeek
  | cons c cs ih =>
    rw [pastWhile]
    split
    · next hpeek => rw [peek_offsetOf h] at hpeek; cases hpeek
    · next hpeek => rw [peek_offsetOf h] at hpeek; cases hpeek
    · next d hpeek =>
      rw [peek_offsetOf h] at hpeek
      cases hpeek
      rw [offsetOf_cons_add h, ih ((List.suffix_cons c cs).trans h), List.dropWhile_cons]
      split <;> rfl

theorem upTo_dropWhile (p : Char → Bool) (cs : List Char) :
    upTo cs (cs.dropWhile p) = cs.takeWhile p := by
  have h := upTo_append (cs.takeWhile p) (cs.dropWhile p)
  rwa [List.takeWhile_append_dropWhile] at h

theorem eatWhile_offsetOf {p : Char → Bool} (h : cs <:+ text) :
    eatWhile p text (offsetOf text cs) = .ok (cs.takeWhile p, offsetOf text (cs.dropWhile p)) := by
  rw [eatWhile, pastWhile_offsetOf h, ok_bind, slice_offsetOf (List.dropWhile_suffix p) h, ok_bind,
    upTo_dropWhile, pure_eq_ok]

theorem skipBlanks_offsetOf (h : cs <:+ text) :
    eatWhile isBlank text (offsetOf text cs) =
      .ok (cs.takeWhile isBlank, offsetOf text (trimStart cs)) := eatWhile_offsetOf h

theorem eatWhile_of_error {p : Char → Bool} {pos : Nat} {e : OffsetError}
    (h : dropBytes pos text = .error e) : eatWhile p text pos = .error e := by
  rw [eatWhile, pastWhile]
  split
  · next hpeek =>
    rw [peek_of_error h] at hpeek
    cases hpeek
    rfl
  · next hpeek => rw [peek_of_error h] at hpeek; cases hpeek
  · next hpeek => rw [peek_of_error h] at hpeek; cases hpeek

theorem untilQuote_offsetOf (quote : Char) (h : cs <:+ text) :
    untilQuote quote text (offsetOf text cs) = .ok ((untilQuote? quote cs).map (locate text)) := by
  have hsuffix := List.dropWhile_suffix (· != quote) (l := cs)
  rw [untilQuote, eatWhile_offsetOf h, ok_bind]
  simp only [eatChar_offsetOf (hsuffix.trans h), ok_bind, pure_eq_ok, untilQuote?]
  cases hrest : cs.dropWhile (· != quote) with
  | nil => rfl
  | cons c rest =>
    simp [after?, eq_of_dropWhile_ne hrest, locate]

theorem untilQuote_of_error {quote : Char} {pos : Nat} {e : OffsetError}
    (h : dropBytes pos text = .error e) : untilQuote quote text pos = .error e := by
  rw [untilQuote, eatWhile_of_error h, error_bind]

/-- A quoted text that has been found ends behind where the search began. -/
theorem lt_of_untilQuote {quote : Char} {pos : Nat} {inner : List Char} {stop : Nat}
    (h : untilQuote quote text pos = .ok (some (inner, stop))) : pos < stop := by
  cases hdrop : dropBytes pos text with
  | error e =>
    rw [untilQuote_of_error hdrop] at h
    cases h
  | ok cs =>
    obtain ⟨hcs, rfl⟩ := dropBytes_eq_ok_iff_offsetOf.mp hdrop
    rw [untilQuote_offsetOf quote hcs, Except.ok.injEq, Option.map_eq_some_iff] at h
    obtain ⟨⟨inner, rest⟩, hfound, heq⟩ := h
    cases heq
    exact offsetOf_lt_offsetOf (isProperEnd_of_untilQuote? hfound) hcs

theorem doubleQuoted_offsetOf (h : cs <:+ text) :
    doubleQuoted text (offsetOf text cs) = .ok ((quotedName? cs).map (locate text)) := by
  rw [doubleQuoted, eatChar_offsetOf h, ok_bind]
  cases hopened : after? ['"'] cs with
  | none =>
    have hnone : quotedName? cs = none := by
      unfold quotedName?
      split
      · next ds => cases hopened
      · rfl
    rw [hnone]
    rfl
  | some ds =>
    obtain rfl : cs = '"' :: ds := after?_eq_some_iff.mp hopened
    have hds : ds <:+ text := (List.suffix_cons '"' ds).trans h
    have hrest := List.dropWhile_suffix (fun c => c != '"' && c != '\n') (l := ds)
    simp only [Bool.not_true, Bool.false_eq_true, if_false, eatWhile_offsetOf hds, ok_bind,
      eatChar_offsetOf (hrest.trans hds), pure_eq_ok, quotedName?]
    cases hclosed : ds.dropWhile (fun c => c != '"' && c != '\n') with
    | nil => rfl
    | cons c rest =>
      by_cases hc : c = '"'
      · simp [after?, hc, locate]
      · simp [after?, hc]

end RailsSchema.Offset
