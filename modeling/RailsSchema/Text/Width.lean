import RailsSchema.Text.EmojiSequence
import RailsSchema.Text.Ligature

/-!
# Display width

How many columns of a terminal a text takes. Mostly these are the columns of its characters
(`charColumns`), but a picture made of several characters takes two in all, a ligature takes one, a
line break made of two characters takes one, and a selector can change the form of the character
before it. `columns` goes through a text from its end, since what a character adds depends on what
follows it: `Following` is as much of that as can matter, and `addColumns` the step over one
character.
-/

namespace RailsSchema.Text

/-- A character that chooses between forms of the character before it. -/
inductive Selector where
  /-- Chooses the form as a picture. -/
  | emoji
  /-- Chooses the plain form of a picture. -/
  | text
  /-- Chooses the wide form of a quotation mark. -/
  | wide
  deriving DecidableEq, Repr

/-- The selector that a character is. -/
def Selector.ofChar? (c : Char) : Option Selector :=
  match c with
  | '\uFE0F' => some .emoji
  | '\uFE0E' => some .text
  | '\uFE01' => some .wide
  | _ => none

/-- What characters before a text can join. -/
inductive Sequence where
  /-- Nothing. -/
  | plain
  /-- A line feed. -/
  | lineFeed
  /-- A picture. -/
  | emoji (part : EmojiSequence)
  /-- A ligature. -/
  | ligature (part : Ligature)
  deriving DecidableEq, Repr

namespace Sequence

/-- What the characters before a character can join. -/
def ofChar (c : Char) : Sequence :=
  if c = '\n' then .lineFeed
  else if c.toNat ≤ 0xA0 then .plain
  else
    match EmojiSequence.ofChar? c, Ligature.ofChar? c with
    | some part, _ => .emoji part
    | none, some part => .ligature part
    | none, none => .plain

/-- Whether a picture before a text takes no columns of its own. -/
def isJoined : Sequence → Bool
  | .emoji part => part.isJoined
  | _ => false

/-- Whether a selector before a text leaves alone what characters before it can join. -/
def admits : Sequence → Selector → Bool
  | .ligature part, _ => part.admitsSelectors
  | .emoji part, .emoji => part.isJoined
  | _, _ => false

end Sequence

/-- What the columns of a character can depend on in the text after it: what the character can join,
and the selectors that have been met and not yet been used, each once. -/
structure Following where
  sequence : Sequence
  selectors : List Selector := []
  deriving DecidableEq, Repr

namespace Following

/-- Nothing that matters. -/
def plain : Following := { sequence := .plain }

/-- What follows once a selector has been met. Where it leaves a sequence alone it joins the
selectors met before; elsewhere it takes the place of all that. -/
def select (after : Following) (selector : Selector) : Following :=
  if after.sequence.admits selector then
    { after with selectors := after.selectors.insert selector }
  else { sequence := .plain, selectors := [selector] }

/-- What follows a character that has no other form for a selector to choose: if the selector has
been met it is passed over, and only a ligature goes on across it. -/
def passOver (after : Following) (selector : Selector) : Following :=
  if selector ∈ after.selectors then
    match after.sequence with
    | .ligature _ => { after with selectors := after.selectors.erase selector }
    | _ => plain
  else after

end Following

/-- The columns of a character that joins nothing after it, and what it is to the text before it. -/
def addAlone (c : Char) : Int × Following :=
  match Selector.ofChar? c with
  | some selector => (0, Following.plain.select selector)
  | none => (charColumns c, { sequence := .ofChar c })

/-- The columns of a character before what it can join, where no selector changes it. -/
def addUnselected (c : Char) (sequence : Sequence) : Int × Following :=
  match sequence with
  | .ligature part =>
    if part.isOpen && c = joiner then (0, { sequence := .ligature part.join })
    else if part.isOpen && ignorableMarkRanges.has c then (0, { sequence := .ligature part })
    else
      match part.add? c with
      | some (added, some more) => (added, { sequence := .ligature more })
      | some (added, none) => (added, .plain)
      | none => addAlone c
  | .emoji part =>
    match part.add? c with
    | some (added, more) => (added, { sequence := .emoji more })
    | none => addAlone c
  | _ => addAlone c

/-- Whether a character is a quotation mark with a wide form. -/
def isQuotation (c : Char) : Bool :=
  c = '\u2018' || c = '\u2019' || c = '\u201C' || c = '\u201D'

/-- The columns of a character beyond U+00A0 that is not selected as a picture. -/
def addSelected (c : Char) (after : Following) : Int × Following :=
  match Selector.ofChar? c with
  | some selector => (0, after.select selector)
  | none =>
    if .text ∈ after.selectors && isDeselectable c then (1, .plain)
    else if .wide ∈ after.selectors && isQuotation c then (2, .plain)
    else addUnselected c ((after.passOver .text).passOver .wide).sequence

/-- The columns that a character adds to the text after it, and what it is to the text before it. -/
def addColumns (c : Char) (after : Following) : Int × Following :=
  if .emoji ∈ after.selectors && isSelectable c then
    (if after.sequence.isJoined then 0 else 2, { sequence := .emoji .picture })
  else
    let after := after.passOver .emoji
    if 0xA0 < c.toNat then addSelected c after
    else if c = '\r' && after.sequence = .lineFeed then (0, .plain)
    else (1, { sequence := .ofChar c })

/-- The columns of a text, and what it is to a text before it. -/
def columnsFrom (cs : List Char) : Int × Following :=
  cs.foldr
    (fun c after =>
      let (added, following) := addColumns c after.2
      (added + after.1, following))
    (0, .plain)

theorem columnsFrom_cons (c : Char) (cs : List Char) :
    columnsFrom (c :: cs) =
      ((addColumns c (columnsFrom cs).2).1 + (columnsFrom cs).1,
        (addColumns c (columnsFrom cs).2).2) := rfl

theorem addColumns_dash : addColumns '-' .plain = (1, .plain) := by decide

theorem columnsFrom_replicate_dash (n : Nat) :
    columnsFrom (List.replicate n '-') = ((n : Int), .plain) := by
  induction n with
  | zero => rfl
  | succ n ih =>
    simp only [List.replicate_succ, columnsFrom_cons, ih, addColumns_dash]
    rw [Int.natCast_succ, Int.add_comm]

/-- The number of columns that a text takes. -/
def columns (text : String) : Nat := (columnsFrom text.toList).1.toNat

/-- A rule of dashes is as wide as it is long. -/
theorem columns_replicate_dash (n : Nat) : columns (String.ofList (List.replicate n '-')) = n := by
  simp [columns, columnsFrom_replicate_dash]

end RailsSchema.Text
