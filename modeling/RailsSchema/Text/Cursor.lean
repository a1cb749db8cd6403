import RailsSchema.Text.Offset
import RailsSchema.Text.Scan

/-!
# Cursors

A cursor is a byte offset into a text. It may stand anywhere: `Cursor.rest` refuses an offset that
is no place of the text, and so does every step, while the offset itself and the test for the end
can always be asked for. What a step consumes (`Step.taken`) and what it reports (`Step.report`) are
functions of the characters after the cursor alone.
-/

namespace RailsSchema.Text

/-- A byte offset into a text. -/
structure Cursor where
  /-- The whole text. -/
  text : List Char
  /-- The number of bytes before the cursor. -/
  pos : Nat

namespace Cursor

/-- The characters after the cursor. -/
def rest (cursor : Cursor) : Except OffsetError (List Char) := dropBytes cursor.pos cursor.text

/-- Whether no byte of the text follows the cursor. -/
def isAtEnd (cursor : Cursor) : Bool := byteLength cursor.text ≤ cursor.pos

/-- The cursor after some more characters. -/
def advance (cursor : Cursor) (taken : List Char) : Cursor :=
  { cursor with pos := cursor.pos + byteLength taken }

/-- The cursor before the last characters `rest` of its text. -/
def before (cursor : Cursor) (rest : List Char) : Cursor :=
  { cursor with pos := byteLength cursor.text - byteLength rest }

/-- One step of a cursor. -/
inductive Step where
  /-- Shows all that follows. -/
  | rest
  /-- Shows the next character. -/
  | peek
  /-- Takes the next character. -/
  | bump
  /-- Takes the given text if it comes next. -/
  | eat (expected : List Char)
  /-- Takes the given character if it comes next. -/
  | eatChar (expected : Char)
  /-- Takes the characters of a class. -/
  | eatWhile (p : Char → Bool)
  /-- Takes white space. -/
  | skipBlanks
  /-- Takes white space up to the end of the line. -/
  | skipInlineBlanks
  /-- Takes all that is left of the line. -/
  | lineRest

/-- What a step says about the text. -/
inductive Report where
  | text (shown : List Char)
  | char (shown : Option Char)
  | flag (holds : Bool)
  deriving DecidableEq, Repr

/-- What a step consumes of the characters after the cursor. -/
def Step.taken : Step → List Char → List Char
  | .rest, _ => []
  | .peek, _ => []
  | .bump, cs => cs.take 1
  | .eat expected, cs => if expected.isPrefixOf cs then expected else []
  | .eatChar expected, cs => if cs.head? = some expected then [expected] else []
  | .eatWhile p, cs => cs.takeWhile p
  | .skipBlanks, cs => cs.takeWhile isBlank
  | .skipInlineBlanks, cs => cs.takeWhile isInlineBlank
  | .lineRest, cs => line cs

/-- What a step reports of the characters after the cursor. -/
def Step.report : Step → List Char → Report
  | .rest, cs => .text cs
  | .peek, cs => .char cs.head?
  | .bump, cs => .char cs.head?
  | .eat expected, cs => .flag (expected.isPrefixOf cs)
  | .eatChar expected, cs => .flag (cs.head? == some expected)
  | .eatWhile p, cs => .text (cs.takeWhile p)
  | .skipBlanks, cs => .flag (!(cs.takeWhile isBlank).isEmpty)
  | .skipInlineBlanks, cs => .flag (!(cs.takeWhile isInlineBlank).isEmpty)
  | .lineRest, cs => .text (line cs)

/-- Takes one step. -/
def step (cursor : Cursor) (s : Step) : Except OffsetError (Report × Cursor) := do
  let cs ← cursor.rest
  return (s.report cs, cursor.advance (s.taken cs))

end Cursor

end RailsSchema.Text
