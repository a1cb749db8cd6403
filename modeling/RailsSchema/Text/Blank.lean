import RailsSchema.Text.Alphabetic

/-!
# White space and words

The two character classes that schema statements are cut by. A word is a run of letters, numbers
and underscores; white space is any character with the Unicode property White_Space, and inline
white space is white space that does not end the line.
-/

namespace RailsSchema.Text

/-- The white space characters. -/
def blankRanges : Ranges :=
  [(0x9, 0xD), (0x20, 0x20), (0x85, 0x85), (0xA0, 0xA0), (0x1680, 0x1680), (0x2000, 0x200A),
   (0x2028, 0x2029), (0x202F, 0x202F), (0x205F, 0x205F), (0x3000, 0x3000)]

/-- Whether a character is white space. -/
def isBlank (c : Char) : Bool := blankRanges.has c

/-- Whether a character is white space other than a line break. -/
def isInlineBlank (c : Char) : Bool := isBlank c && c != '\n'

/-- Whether a character can be part of a word. -/
def isWordChar (c : Char) : Bool := isAlphanumeric c || c == '_'

/-- Whether a character ends one item of a list and begins the next. -/
def isSeparator (c : Char) : Bool := isBlank c || c == ','

theorem isBlank_of_isInlineBlank {c : Char} (h : isInlineBlank c = true) : isBlank c = true := by
  simp only [isInlineBlank, Bool.and_eq_true] at h
  exact h.1

theorem isSeparator_of_isBlank {c : Char} (h : isBlank c = true) : isSeparator c = true := by
  simp [isSeparator, h]

theorem not_isInlineBlank_newline : isInlineBlank '\n' = false := by
  simp [isInlineBlank]

end RailsSchema.Text
