import RailsSchema.Text.Emoji

/-!
# Emoji sequences

Several characters can make one picture: a picture and its skin tone, two flag letters, pictures
with joiners between them, a black flag with the tags of a region. An `EmojiSequence` is what has
been met of a picture by going through a text from its end, and `EmojiSequence.add?` tells which
characters before it belong to it as well. What a picture joins on its left adds no columns to it.
-/

namespace RailsSchema.Text

/-- What has been met of a picture. -/
inductive EmojiSequence where
  /-- A whole picture. -/
  | picture
  /-- A skin tone that no picture has taken yet. -/
  | skinTone
  /-- A flag letter. -/
  | flagLetter
  /-- Two flag letters or more. -/
  | flag
  /-- A joiner before a picture. -/
  | joined
  /-- A key before a joiner. -/
  | joinedKeycap
  /-- A flag letter before a joiner. -/
  | joinedFlagLetter
  /-- Flags of two letters before a joiner. -/
  | joinedFlag
  /-- Flags of two letters before a joiner, and one letter before them. -/
  | joinedFlagAndLetter
  /-- The end of tags before a joiner, with so many of their last letters and, before these, of
  their digits. -/
  | joinedTags (letters digits : Nat)
  deriving DecidableEq, Repr

namespace EmojiSequence

/-- What of a picture a character by itself is. -/
def ofChar? (c : Char) : Option EmojiSequence :=
  if isEmoji c then some .picture
  else if isSkinTone c then some .skinTone
  else if isFlagLetter c then some .flagLetter
  else none

/-- Whether a joiner ties what is before it to a sequence. -/
def takesJoiner : EmojiSequence → Bool
  | .picture | .skinTone | .flag | .joinedFlag | .joinedFlagAndLetter => true
  | _ => false

/-- Whether what is before a sequence, if it is a picture, takes no columns of its own. -/
def isJoined : EmojiSequence → Bool
  | .joined | .joinedKeycap => true
  | _ => false

/-- The columns that a character before tags adds to them, and what has been met then. The tags
after a black flag are three to six letters, or three digits and at most four letters. -/
def addTag? (letters digits : Nat) (c : Char) : Option (Int × EmojiSequence) :=
  if isTagLetter c && digits = 0 && letters < 6 then some (0, .joinedTags (letters + 1) 0)
  else if isTagDigit c && (if digits = 0 then letters ≤ 4 else digits < 3) then
    some (0, .joinedTags letters (digits + 1))
  else if c = blackFlag && (if digits = 0 then 3 ≤ letters else digits = 3) then some (0, .picture)
  else none

/-- The columns that a character before a sequence adds to it, and what has been met then; `none`
where the character is no part of the sequence.

A flag letter before a joiner takes a column and the second takes it back, since a flag that is
joined adds nothing. A third takes three: its own, and two for the flag that now stands after it by
itself. -/
def add? (sequence : EmojiSequence) (c : Char) : Option (Int × EmojiSequence) :=
  if sequence.takesJoiner && c = joiner then some (0, .joined)
  else
    match sequence with
    | .skinTone => if takesSkinTone c then some (0, .picture) else none
    | .flagLetter | .flag => if isFlagLetter c then some (1, .flag) else none
    | .joined =>
      if c = keycap then some (0, .joinedKeycap)
      else if isFlagLetter c then some (1, .joinedFlagLetter)
      else if isSkinTone c then some (0, .skinTone)
      else if c = tagEnd then some (0, .joinedTags 0 0)
      else if isEmoji c then some (0, .picture)
      else none
    | .joinedFlagLetter | .joinedFlagAndLetter =>
      if isFlagLetter c then some (-1, .joinedFlag) else none
    | .joinedFlag => if isFlagLetter c then some (3, .joinedFlagAndLetter) else none
    | .joinedTags letters digits => addTag? letters digits c
    | .picture | .joinedKeycap => none

end EmojiSequence

end RailsSchema.Text
