import RailsSchema.Text.CharWidth
import RailsSchema.Text.Emoji

/-!
# Ligatures

In some scripts certain letters, when they meet, are written as one sign, which takes the columns
of one. A `Ligature` is what has been met of such a sign by going through a text from its end, and
`Ligature.add?` tells which characters before it belong to the sign as well, and what they add to
its columns. Except in Kirat Rai, marks that are to be ignored in display may stand between the
parts, and except in Kirat Rai and Arabic the joiner may.
-/

namespace RailsSchema.Text

/-- What has been met of a ligature. -/
inductive Ligature where
  /-- An Arabic alef, which a lam before it takes up. -/
  | alef
  /-- A Hebrew lamed, with a joiner before it or not; the joiner ties it to an alef. -/
  | lamed (joined : Bool)
  /-- A Buginese ya, with a joiner before it or not; the joiner ties it to the vowel i. -/
  | ya (joined : Bool)
  /-- The Buginese vowel i before a joined ya, which the letter a takes up. -/
  | vowelAndYa
  /-- A Tifinagh consonant, with a joiner before it or not. -/
  | consonant (joined : Bool)
  /-- A Tifinagh consonant with the joiner of that script before it. -/
  | joinedConsonant
  /-- A Lisu tone letter that can be the second of two. -/
  | toneLetter
  /-- The Old Turkic letter i, with a joiner before it or not; the joiner ties it to an ec. -/
  | orkhonI (joined : Bool)
  /-- A Khmer letter that the sign coeng before it puts under the letter before that. -/
  | coengLetter
  /-- The Kirat Rai vowel e. -/
  | vowelE
  /-- The Kirat Rai vowel ai, written as one character or as e twice. -/
  | vowelAi
  deriving DecidableEq, Repr

/-- Arabic alefs. -/
def alefRanges : Ranges :=
  [(0x622, 0x623), (0x625, 0x625), (0x627, 0x627), (0x671, 0x673), (0x675, 0x675),
   (0x773, 0x774), (0x870, 0x882)]

/-- Arabic lams. -/
def lamRanges : Ranges :=
  [(0x644, 0x644), (0x6B5, 0x6B8), (0x76A, 0x76A), (0x8A6, 0x8A6), (0x8C7, 0x8C7)]

/-- Khmer letters that have a form under another letter which adds no width. -/
def coengRanges : Ranges :=
  [(0x1780, 0x1782), (0x1784, 0x1787), (0x1789, 0x178C), (0x178E, 0x1793), (0x1795, 0x1798),
   (0x179B, 0x179D), (0x17A0, 0x17A0), (0x17A2, 0x17A2), (0x17A7, 0x17A7), (0x17AB, 0x17AC),
   (0x17AF, 0x17AF)]

/-- Tifinagh consonants. -/
def tifinaghRanges : Ranges := [(0x2D31, 0x2D65), (0x2D6F, 0x2D6F)]

/-- Marks that are to be ignored in display. -/
def ignorableMarkRanges : Ranges :=
  [(0x34F, 0x34F), (0x17B4, 0x17B5), (0x180B, 0x180D), (0x180F, 0x180F), (0xFE00, 0xFE0F),
   (0xE0100, 0xE01EF)]

/-- Characters without a column that keep two Arabic letters apart nevertheless. -/
def partingRanges : Ranges :=
  [(0x605, 0x605), (0x890, 0x891), (0x8E2, 0x8E2), (0x9BE, 0x9BE), (0x9D7, 0x9D7),
   (0xB3E, 0xB3E), (0xB57, 0xB57), (0xBBE, 0xBBE), (0xBD7, 0xBD7), (0xCC0, 0xCC0),
   (0xCC2, 0xCC2), (0xCC7, 0xCC8), (0xCCA, 0xCCB), (0xCD5, 0xCD6), (0xD3E, 0xD3E),
   (0xD4E, 0xD4E), (0xD57, 0xD57), (0xDCF, 0xDCF), (0xDDF, 0xDDF), (0x1160, 0x11FF),
   (0x1715, 0x1715), (0x1734, 0x1734), (0x180E, 0x180E), (0x1B35, 0x1B35), (0x1B3B, 0x1B3B),
   (0x1B3D, 0x1B3D), (0x1B43, 0x1B44), (0x1BAA, 0x1BAA), (0x1BF2, 0x1BF3), (0x200C, 0x200D),
   (0x2065, 0x2069), (0x302E, 0x302F), (0x3164, 0x3164), (0xA8FA, 0xA8FA), (0xA953, 0xA953),
   (0xA9C0, 0xA9C0), (0xD7B0, 0xD7C6), (0xD7CB, 0xD7FB), (0xFFA0, 0xFFA0), (0xFFF0, 0xFFF8),
   (0x111C0, 0x111C0), (0x111C2, 0x111C3), (0x11235, 0x11235), (0x1133E, 0x1133E),
   (0x1134D, 0x1134D), (0x11357, 0x11357), (0x113B8, 0x113B8), (0x113C2, 0x113C2),
   (0x113C5, 0x113C5), (0x113C7, 0x113C9), (0x113CF, 0x113CF), (0x113D1, 0x113D1),
   (0x114B0, 0x114B0), (0x114BD, 0x114BD), (0x115AF, 0x115AF), (0x116B6, 0x116B6),
   (0x11930, 0x11930), (0x1193D, 0x1193D), (0x1193F, 0x1193F), (0x11941, 0x11941),
   (0x11A84, 0x11A89), (0x11D46, 0x11D46), (0x11F02, 0x11F02), (0x11F41, 0x11F41),
   (0x16FF0, 0x16FF1), (0x1D165, 0x1D166), (0x1D16D, 0x1D172), (0x1D250, 0x1D252),
   (0x1D25F, 0x1D25F), (0x1D280, 0x1D281), (0xE0000, 0xE0000), (0xE0002, 0xE001F),
   (0xE0080, 0xE00FF), (0xE01F0, 0xE0FFF)]

/-- Whether two Arabic letters join across a character. -/
def joinsAcross (c : Char) : Bool := isZeroWidth c && !partingRanges.has c

namespace Ligature

/-- What of a ligature a character by itself is. -/
def ofChar? (c : Char) : Option Ligature :=
  if alefRanges.has c then some .alef
  else if coengRanges.has c then some .coengLetter
  else if tifinaghRanges.has c then some (.consonant false)
  else
    match c.toNat with
    | 0x5DC => some (.lamed false)
    | 0x1A10 => some (.ya false)
    | 0xA4FC | 0xA4FD => some .toneLetter
    | 0x10C03 => some (.orkhonI false)
    | 0x16D67 => some .vowelE
    | 0x16D68 => some .vowelAi
    | _ => none

/-- What a character before a ligature adds to its columns, and what has been met of it then, which
is nothing when the sign is complete; `none` where the character is no part of the ligature.

A letter that comes under the one before it, or makes one sign with a joiner that has been counted,
takes back the column of what follows it. -/
def add? (ligature : Ligature) (c : Char) : Option (Int × Option Ligature) :=
  match ligature with
  | .alef =>
    if lamRanges.has c then some (0, none)
    else if joinsAcross c then some (0, some .alef)
    else none
  | .lamed true => if c.toNat = 0x5D0 then some (0, none) else none
  | .ya true => if c.toNat = 0x1A17 then some (0, some .vowelAndYa) else none
  | .vowelAndYa => if c.toNat = 0x1A15 then some (0, none) else none
  | .consonant joined =>
    if c = tifinaghJoiner then some (1, some .joinedConsonant)
    else if joined && tifinaghRanges.has c then some (0, none)
    else none
  | .joinedConsonant => if tifinaghRanges.has c then some (-1, none) else none
  | .toneLetter => if 0xA4F8 ≤ c.toNat && c.toNat ≤ 0xA4FB then some (0, none) else none
  | .orkhonI true => if c.toNat = 0x10C32 then some (0, none) else none
  | .coengLetter => if c.toNat = 0x17D2 then some (-1, none) else none
  | .vowelE =>
    match c.toNat with
    | 0x16D63 => some (0, none)
    | 0x16D67 => some (0, some .vowelAi)
    | 0x16D68 => some (1, some .vowelE)
    | 0x16D69 => some (0, none)
    | _ => none
  | .vowelAi => if c.toNat = 0x16D63 then some (0, none) else none
  | .lamed false | .ya false | .orkhonI false => none

/-- A ligature with a joiner before what has been met of it. -/
def join : Ligature → Ligature
  | .lamed _ => .lamed true
  | .ya _ => .ya true
  | .consonant _ => .consonant true
  | .orkhonI _ => .orkhonI true
  | ligature => ligature

/-- Whether joiners, and marks that are to be ignored in display, may stand before what has been met
of a ligature. Arabic letters have a rule of their own (`joinsAcross`). -/
def isOpen : Ligature → Bool
  | .alef | .vowelE | .vowelAi => false
  | _ => true

/-- Whether a ligature goes on across a selector. -/
def admitsSelectors : Ligature → Bool
  | .vowelE | .vowelAi => false
  | _ => true

end Ligature

end RailsSchema.Text
