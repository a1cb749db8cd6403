import RailsSchema.Text.Scan
import RailsSchema.Text.Uppercase

/-!
# English singulars

Table names are plurals; the default column of a foreign key is named after one thing of the table.
`singular` brings the last segment of a name into the singular: by a list of words that have no
plural, by a list of irregular plurals, and else by its ending. The spelling in capitals or with a
capital carries over.

The rules look at a copy in ASCII lower case, which has the same characters in the same places.
Capitals are put in only where the tables below supply letters, and these are ASCII: what is kept
of a word in capitals has none but capital letters already.
-/

namespace RailsSchema

open Text

namespace English

/-- Words that are their own plural. -/
def uncountable : List String :=
  ["equipment", "information", "rice", "money", "species", "series", "fish", "sheep", "jeans",
   "news", "police", "metadata", "data"]

/-- Irregular plurals and their singulars. -/
def irregular : List (String × String) :=
  [("people", "person"), ("men", "man"), ("women", "woman"), ("children", "child"),
   ("sexes", "sex"), ("moves", "move"), ("zombies", "zombie"), ("mice", "mouse"),
   ("geese", "goose"), ("teeth", "tooth"), ("feet", "foot"), ("oxen", "ox"),
   ("indices", "index"), ("matrices", "matrix"), ("vertices", "vertex"),
   ("criteria", "criterion"), ("analyses", "analysis"), ("statuses", "status"),
   ("aliases", "alias"), ("buses", "bus"), ("quizzes", "quiz"), ("wolves", "wolf"),
   ("halves", "half"), ("shelves", "shelf"), ("knives", "knife"), ("lives", "life"),
   ("wives", "wife"), ("heroes", "hero"), ("potatoes", "potato"), ("tomatoes", "tomato"),
   ("movies", "movie"), ("cookies", "cookie")]

/-- Endings of plurals and what the singular has instead; the first that fits counts. -/
def endings : List (String × String) :=
  [("ies", "y"), ("sses", "ss"), ("shes", "sh"), ("ches", "ch"), ("xes", "x"), ("ss", "ss"),
   ("us", "us"), ("is", "is"), ("s", "")]

/-- What stands before the ending of a word. -/
def stem? (ending word : List Char) : Option (List Char) :=
  (after? ending.reverse word.reverse).map List.reverse

theorem stem?_eq_some_iff {ending word stem : List Char} :
    stem? ending word = some stem ↔ word = stem ++ ending := by
  rw [stem?, Option.map_eq_some_iff]
  simp only [after?_eq_some_iff]
  constructor
  · rintro ⟨rest, hword, rfl⟩
    have h := congrArg List.reverse hword
    simpa using h
  · rintro rfl
    exact ⟨stem.reverse, by simp, by simp⟩

/-- The vowels. -/
def vowels : List Char := ['a', 'e', 'i', 'o', 'u']

/-- Whether a character is an ASCII letter and no vowel. -/
def isConsonant (c : Char) : Bool := c.isAlpha && !vowels.contains c

/-- Whether a word in lower case ends in `uses` after a consonant, as the plural of a noun in `us`
does and that of a noun in `use` mostly does not. -/
def isPluralOfUs (lower : List Char) : Bool :=
  match stem? "uses".toList lower with
  | some stem => (stem.getLast?.map isConsonant).getD false
  | none => false

/-- Gives a text the case of a word: capitals if the word has letters and all are capitals, and a
capital in front if the word has one there. -/
def withCaseOf (word text : List Char) : List Char :=
  let letters := word.filter isAlphabetic
  if !letters.isEmpty && letters.all isUppercase then text.map Char.toUpper
  else
    match word, text with
    | first :: _, head :: others =>
      if isUppercase first then head.toUpper :: others else text
    | _, _ => text

/-- The word with a new ending, if it has the old one and more. -/
def replaceEnding? (word lower : List Char) (ending : String × String) : Option (List Char) :=
  match stem? ending.1.toList lower with
  | none => none
  | some [] => none
  | some stem => some (withCaseOf word (word.take stem.length ++ ending.2.toList))

/-- The singular of a word that has no segments. -/
def singularWord (word : List Char) : List Char :=
  let lower := word.map Char.toLower
  if uncountable.any (·.toList == lower) then word
  else
    match irregular.find? fun entry => entry.1.toList == lower with
    | some entry => withCaseOf word entry.2.toList
    | none =>
      if isPluralOfUs lower then word.dropLast.dropLast
      else (endings.findSome? (replaceEnding? word lower)).getD word

/-- The last segment of a name in which underscores part the segments. -/
def lastSegment (name : List Char) : List Char := (name.reverse.takeWhile (· != '_')).reverse

/-- The singular of a name: that of its last segment behind the segments before it. A name that
ends in an underscore is taken as one word. -/
def singular (name : String) : String :=
  let last := lastSegment name.toList
  let word := if last.isEmpty then name.toList else last
  String.ofList (upTo name.toList word ++ singularWord word)

end English

end RailsSchema
