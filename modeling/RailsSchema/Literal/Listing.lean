import RailsSchema.Literal.Read

/-!
# Values and option lists

`parseValue` reads the value at an offset of a text. `parseArray` and `parseOptions` read the whole
text of a list or of an option map, its outer brackets being optional: one bracket in front and its
partner at the end are taken off before reading, whether or not they belong together. The values
come with the cuts that reading met, so a text can be read and what was dropped be reported.
-/

namespace RailsSchema

open Text

/-- The items written in a text. -/
def Literal.arrayText (settings : Settings) (text : String) : Listing Literal :=
  items settings.maxDepth (stripOuter '[' ']' (trim text.toList))

/-- The entries written in a text. -/
def Literal.hashText (settings : Settings) (text : String) : Listing (String × Literal) :=
  entries settings.maxDepth (stripOuter '\x7b' '\x7d' (trim text.toList))

/-- The value of the literal that begins at byte `start` of a text, after white space, and the byte
offset at which it ends. -/
def parseValue (settings : Settings) (text : List Char) (start : Nat) :
    Except OffsetError (Option (Value × Nat)) :=
  (Literal.readAt settings.maxDepth text start).map
    (Option.map fun found => (found.1.value settings.arrayFilter, found.2))

/-- The values of the list written in a text, up to the first item that cannot be read. -/
def parseArray (settings : Settings) (text : String) : List Value :=
  Literal.itemValues settings.arrayFilter (Literal.arrayText settings text).items

/-- The option map written in a text, up to the first entry that cannot be read. -/
def parseOptions (settings : Settings) (text : String) : Options :=
  OrderedMap.ofEntries
    (Literal.entryValues settings.arrayFilter (Literal.hashText settings text).items)

/-- The cuts met in reading the list written in a text. -/
def arrayCuts (settings : Settings) (text : String) : List Cut :=
  let listing := Literal.arrayText settings text
  Literal.itemCuts listing.items ++ listing.cut.toList

/-- The cuts met in reading the option map written in a text. -/
def optionCuts (settings : Settings) (text : String) : List Cut :=
  let listing := Literal.hashText settings text
  Literal.entryCuts listing.items ++ listing.cut.toList

end RailsSchema
