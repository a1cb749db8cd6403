import RailsSchema.Text.Site

/-!
# Table blocks

A table block is `create_table "name", options do |t|`, a body and `end`. The options run to the
first `do` on the line of the name that opens the block; the `|t|` may stand on a later line. The
body runs to the first `end` with white space or an edge of the text on both sides. Blocks do not
overlap: what lies inside a block, up to its `end`, begins no other.
-/

namespace RailsSchema

open Text

/-- A table block and the bytes that it covers. -/
structure TableBlock where
  /-- The byte offset of the keyword. -/
  start : Nat
  /-- The byte offset of the `end` that closes the block. -/
  stop : Nat
  name : String
  /-- The text between the name and the `do`. -/
  options : String
  /-- The statements of the block, without white space around them. -/
  body : String
  deriving DecidableEq, Repr

namespace TableBlock

/-- The keyword of table blocks. -/
def keyword : String := "create_table"

/-- The text after `do |t|` and white space, if that is what comes next. -/
def afterOpener? (cs : List Char) : Option (List Char) := do
  let parameter ← after? ['d', 'o'] cs
  let body ← after? ['|', 't', '|'] (trimStart parameter)
  return trimStart body

/-- The text from the first `do` on this line that opens a block, and the text of the body. -/
def opener? : List Char → Option (List Char × List Char)
  | [] => none
  | c :: cs =>
    if c = '\n' then none
    else
      match afterOpener? (c :: cs) with
      | some body => some (c :: cs, body)
      | none => opener? cs

/-- Whether the character beside an `end`, if there is one, leaves the word standing alone. -/
def isGap : Option Char → Bool
  | none => true
  | some c => isBlank c

/-- Whether a text begins with an `end` that stands alone, given the character before it. -/
def isClosing (before : Option Char) (cs : List Char) : Bool :=
  isGap before &&
    match after? ['e', 'n', 'd'] cs with
    | some rest => isGap rest.head?
    | none => false

/-- The text from the first `end` that stands alone. -/
def closing? : (before : Option Char) → List Char → Option (List Char)
  | _, [] => none
  | before, c :: cs => if isClosing before (c :: cs) then some (c :: cs) else closing? (some c) cs

/-- The block whose keyword stands at a place. -/
def at? (site : Site) : Option TableBlock := do
  let (name, behind) ← quotedName? (← skipSome? isBlank site.rest)
  let options := skipComma behind
  let (opener, body) ← opener? options
  let closing ← closing? none body
  return {
    start := site.start
    stop := site.start + keyword.utf8ByteSize + byteLength (upTo site.rest closing)
    name := String.ofList name
    options := String.ofList (upTo options opener)
    body := String.ofList (trimEnd (upTo body closing)) }

/-- The blocks at some places, leaving out a place that lies before byte `resume`. -/
def atSites : (resume : Nat) → List Site → List TableBlock
  | _, [] => []
  | resume, site :: sites =>
    if site.start < resume then atSites resume sites
    else
      match at? site with
      | none => atSites resume sites
      | some block => block :: atSites block.stop sites

/-- The table blocks of a text, in order. -/
def all (text : String) : List TableBlock := atSites 0 (sites keyword text.toList)

end TableBlock

end RailsSchema
