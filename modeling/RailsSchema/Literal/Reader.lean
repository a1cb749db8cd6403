import RailsSchema.Text.Scan

/-!
# Readers

A reader takes a value off the front of a text, and whenever it does it uses up some of the text.
`Reader.listing` applies a reader again and again to a text whose items are parted by white space
and commas, up to the end or to the first place where nothing can be read; that place is the cut.
-/

namespace RailsSchema

open Text

/-- Takes a value off the front of a text. -/
structure Reader (α : Type) where
  /-- The value read and the text that follows it. -/
  run : List Char → Option (α × List Char)
  /-- A value takes at least one character, and what follows it is an end of the text. -/
  isProperEnd : ∀ {cs rest : List Char} {a : α}, run cs = some (a, rest) → IsProperEnd rest cs

/-- Where and why a list of items was cut short. -/
inductive Cut where
  /-- No item of a list begins here. -/
  | item (rest : String)
  /-- No key of a map begins here. -/
  | key (rest : String)
  /-- No value for the key begins here. -/
  | value (key : String) (rest : String)
  deriving DecidableEq, Repr

/-- The items read from a text, and the cut if the text was not read to its end. -/
structure Listing (α : Type) where
  items : List α
  cut : Option Cut

namespace Reader

variable {α : Type}

/-- Reads items up to the end of the text or to the first place where there is none; `cutAt` says
what is missing at such a place. -/
def listing (reader : Reader α) (cutAt : List Char → Cut) (cs : List Char) : Listing α :=
  match _hs : cs.dropWhile isSeparator with
  | [] => ⟨[], none⟩
  | c :: following =>
    match _hr : reader.run (c :: following) with
    | none => ⟨[], some (cutAt (c :: following))⟩
    | some (a, rest) =>
      let others := reader.listing cutAt rest
      ⟨a :: others.items, others.cut⟩
termination_by cs.length
decreasing_by
  have h1 := (reader.isProperEnd _hr).2
  have h2 := (List.dropWhile_suffix isSeparator (l := cs)).length_le
  rw [_hs] at h2
  omega

end Reader

end RailsSchema
