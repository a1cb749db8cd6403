import RailsSchema.Literal.Scalar
import RailsSchema.Literal.Key

/-!
# Reading literals

`Literal.reader room` reads any literal, with lists and maps nested at most `room` deep. A list or a
map is first taken off the text as a bracketed group, so a bracket without a partner makes no
literal; the text between the brackets is then read by itself with one level of nesting less.
`Literal.items` and `Literal.entries` read a text that has no brackets around it.
-/

namespace RailsSchema.Literal

open Text

/-- An entry of an option map: a key and the literal behind it. -/
def entryReader (reader : Reader Literal) : Reader (String × Literal) where
  run cs := do
    let (key, behind) ← key? cs
    let (literal, rest) ← reader.run behind
    return ((String.ofList key, literal), rest)
  isProperEnd {cs rest entry} h := by
    simp only [Option.bind_eq_bind, Option.bind_eq_some_iff] at h
    obtain ⟨⟨key, behind⟩, hk, ⟨literal, rest'⟩, hl, heq⟩ := h
    cases heq
    exact (reader.isProperEnd hl).trans (isProperEnd_of_key? hk)

/-- What is missing where no item of a list can be read. -/
def itemCut (cs : List Char) : Cut := .item (String.ofList cs)

/-- What is missing where no entry of a map can be read. -/
def entryCut (cs : List Char) : Cut :=
  match key? cs with
  | none => .key (String.ofList cs)
  | some (key, behind) => .value (String.ofList key) (String.ofList behind)

/-- The items of a list without its brackets. -/
def itemsWith (reader : Reader Literal) (cs : List Char) : Listing Literal :=
  reader.listing itemCut cs

/-- The entries of an option map without its braces. -/
def entriesWith (reader : Reader Literal) (cs : List Char) : Listing (String × Literal) :=
  (entryReader reader).listing entryCut cs

/-- The list or the map that a group holds. -/
def ofGroup (reader : Reader Literal) (group : Group) : Literal :=
  match group.bracket with
  | .square =>
    let items := itemsWith reader group.inner
    .array items.items items.cut
  | .curly =>
    let entries := entriesWith reader group.inner
    .hash entries.items entries.cut

/-- Reads a list or a map whose contents `reader` reads. -/
def nested? (reader : Reader Literal) (cs : List Char) : Option (Literal × List Char) :=
  (group? cs).map fun group => (ofGroup reader group, group.rest)

/-- Reads the literal at the front of a text, lists and maps being read by `inBrackets`. -/
def form? (inBrackets : List Char → Option (Literal × List Char)) :
    List Char → Option (Literal × List Char)
  | [] => none
  | c :: cs =>
    if (Bracket.ofOpening? c).isSome then inBrackets (c :: cs) else scalar? (c :: cs)

theorem isProperEnd_of_form? {inBrackets : List Char → Option (Literal × List Char)}
    {cs rest : List Char} {l : Literal}
    (hb : ∀ {ds}, inBrackets ds = some (l, rest) → IsProperEnd rest ds)
    (h : form? inBrackets cs = some (l, rest)) : IsProperEnd rest cs := by
  cases cs with
  | nil => cases h
  | cons c cs =>
    simp only [form?] at h
    split at h
    · exact hb h
    · exact isProperEnd_of_scalar? h

theorem isProperEnd_of_nested? {reader : Reader Literal} {cs rest : List Char} {l : Literal}
    (h : nested? reader cs = some (l, rest)) : IsProperEnd rest cs := by
  simp only [nested?, Option.map_eq_some_iff] at h
  obtain ⟨group, hg, heq⟩ := h
  cases heq
  exact Group.isProperEnd_rest hg

/-- Reads a literal after white space, with lists and maps nested at most `room` deep. -/
def reader : (room : Nat) → Reader Literal
  | 0 =>
    { run := fun cs => form? (fun _ => none) (trimStart cs)
      isProperEnd := fun {cs _ _} h =>
        (isProperEnd_of_form? (fun h => by cases h) h).trans_suffix (trimStart_suffix cs) }
  | room + 1 =>
    { run := fun cs => form? (nested? (reader room)) (trimStart cs)
      isProperEnd := fun {cs _ _} h =>
        (isProperEnd_of_form? isProperEnd_of_nested? h).trans_suffix (trimStart_suffix cs) }

/-- The literal at the front of a text after white space, and what follows it. -/
def read? (room : Nat) (cs : List Char) : Option (Literal × List Char) := (reader room).run cs

/-- The items of a list without its brackets, nested at most `room` deep. -/
def items (room : Nat) (cs : List Char) : Listing Literal := itemsWith (reader room) cs

/-- The entries of a map without its braces, nested at most `room` deep. -/
def entries (room : Nat) (cs : List Char) : Listing (String × Literal) :=
  entriesWith (reader room) cs

theorem read?_zero (cs : List Char) : read? 0 cs = form? (fun _ => none) (trimStart cs) := rfl

theorem read?_succ (room : Nat) (cs : List Char) :
    read? (room + 1) cs = form? (nested? (reader room)) (trimStart cs) := rfl

theorem isProperEnd_of_read? {room : Nat} {cs rest : List Char} {l : Literal}
    (h : read? room cs = some (l, rest)) : IsProperEnd rest cs :=
  (reader room).isProperEnd h

/-- The literal that begins at byte `start` of a text, after white space, and the byte offset at
which it ends. -/
def readAt (room : Nat) (text : List Char) (start : Nat) :
    Except OffsetError (Option (Literal × Nat)) := do
  let cursor : Cursor := ⟨text, start⟩
  let cs ← cursor.rest
  return (read? room cs).map fun found => (found.1, (cursor.before found.2).pos)

end RailsSchema.Literal
