import RailsSchema.Text.Cursor

/-!
# Bracketed groups

A group is a text in brackets or braces up to the partner of its first bracket. Inside a group
brackets nest, and what stands between two equal quotes is skipped. `group?` takes a group off the
front of a text; `groupEnd?` finds the byte offset at which the group at another offset ends.
`Group.eq_text_append`: a group, with its two outer brackets, and what follows it make up the text.
-/

namespace RailsSchema.Text

/-- The two kinds of brackets. -/
inductive Bracket where
  | square
  | curly
  deriving DecidableEq, Repr

namespace Bracket

/-- The character that opens a bracket. -/
def opening : Bracket → Char
  | square => '['
  | curly => '\x7b'

/-- The character that closes a bracket. -/
def closing : Bracket → Char
  | square => ']'
  | curly => '\x7d'

/-- The bracket that a character opens. -/
def ofOpening? (c : Char) : Option Bracket :=
  if c = square.opening then some square
  else if c = curly.opening then some curly
  else none

/-- The bracket that a character closes. -/
def ofClosing? (c : Char) : Option Bracket :=
  if c = square.closing then some square
  else if c = curly.closing then some curly
  else none

theorem ofOpening?_eq_some_iff {c : Char} {b : Bracket} :
    ofOpening? c = some b ↔ c = b.opening := by
  cases b <;> simp only [ofOpening?, opening] <;> grind

theorem ofClosing?_eq_some_iff {c : Char} {b : Bracket} :
    ofClosing? c = some b ↔ c = b.closing := by
  cases b <;> simp only [ofClosing?, closing] <;> grind

end Bracket

/-- Whether a character opens and closes a quoted run. -/
def isQuote (c : Char) : Bool := c == '"' || c == '\''

/-- The text after the partner of the outermost of the `pending` brackets, innermost first, when
`quote` is the quote that stands open. -/
def afterGroup? : (pending : List Bracket) → (quote : Option Char) → List Char → Option (List Char)
  | _, _, [] => none
  | pending, some q, c :: cs =>
    if c = q then afterGroup? pending none cs else afterGroup? pending (some q) cs
  | pending, none, c :: cs =>
    match Bracket.ofOpening? c, Bracket.ofClosing? c with
    | some b, _ => afterGroup? (b :: pending) none cs
    | none, some b =>
      match pending with
      | [] => none
      | top :: below =>
        if b = top then
          if below = [] then some cs else afterGroup? below none cs
        else none
    | none, none =>
      if isQuote c then afterGroup? pending (some c) cs else afterGroup? pending none cs

/-- A group at the front of a text. -/
structure Group where
  bracket : Bracket
  /-- What stands between the outer brackets. -/
  inner : List Char
  /-- What follows the group. -/
  rest : List Char
  deriving DecidableEq, Repr

/-- Takes a group off the front of a text. -/
def group? : List Char → Option Group
  | [] => none
  | c :: cs => do
    let bracket ← Bracket.ofOpening? c
    let rest ← afterGroup? [bracket] none cs
    return ⟨bracket, (upTo cs rest).dropLast, rest⟩

/-- The byte offset just after the group that begins at byte `start`, if one does. -/
def groupEnd? (text : List Char) (start : Nat) : Except OffsetError (Option Nat) := do
  let cursor : Cursor := ⟨text, start⟩
  let cs ← cursor.rest
  return (group? cs).map fun group => (cursor.before group.rest).pos

theorem isProperEnd_of_afterGroup? {pending : List Bracket} {quote : Option Char}
    {cs rest : List Char} (h : afterGroup? pending quote cs = some rest) : IsProperEnd rest cs := by
  fun_induction afterGroup? pending quote cs with
  | case1 => cases h
  | case2 _ _ _ ih => exact (ih h).cons _
  | case3 _ _ _ _ _ ih => exact (ih h).cons _
  | case4 _ _ _ _ _ ih => exact (ih h).cons _
  | case5 => cases h
  | case6 =>
    cases h
    exact .of_suffix (List.suffix_refl _) _
  | case7 _ _ _ _ _ _ _ ih => exact (ih h).cons _
  | case8 => cases h
  | case9 _ _ _ _ _ _ ih => exact (ih h).cons _
  | case10 _ _ _ _ _ _ ih => exact (ih h).cons _

/-- What is scanned ends with the partner of the outermost pending bracket. -/
theorem exists_of_afterGroup? {pending : List Bracket} {quote : Option Char} {cs rest : List Char}
    (hp : pending ≠ []) (h : afterGroup? pending quote cs = some rest) :
    ∃ inner, cs = inner ++ (pending.getLast hp).closing :: rest := by
  fun_induction afterGroup? pending quote cs with
  | case1 => cases h
  | case2 _ c _ ih =>
    obtain ⟨inner, hi⟩ := ih hp h
    exact ⟨c :: inner, by rw [hi, List.cons_append]⟩
  | case3 _ _ c _ _ ih =>
    obtain ⟨inner, hi⟩ := ih hp h
    exact ⟨c :: inner, by rw [hi, List.cons_append]⟩
  | case4 _ c _ b _ ih =>
    obtain ⟨inner, hi⟩ := ih (by simp) h
    exact ⟨c :: inner, by rw [hi, List.getLast_cons hp, List.cons_append]⟩
  | case5 => cases h
  | case6 c _ _ top hc =>
    cases h
    exact ⟨[], by rw [Bracket.ofClosing?_eq_some_iff.mp hc]; rfl⟩
  | case7 c _ _ top below hb _ ih =>
    obtain ⟨inner, hi⟩ := ih hb h
    exact ⟨c :: inner, by rw [hi, List.getLast_cons hb, List.cons_append]⟩
  | case8 => cases h
  | case9 _ c _ _ _ _ ih =>
    obtain ⟨inner, hi⟩ := ih hp h
    exact ⟨c :: inner, by rw [hi, List.cons_append]⟩
  | case10 _ c _ _ _ _ ih =>
    obtain ⟨inner, hi⟩ := ih hp h
    exact ⟨c :: inner, by rw [hi, List.cons_append]⟩

namespace Group

/-- The text of a group. -/
def text (group : Group) : List Char :=
  group.bracket.opening :: (group.inner ++ [group.bracket.closing])

/-- A group and what follows it make up the text. -/
theorem eq_text_append {cs : List Char} {group : Group} (h : group? cs = some group) :
    cs = group.text ++ group.rest := by
  cases cs with
  | nil => simp [group?] at h
  | cons c cs =>
    simp only [group?, Option.bind_eq_bind, Option.bind_eq_some_iff, Option.pure_def,
      Option.some.injEq] at h
    obtain ⟨bracket, hb, rest, hrest, rfl⟩ := h
    obtain ⟨inner, rfl⟩ := exists_of_afterGroup? (by simp) hrest
    rw [Bracket.ofOpening?_eq_some_iff.mp hb]
    have hsplit : inner ++ bracket.closing :: rest = (inner ++ [bracket.closing]) ++ rest := by
      rw [List.append_assoc, List.singleton_append]
    simp only [List.getLast_singleton, text]
    rw [hsplit, upTo_append, List.dropLast_concat]
    rfl

end Group

theorem Group.isProperEnd_rest {cs : List Char} {group : Group} (h : group? cs = some group) :
    IsProperEnd group.rest cs := by
  cases cs with
  | nil => simp [group?] at h
  | cons c cs =>
    simp only [group?, Option.bind_eq_bind, Option.bind_eq_some_iff, Option.pure_def,
      Option.some.injEq] at h
    obtain ⟨bracket, -, rest, hrest, rfl⟩ := h
    exact (isProperEnd_of_afterGroup? hrest).cons c

end RailsSchema.Text
