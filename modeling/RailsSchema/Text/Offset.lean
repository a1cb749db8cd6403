/-!
# Byte offsets

A text is worked on as the list of its characters, and a place in it is given to the outside as the
number of UTF-8 bytes before it. `byteLength` measures a text, `dropBytes` finds the characters that
follow an offset and refuses an offset at which no character begins. `dropBytes_eq_ok_iff`: the
offsets that it accepts are the lengths of the beginnings of the text.
-/

namespace RailsSchema.Text

/-- The number of UTF-8 bytes of a text. -/
def byteLength (cs : List Char) : Nat := cs.foldr (fun c n => c.utf8Size + n) 0

/-- Why an offset is not a place in a text. -/
inductive OffsetError where
  /-- The text ends before the offset. -/
  | pastEnd
  /-- The offset falls between the bytes of one character. -/
  | insideCharacter
  deriving DecidableEq, Repr

/-- The characters after the first `offset` bytes of a text. The end of the text is a place. -/
def dropBytes : (offset : Nat) → List Char → Except OffsetError (List Char)
  | 0, cs => .ok cs
  | _ + 1, [] => .error .pastEnd
  | n + 1, c :: cs =>
    if c.utf8Size ≤ n + 1 then dropBytes (n + 1 - c.utf8Size) cs else .error .insideCharacter

@[simp] theorem byteLength_nil : byteLength [] = 0 := rfl

@[simp] theorem byteLength_cons (c : Char) (cs : List Char) :
    byteLength (c :: cs) = c.utf8Size + byteLength cs := rfl

@[simp] theorem byteLength_append (cs ds : List Char) :
    byteLength (cs ++ ds) = byteLength cs + byteLength ds := by
  induction cs with
  | nil => simp
  | cons c cs ih => simp [ih, Nat.add_assoc]

@[simp] theorem dropBytes_zero (cs : List Char) : dropBytes 0 cs = .ok cs := by
  cases cs <;> rfl

/-- The offset after a text is where what follows it begins. -/
theorem dropBytes_append (cs ds : List Char) : dropBytes (byteLength cs) (cs ++ ds) = .ok ds := by
  induction cs with
  | nil => simp
  | cons c cs ih =>
    obtain ⟨n, hn⟩ : ∃ n, c.utf8Size + byteLength cs = n + 1 :=
      ⟨c.utf8Size + byteLength cs - 1, by have := c.utf8Size_pos; omega⟩
    have hc : c.utf8Size ≤ n + 1 := by omega
    have hrest : n + 1 - c.utf8Size = byteLength cs := by omega
    simp only [byteLength_cons, List.cons_append, hn, dropBytes, if_pos hc, hrest, ih]

/-- What an offset leaves is an end of the text, and the offset is the length of what it skips. -/
theorem exists_of_dropBytes_eq_ok {offset : Nat} {cs rest : List Char}
    (h : dropBytes offset cs = .ok rest) :
    ∃ skipped, cs = skipped ++ rest ∧ byteLength skipped = offset := by
  fun_induction dropBytes offset cs with
  | case1 cs => exact ⟨[], by cases h; rfl, rfl⟩
  | case2 => cases h
  | case3 n c cs hc ih =>
    obtain ⟨skipped, rfl, hs⟩ := ih h
    exact ⟨c :: skipped, rfl, by simp [hs]; omega⟩
  | case4 => cases h

/-- An offset is a place exactly when it is the length of some beginning of the text. -/
theorem dropBytes_eq_ok_iff {offset : Nat} {cs rest : List Char} :
    dropBytes offset cs = .ok rest ↔
      ∃ skipped, cs = skipped ++ rest ∧ byteLength skipped = offset := by
  constructor
  · exact exists_of_dropBytes_eq_ok
  · rintro ⟨skipped, rfl, rfl⟩
    exact dropBytes_append skipped rest

end RailsSchema.Text
