import RailsSchema.Text.Scan
import RailsSchema.Value.Numeral

/-!
# Reading JSON texts

A JSON text is read in two stages: it is cut into tokens, white space between them being skipped,
and the tokens are put together by a machine that keeps the arrays and objects that are still open
on a stack. What comes out is a `Json.Document`: members keep their order, and a key may come twice.

* `Json.token?`: one token, a string with its escapes resolved;
* `Json.step?`: what the machine does with one token;
* `Json.Document.read?`: the document that a text denotes, if it is a JSON text.
-/

namespace RailsSchema.Json

open Text

/-- A JSON value as it is read from a text. Numbers are kept as they are written. -/
inductive Document where
  | null
  | bool (value : Bool)
  | number (text : String)
  | str (text : String)
  | arr (items : List Document)
  | obj (members : List (String × Document))
  deriving Repr, Inhabited

/-! ## Strings -/

/-- The number that a hexadecimal digit denotes. -/
def hexValue? (c : Char) : Option Nat :=
  if '0' ≤ c ∧ c ≤ '9' then some (c.toNat - 48)
  else if 'a' ≤ c ∧ c ≤ 'f' then some (c.toNat - 87)
  else if 'A' ≤ c ∧ c ≤ 'F' then some (c.toNat - 55)
  else none

/-- The code unit that four hexadecimal digits denote, and what follows them. -/
def codeUnit? : List Char → Option (Nat × List Char)
  | a :: b :: c :: d :: rest => do
    let a ← hexValue? a
    let b ← hexValue? b
    let c ← hexValue? c
    let d ← hexValue? d
    return (16 * (16 * (16 * a + b) + c) + d, rest)
  | _ => none

/-- The character behind `\u`: one code unit, or two that are the halves of a character beyond the
first plane. Half a character is none. -/
def unicode? (cs : List Char) : Option (Char × List Char) := do
  let (unit, rest) ← codeUnit? cs
  if unit < 0xD800 ∨ 0xDFFF < unit then return (Char.ofNat unit, rest)
  else
    let (low, rest) ← codeUnit? (← after? ['\\', 'u'] rest)
    if unit < 0xDC00 ∧ 0xDC00 ≤ low ∧ low ≤ 0xDFFF then
      return (Char.ofNat (0x10000 + 0x400 * (unit - 0xD800) + (low - 0xDC00)), rest)
    else none

/-- The letters and marks that stand for one character behind a backslash. -/
def escapes : List (Char × Char) :=
  [('"', '"'), ('\\', '\\'), ('/', '/'), ('b', '\x08'), ('f', '\x0c'), ('n', '\n'), ('r', '\r'),
    ('t', '\t')]

/-- The character behind a backslash, and what follows it. -/
def escaped? : List Char → Option (Char × List Char)
  | [] => none
  | c :: rest =>
    if c = 'u' then unicode? rest else (escapes.lookup c).map fun meant => (meant, rest)

/-- The first character of a string and what follows it. Control characters have to be escaped. -/
def stringChar? : List Char → Option (Char × List Char)
  | [] => none
  | c :: rest =>
    if c = '\\' then escaped? rest
    else if c.toNat < 0x20 then none
    else some (c, rest)

theorem suffix_of_codeUnit? {cs rest : List Char} {unit : Nat}
    (h : codeUnit? cs = some (unit, rest)) : rest <:+ cs := by
  unfold codeUnit? at h
  split at h
  · next a b c d behind =>
    simp only [Option.bind_eq_bind, Option.bind_eq_some_iff, Option.pure_def] at h
    obtain ⟨_, -, _, -, _, -, _, -, heq⟩ := h
    cases heq
    exact ⟨[a, b, c, d], rfl⟩
  · cases h

theorem suffix_of_unicode? {cs rest : List Char} {c : Char} (h : unicode? cs = some (c, rest)) :
    rest <:+ cs := by
  simp only [unicode?, Option.bind_eq_bind, Option.bind_eq_some_iff, Option.pure_def] at h
  obtain ⟨⟨unit, behind⟩, hunit, h⟩ := h
  have hbehind := suffix_of_codeUnit? hunit
  split at h
  · cases h
    exact hbehind
  · simp only [Option.bind_eq_some_iff] at h
    obtain ⟨more, hmore, ⟨low, end_⟩, hlow, h⟩ := h
    have hsuffix : more <:+ behind := ⟨['\\', 'u'], (after?_eq_some_iff.mp hmore).symm⟩
    split at h
    · simp only [Option.some.injEq, Prod.mk.injEq] at h
      obtain ⟨-, rfl⟩ := h
      exact (suffix_of_codeUnit? hlow).trans (hsuffix.trans hbehind)
    · cases h

theorem suffix_of_escaped? {cs rest : List Char} {c : Char} (h : escaped? cs = some (c, rest)) :
    rest <:+ cs := by
  unfold escaped? at h
  split at h
  · cases h
  · next e es =>
    refine List.IsSuffix.trans ?_ (List.suffix_cons e es)
    split at h
    · exact suffix_of_unicode? h
    · obtain ⟨meant, -, heq⟩ := Option.map_eq_some_iff.mp h
      cases heq
      exact List.suffix_refl _

theorem isProperEnd_of_stringChar? {cs rest : List Char} {c : Char}
    (h : stringChar? cs = some (c, rest)) : IsProperEnd rest cs := by
  unfold stringChar? at h
  split at h
  · cases h
  · next d ds =>
    split at h
    · exact .of_suffix (suffix_of_escaped? h) d
    · split at h
      · cases h
      · cases h
        exact .of_suffix (List.suffix_refl _) c

/-- The characters of a string up to its closing quote, and what follows the quote. -/
def stringBody? (cs : List Char) : Option (List Char × List Char) :=
  match cs with
  | [] => none
  | c :: rest =>
    if c = '"' then some ([], rest)
    else
      match _h : stringChar? (c :: rest) with
      | none => none
      | some (first, behind) =>
        (stringBody? behind).map fun found => (first :: found.1, found.2)
termination_by cs.length
decreasing_by exact (isProperEnd_of_stringChar? _h).2

/-! ## Numbers -/

/-- What follows the digits in front of a number, which begin with a zero only if there is no
other. -/
def afterWhole? : List Char → Option (List Char)
  | '0' :: cs => some cs
  | cs => skipSome? Char.isDigit cs

/-- What follows a fraction, if there is one. -/
def afterFraction? : List Char → Option (List Char)
  | '.' :: cs => skipSome? Char.isDigit cs
  | cs => some cs

/-- What follows an exponent, if there is one. -/
def afterExponent? : List Char → Option (List Char)
  | [] => some []
  | c :: cs =>
    if c = 'e' ∨ c = 'E' then
      match cs with
      | '+' :: digits => skipSome? Char.isDigit digits
      | '-' :: digits => skipSome? Char.isDigit digits
      | digits => skipSome? Char.isDigit digits
    else some (c :: cs)

/-- Whether a text is a number. -/
def isNumber (cs : List Char) : Bool :=
  (((afterWhole? (Numeral.unsigned cs)).bind afterFraction?).bind afterExponent?) == some []

/-- Whether a character can be part of a number. -/
def isNumberChar (c : Char) : Bool :=
  c.isDigit || c == '-' || c == '+' || c == '.' || c == 'e' || c == 'E'

/-! ## Tokens -/

/-- A token of a JSON text. -/
inductive Token where
  | openArray
  | closeArray
  | openObject
  | closeObject
  | comma
  | colon
  | string (text : String)
  /-- A word or a number. -/
  | scalar (document : Document)
  deriving Repr

/-- The token that is a mark. -/
def mark? (c : Char) : Option Token :=
  match c with
  | '[' => some .openArray
  | ']' => some .closeArray
  | '\x7b' => some .openObject
  | '\x7d' => some .closeObject
  | ',' => some .comma
  | ':' => some .colon
  | _ => none

/-- The words and what they stand for. -/
def words : List (List Char × Document) :=
  [("null".toList, .null), ("true".toList, .bool true), ("false".toList, .bool false)]

/-- The word or number in front of a text, and what follows it. -/
def scalar? (cs : List Char) : Option (Token × List Char) :=
  match cs.takeWhile isNumberChar with
  | [] => words.findSome? fun word => (after? word.1 cs).map fun rest => (.scalar word.2, rest)
  | number =>
    if isNumber number then
      some (.scalar (.number (String.ofList number)), cs.dropWhile isNumberChar)
    else none

/-- The token in front of a text, and what follows it. -/
def token? : List Char → Option (Token × List Char)
  | [] => none
  | c :: cs =>
    match mark? c with
    | some token => some (token, cs)
    | none =>
      if c = '"' then
        (stringBody? cs).map fun found => (.string (String.ofList found.1), found.2)
      else scalar? (c :: cs)

/-- Whether a character is white space between tokens. -/
def isSpace (c : Char) : Bool := c == ' ' || c == '\t' || c == '\n' || c == '\r'

theorem suffix_of_stringBody? {cs rest text : List Char} (h : stringBody? cs = some (text, rest)) :
    rest <:+ cs := by
  fun_induction stringBody? cs generalizing text with
  | case1 => cases h
  | case2 =>
    cases h
    exact List.suffix_cons _ _
  | case3 => cases h
  | case4 c behind hc first more hfirst ih =>
    obtain ⟨⟨text', rest'⟩, hmore, heq⟩ := Option.map_eq_some_iff.mp h
    cases heq
    exact (ih hmore).trans (isProperEnd_of_stringChar? hfirst).1

theorem isProperEnd_of_scalar? {cs rest : List Char} {token : Token}
    (h : scalar? cs = some (token, rest)) : IsProperEnd rest cs := by
  unfold scalar? at h
  split at h
  · obtain ⟨word, hword, hrest⟩ := List.exists_of_findSome?_eq_some h
    obtain ⟨behind, hafter, heq⟩ := Option.map_eq_some_iff.mp hrest
    cases heq
    have hne : word.1 ≠ [] := by
      simp only [words, List.mem_cons, List.not_mem_nil, or_false] at hword
      rcases hword with rfl | rfl | rfl <;> decide
    rw [after?_eq_some_iff.mp hafter]
    refine ⟨List.suffix_append word.1 _, ?_⟩
    have := List.length_pos_iff.mpr hne
    rw [List.length_append]
    omega
  · next hne =>
    split at h
    · cases h
      have hsplit := congrArg List.length (List.takeWhile_append_dropWhile (p := isNumberChar) (l := cs))
      have := List.length_pos_iff.mpr hne
      rw [List.length_append] at hsplit
      exact ⟨List.dropWhile_suffix _, by omega⟩
    · cases h

theorem isProperEnd_of_token? {cs rest : List Char} {token : Token}
    (h : token? cs = some (token, rest)) : IsProperEnd rest cs := by
  unfold token? at h
  split at h
  · cases h
  · next c cs =>
    split at h
    · cases h
      exact .of_suffix (List.suffix_refl _) c
    · split at h
      · obtain ⟨⟨text, behind⟩, hbody, heq⟩ := Option.map_eq_some_iff.mp h
        cases heq
        exact .of_suffix (suffix_of_stringBody? hbody) c
      · exact isProperEnd_of_scalar? h

/-- The tokens of a text. -/
def tokens? (cs : List Char) : Option (List Token) :=
  match _hspace : cs.dropWhile isSpace with
  | [] => some []
  | c :: rest =>
    match _htoken : token? (c :: rest) with
    | none => none
    | some (token, behind) => (tokens? behind).map (token :: ·)
termination_by cs.length
decreasing_by
  have h1 := (isProperEnd_of_token? _htoken).2
  have h2 := (List.dropWhile_suffix isSpace (l := cs)).length_le
  rw [_hspace] at h2
  omega

/-! ## Documents -/

/-- An array or an object that is not closed yet, with what has been read of it. -/
inductive Frame where
  | arr (items : List Document)
  /-- An object in which the value of a key is being read. -/
  | obj (members : List (String × Document)) (key : String)

/-- What a reader waits for. The frames are those inside which it stands, the innermost first. -/
inductive State where
  | value (frames : List Frame)
  /-- An item of the array that has just been opened, or its end. -/
  | firstItem (frames : List Frame)
  /-- A key of the object that has just been opened, or its end. -/
  | firstKey (frames : List Frame)
  | key (members : List (String × Document)) (frames : List Frame)
  | colon (members : List (String × Document)) (key : String) (frames : List Frame)
  /-- A comma behind the items of an array, or its end. -/
  | nextItem (items : List Document) (frames : List Frame)
  /-- A comma behind the members of an object, or its end. -/
  | nextMember (members : List (String × Document)) (frames : List Frame)
  /-- Nothing, since the document is complete. -/
  | done (document : Document)

/-- The state after a value, which goes into the innermost frame. -/
def complete (document : Document) : List Frame → State
  | [] => .done document
  | .arr items :: frames => .nextItem (items ++ [document]) frames
  | .obj members key :: frames => .nextMember (members ++ [(key, document)]) frames

/-- The state after the first token of a value. -/
def begin? (frames : List Frame) : Token → Option State
  | .scalar document => some (complete document frames)
  | .string text => some (complete (.str text) frames)
  | .openArray => some (.firstItem frames)
  | .openObject => some (.firstKey frames)
  | _ => none

/-- The state after a token. -/
def step? : State → Token → Option State
  | .value frames, token => begin? frames token
  | .firstItem frames, .closeArray => some (complete (.arr []) frames)
  | .firstItem frames, token => begin? (.arr [] :: frames) token
  | .firstKey frames, .closeObject => some (complete (.obj []) frames)
  | .firstKey frames, .string key => some (.colon [] key frames)
  | .key members frames, .string key => some (.colon members key frames)
  | .colon members key frames, .colon => some (.value (.obj members key :: frames))
  | .nextItem items frames, .comma => some (.value (.arr items :: frames))
  | .nextItem items frames, .closeArray => some (complete (.arr items) frames)
  | .nextMember members frames, .comma => some (.key members frames)
  | .nextMember members frames, .closeObject => some (complete (.obj members) frames)
  | _, _ => none

/-- The document that is complete in a state. -/
def State.document? : State → Option Document
  | .done document => some document
  | _ => none

/-- The document that is complete once the rest of a text has been read. -/
def readFrom? (state : State) (cs : List Char) : Option Document := do
  let tokens ← tokens? cs
  let last ← tokens.foldlM step? state
  last.document?

/-- The document that a text denotes, if it is a JSON text. -/
def Document.read? (text : String) : Option Document := readFrom? (.value []) text.toList

example : Document.read? " [-1.5e3, [null]] " = some (.arr [.number "-1.5e3", .arr [.null]]) := by
  cbv

example : Document.read? "[01]" = none := by cbv

end RailsSchema.Json
