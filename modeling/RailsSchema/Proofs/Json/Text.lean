import RailsSchema.Json.Basic
import RailsSchema.Proofs.Json.Document
import RailsSchema.Proofs.Text.Runs

/-!
# Reading written trees back

A tree that has been written in a layout is read back as the document that it stands for, whatever
is in its strings and however it is nested. A layout may put any white space around the marks.

* `Json.stringBody?_escape`: an escaped character is read as the character;
* `Json.readFrom?_token`: what one token does to a reader;
* `Json.readFrom?_write`: a written tree takes a reader that waits for a value to the state after
  it;
* `Json.read?_write`: so the text of a tree denotes the tree.
-/

namespace RailsSchema.Json

open Text

/-! ## The document of a tree -/

/-- Induction over trees by their members. -/
@[elab_as_elim]
theorem induction {motive : Json → Prop} (null : motive .null)
    (bool : ∀ value, motive (.bool value)) (str : ∀ text, motive (.str text))
    (arr : ∀ items, (∀ item ∈ items, motive item) → motive (.arr items))
    (obj : ∀ members, (∀ member ∈ members, motive member.2) → motive (.obj members))
    (json : Json) : motive json :=
  @Json.rec motive (fun items => ∀ item ∈ items, motive item)
    (fun members => ∀ member ∈ members, motive member.2) (fun member => motive member.2)
    null bool str (fun items => arr items) (fun members => obj members)
    (by simp) (fun _ _ hitem hitems => List.forall_mem_cons.mpr ⟨hitem, hitems⟩)
    (by simp) (fun _ _ hmember hmembers => List.forall_mem_cons.mpr ⟨hmember, hmembers⟩)
    (fun _ _ hjson => hjson) json

mutual

/-- The document that a tree stands for. -/
def document : Json → Document
  | null => .null
  | bool value => .bool value
  | str text => .str text
  | arr items => .arr (itemDocuments items)
  | obj members => .obj (memberDocuments members)

/-- The documents of the items of an array. -/
def itemDocuments : List Json → List Document
  | [] => []
  | item :: items => item.document :: itemDocuments items

/-- The members of an object as documents. -/
def memberDocuments : List (String × Json) → List (String × Document)
  | [] => []
  | (key, value) :: members => (key, value.document) :: memberDocuments members

end

theorem itemDocuments_eq_map (items : List Json) : itemDocuments items = items.map document := by
  induction items with
  | nil => rfl
  | cons item items ih => rw [itemDocuments, ih, List.map_cons]

theorem memberDocuments_eq_map (members : List (String × Json)) :
    memberDocuments members = members.map fun member => (member.1, member.2.document) := by
  induction members with
  | nil => rfl
  | cons member members ih => rw [memberDocuments, ih, List.map_cons]

/-! ## Strings -/

theorem hexValue?_hexDigit {n : Nat} (h : n < 16) : hexValue? (hexDigit n) = some n := by
  have hall : ∀ m < 16, hexValue? (hexDigit m) = some m := by decide
  exact hall n h

theorem codeUnit?_hexDigit {n : Nat} (h : n < 256) (rest : List Char) :
    codeUnit? ('0' :: '0' :: hexDigit (n / 16) :: hexDigit (n % 16) :: rest) = some (n, rest) := by
  have hzero : hexValue? '0' = some 0 := by decide
  have hhigh : hexValue? (hexDigit (n / 16)) = some (n / 16) := hexValue?_hexDigit (by omega)
  have hlow : hexValue? (hexDigit (n % 16)) = some (n % 16) := hexValue?_hexDigit (by omega)
  have hunit : 16 * (16 * (16 * 0 + 0) + n / 16) + n % 16 = n := by omega
  simp only [codeUnit?, hzero, hhigh, hlow, Option.bind_eq_bind, Option.bind_some, Option.pure_def,
    hunit]

/-- An escaped character is the first character of a string, and no closing quote. -/
theorem stringChar?_escape (c : Char) (rest : List Char) :
    stringChar? (escape c ++ rest) = some (c, rest) ∧ (escape c ++ rest).head? ≠ some '"' := by
  unfold escape
  split
  iterate 7 exact ⟨rfl, by simp⟩
  next hquote hbackslash _ _ _ _ _ =>
  split
  · next hcontrol =>
    refine ⟨?_, by simp⟩
    have hunit := codeUnit?_hexDigit (show c.toNat < 256 by omega) rest
    show unicode? ('0' :: '0' :: hexDigit (c.toNat / 16) :: hexDigit (c.toNat % 16) :: rest) =
      some (c, rest)
    simp only [unicode?, hunit, Option.bind_eq_bind, Option.bind_some]
    rw [if_pos (Or.inl (by omega)), Char.ofNat_toNat]
    rfl
  · next hcontrol =>
    refine ⟨?_, by simpa using hquote⟩
    rw [List.singleton_append, stringChar?, if_neg hbackslash, if_neg hcontrol]

theorem stringBody?_of_stringChar? {cs rest : List Char} {c : Char} (hquote : cs.head? ≠ some '"')
    (h : stringChar? cs = some (c, rest)) :
    stringBody? cs = (stringBody? rest).map fun found => (c :: found.1, found.2) := by
  cases cs with
  | nil => cases h
  | cons d ds =>
    rw [stringBody?, if_neg (fun hd => hquote (by rw [hd]; rfl))]
    split
    · next hnone => rw [h] at hnone; cases hnone
    · next hsome => rw [h] at hsome; cases hsome; rfl

theorem stringBody?_escape (c : Char) (rest : List Char) :
    stringBody? (escape c ++ rest) =
      (stringBody? rest).map fun found => (c :: found.1, found.2) := by
  obtain ⟨hchar, hquote⟩ := stringChar?_escape c rest
  exact stringBody?_of_stringChar? hquote hchar

theorem stringBody?_flatMap_escape (text rest : List Char) :
    stringBody? (text.flatMap escape ++ '"' :: rest) = some (text, rest) := by
  induction text with
  | nil => rw [List.flatMap_nil, List.nil_append, stringBody?, if_pos rfl]
  | cons c text ih =>
    rw [List.flatMap_cons, List.append_assoc, stringBody?_escape, ih]
    rfl

/-! ## Tokens -/

theorem token?_mark {c : Char} {token : Token} (h : mark? c = some token) (rest : List Char) :
    token? (c :: rest) = some (token, rest) := by
  simp only [token?, h]

theorem token?_quote (text : String) (rest : List Char) :
    token? (quote text ++ rest) = some (.string text, rest) := by
  have hmark : mark? '"' = none := by decide
  have hbody := stringBody?_flatMap_escape text.toList rest
  simp only [quote, List.cons_append, List.append_assoc, List.nil_append, token?, hmark, if_pos,
    hbody, Option.map_some, String.ofList_toList]

theorem tokens?_token {blanks cs rest : List Char} {token : Token}
    (hblanks : ∀ c ∈ blanks, isSpace c = true) (hcs : Stops isSpace cs)
    (h : token? cs = some (token, rest)) :
    tokens? (blanks ++ cs) = (tokens? rest).map (token :: ·) := by
  have hdrop : (blanks ++ cs).dropWhile isSpace = cs := dropWhile_append_of_stops hblanks hcs
  rw [tokens?]
  split
  · next hnil =>
    rw [hdrop] at hnil
    rw [hnil] at h
    cases h
  · next hcons =>
    rw [hdrop] at hcons
    rw [← hcons]
    split
    · next hnone => rw [h] at hnone; cases hnone
    · next hsome => rw [h] at hsome; cases hsome; rfl

variable {state : State} {blanks cs rest : List Char}

/-- What one token does to a reader. -/
theorem readFrom?_token {token : Token} (hblanks : ∀ c ∈ blanks, isSpace c = true)
    (hcs : Stops isSpace cs) (h : token? cs = some (token, rest)) :
    readFrom? state (blanks ++ cs) = (step? state token).bind (readFrom? · rest) := by
  unfold readFrom?
  rw [tokens?_token hblanks hcs h]
  cases tokens? rest with
  | none => cases step? state token <;> rfl
  | some tokens => cases hstep : step? state token <;> simp [hstep]

theorem readFrom?_mark {c : Char} {token : Token} {next : State}
    (hblanks : ∀ c ∈ blanks, isSpace c = true) (hmark : mark? c = some token)
    (hspace : isSpace c = false) (hstep : step? state token = some next) (rest : List Char) :
    readFrom? state (blanks ++ c :: rest) = readFrom? next rest := by
  rw [readFrom?_token hblanks (stops_cons.mpr hspace) (token?_mark hmark rest), hstep]
  rfl

theorem readFrom?_cons {c : Char} {token : Token} {next : State} (hmark : mark? c = some token)
    (hspace : isSpace c = false) (hstep : step? state token = some next) (rest : List Char) :
    readFrom? state (c :: rest) = readFrom? next rest := by
  have hnone : ∀ c ∈ ([] : List Char), isSpace c = true := by simp
  exact readFrom?_mark hnone hmark hspace hstep rest

theorem readFrom?_quote {next : State} {text : String} (hblanks : ∀ c ∈ blanks, isSpace c = true)
    (hstep : step? state (.string text) = some next) (rest : List Char) :
    readFrom? state (blanks ++ (quote text ++ rest)) = readFrom? next rest := by
  have hspace : Stops isSpace (quote text ++ rest) := stops_cons.mpr (by decide)
  rw [readFrom?_token hblanks hspace (token?_quote text rest), hstep]
  rfl

/-! ## Trees -/

/-- Whether a layout puts nothing but white space around the marks. -/
structure Layout.IsBlank (layout : Layout) : Prop where
  gap : ∀ level, ∀ c ∈ layout.gap level, isSpace c = true
  colon : ∃ blanks, layout.colon = ':' :: blanks ∧ ∀ c ∈ blanks, isSpace c = true

theorem Layout.isBlank_compact : Layout.compact.IsBlank where
  gap := by simp [Layout.compact]
  colon := ⟨[], rfl, by simp⟩

theorem Layout.isBlank_pretty : Layout.pretty.IsBlank where
  gap level c hc := by
    rcases List.mem_cons.mp hc with rfl | hc
    · decide
    · rw [(List.mem_replicate.mp hc).2]
      decide
  colon := ⟨[' '], rfl, by decide⟩

/-- Whether a value can begin in a state, and goes into the given frames there. -/
def State.Admits (state : State) (frames : List Frame) : Prop :=
  ∀ token next, begin? frames token = some next → step? state token = some next

theorem State.admits_value (frames : List Frame) : State.Admits (.value frames) frames :=
  fun _ _ h => h

theorem State.admits_firstItem (frames : List Frame) :
    State.Admits (.firstItem frames) (.arr [] :: frames) := by
  intro token next h
  cases token with
  | closeArray => cases h
  | _ => exact h

variable {layout : Layout} {frames : List Frame}

/-- Written words are read as the words. -/
theorem readFrom?_word {word : List Char} {meant : Document} (hword : (word, meant) ∈ words)
    (hadmits : state.Admits frames) (hblanks : ∀ c ∈ blanks, isSpace c = true)
    (rest : List Char) :
    readFrom? state (blanks ++ (word ++ rest)) = readFrom? (complete meant frames) rest := by
  have htoken : token? (word ++ rest) = some (.scalar meant, rest) ∧
      Stops isSpace (word ++ rest) := by
    simp only [words, List.mem_cons, Prod.mk.injEq, List.not_mem_nil, or_false] at hword
    rcases hword with ⟨rfl, rfl⟩ | ⟨rfl, rfl⟩ | ⟨rfl, rfl⟩
    · exact ⟨rfl, stops_cons.mpr (by decide)⟩
    · exact ⟨rfl, stops_cons.mpr (by decide)⟩
    · exact ⟨rfl, stops_cons.mpr (by decide)⟩
  rw [readFrom?_token hblanks htoken.2 htoken.1, hadmits _ _ rfl]
  rfl

/-- What it means that a written tree is read back, wherever it may begin. -/
def ReadsBack (layout : Layout) (json : Json) : Prop :=
  ∀ (state : State) (frames : List Frame) (level : Nat) (blanks rest : List Char),
    state.Admits frames → (∀ c ∈ blanks, isSpace c = true) →
      readFrom? state (blanks ++ (json.write layout level ++ rest)) =
        readFrom? (complete json.document frames) rest

theorem readFrom?_writeItems (hlayout : layout.IsBlank) {items : List Json}
    (h : ∀ item ∈ items, ReadsBack layout item) (before : List Document) (level : Nat)
    (rest : List Char) :
    readFrom? (.nextItem before frames) (writeItems layout level items ++ rest) =
      readFrom? (.nextItem (before ++ items.map document) frames) rest := by
  induction items generalizing before with
  | nil => rw [writeItems, List.map_nil, List.append_nil, List.nil_append]
  | cons item items ih =>
    obtain ⟨hitem, hitems⟩ := List.forall_mem_cons.mp h
    have hstep : step? (.nextItem before frames) .comma = some (.value (.arr before :: frames)) := rfl
    have hread := hitem (.value (.arr before :: frames)) _ level (layout.gap level)
      (writeItems layout level items ++ rest) (State.admits_value _) (hlayout.gap level)
    simp only [writeItems, List.cons_append, List.append_assoc]
    rw [readFrom?_cons rfl (by decide) hstep, hread]
    show readFrom? (.nextItem (before ++ [item.document]) frames) _ = _
    rw [ih hitems, List.append_assoc, List.singleton_append, List.map_cons]

/-- One member, from its key on. -/
theorem readFrom?_member (hlayout : layout.IsBlank) {json : Json} (h : ReadsBack layout json)
    {key : String} {members : List (String × Document)}
    (hkey : step? state (.string key) = some (.colon members key frames))
    (hblanks : ∀ c ∈ blanks, isSpace c = true) (level : Nat) (rest : List Char) :
    readFrom? state (blanks ++ (quote key ++ (layout.colon ++ (json.write layout level ++ rest)))) =
      readFrom? (.nextMember (members ++ [(key, json.document)]) frames) rest := by
  obtain ⟨colonBlanks, hcolon, hspace⟩ := hlayout.colon
  have hstep : step? (.colon members key frames) .colon =
      some (.value (.obj members key :: frames)) := rfl
  have hread := h (.value (.obj members key :: frames)) _ level colonBlanks rest
    (State.admits_value _) hspace
  rw [readFrom?_quote hblanks hkey, hcolon, List.cons_append, readFrom?_cons rfl (by decide) hstep,
    hread]
  rfl

theorem readFrom?_writeMembers (hlayout : layout.IsBlank) {members : List (String × Json)}
    (h : ∀ member ∈ members, ReadsBack layout member.2) (before : List (String × Document))
    (level : Nat) (rest : List Char) :
    readFrom? (.nextMember before frames) (writeMembers layout level members ++ rest) =
      readFrom? (.nextMember
        (before ++ members.map fun member => (member.1, member.2.document)) frames) rest := by
  induction members generalizing before with
  | nil => rw [writeMembers, List.map_nil, List.append_nil, List.nil_append]
  | cons member members ih =>
    obtain ⟨hmember, hmembers⟩ := List.forall_mem_cons.mp h
    have hstep : step? (.nextMember before frames) .comma = some (.key before frames) := rfl
    have hkey : step? (.key before frames) (.string member.1) =
        some (.colon before member.1 frames) := rfl
    simp only [writeMembers, List.cons_append, List.append_assoc]
    rw [readFrom?_cons rfl (by decide) hstep,
      readFrom?_member hlayout hmember hkey (hlayout.gap level), ih hmembers, List.append_assoc,
      List.singleton_append, List.map_cons]

theorem readsBack_arr (hlayout : layout.IsBlank) {items : List Json}
    (h : ∀ item ∈ items, ReadsBack layout item) : ReadsBack layout (.arr items) := by
  intro state frames level blanks rest hadmits hblanks
  have hstep := hadmits .openArray (.firstItem frames) rfl
  cases items with
  | nil =>
    have hend : step? (.firstItem frames) .closeArray = some (complete (.arr []) frames) := rfl
    simp only [write, List.cons_append, List.nil_append]
    rw [readFrom?_mark hblanks rfl (by decide) hstep, readFrom?_cons rfl (by decide) hend]
    rfl
  | cons item items =>
    obtain ⟨hitem, hitems⟩ := List.forall_mem_cons.mp h
    have hend : step? (.nextItem ([item.document] ++ items.map document) frames) .closeArray =
        some (complete (.arr ([item.document] ++ items.map document)) frames) := rfl
    simp only [write, List.cons_append, List.append_assoc, List.nil_append]
    rw [readFrom?_mark hblanks rfl (by decide) hstep,
      hitem _ _ _ _ _ (State.admits_firstItem frames) (hlayout.gap _)]
    show readFrom? (.nextItem [item.document] frames) _ = _
    rw [readFrom?_writeItems hlayout hitems,
      readFrom?_mark (hlayout.gap level) rfl (by decide) hend, document, itemDocuments_eq_map]
    rfl

theorem readsBack_obj (hlayout : layout.IsBlank) {members : List (String × Json)}
    (h : ∀ member ∈ members, ReadsBack layout member.2) : ReadsBack layout (.obj members) := by
  intro state frames level blanks rest hadmits hblanks
  have hstep := hadmits .openObject (.firstKey frames) rfl
  cases members with
  | nil =>
    have hend : step? (.firstKey frames) .closeObject = some (complete (.obj []) frames) := rfl
    simp only [write, List.cons_append, List.nil_append]
    rw [readFrom?_mark hblanks rfl (by decide) hstep, readFrom?_cons rfl (by decide) hend]
    rfl
  | cons member members =>
    obtain ⟨hmember, hmembers⟩ := List.forall_mem_cons.mp h
    let documents := [(member.1, member.2.document)] ++
      members.map fun member => (member.1, member.2.document)
    have hkey : step? (.firstKey frames) (.string member.1) =
        some (.colon [] member.1 frames) := rfl
    have hend : step? (.nextMember documents frames) .closeObject =
        some (complete (.obj documents) frames) := rfl
    simp only [write, List.cons_append, List.append_assoc, List.nil_append]
    rw [readFrom?_mark hblanks rfl (by decide) hstep,
      readFrom?_member hlayout hmember hkey (hlayout.gap _), List.nil_append,
      readFrom?_writeMembers hlayout hmembers,
      readFrom?_mark (hlayout.gap level) rfl (by decide) hend, document, memberDocuments_eq_map]
    rfl

/-- A written tree takes a reader that waits for a value to the state after it. -/
theorem readFrom?_write (hlayout : layout.IsBlank) (json : Json) : ReadsBack layout json := by
  induction json using Json.induction with
  | null =>
    intro state frames level blanks rest hadmits hblanks
    have hword : ("null".toList, Document.null) ∈ words := by simp [words]
    rw [write]
    exact readFrom?_word hword hadmits hblanks rest
  | bool value =>
    intro state frames level blanks rest hadmits hblanks
    have htrue : ("true".toList, Document.bool true) ∈ words := by simp [words]
    have hfalse : ("false".toList, Document.bool false) ∈ words := by simp [words]
    cases value <;> rw [write]
    · exact readFrom?_word hfalse hadmits hblanks rest
    · exact readFrom?_word htrue hadmits hblanks rest
  | str text =>
    intro state frames level blanks rest hadmits hblanks
    exact readFrom?_quote hblanks (hadmits (.string text) _ rfl) rest
  | arr items ih => exact readsBack_arr hlayout ih
  | obj members ih => exact readsBack_obj hlayout ih

/-- The text of a tree in a layout denotes the tree. -/
theorem read?_write (hlayout : layout.IsBlank) (json : Json) (level : Nat) :
    Document.read? (String.ofList (json.write layout level)) = some json.document := by
  have hread := readFrom?_write hlayout json (.value []) [] level [] [] (State.admits_value [])
    (by simp)
  have hend : tokens? [] = some [] := by
    rw [tokens?]
    rfl
  rw [List.nil_append, List.append_nil] at hread
  rw [Document.read?, String.toList_ofList, hread, readFrom?, hend]
  rfl

theorem read?_compact (json : Json) : Document.read? json.compact = some json.document :=
  read?_write Layout.isBlank_compact json 0

theorem read?_pretty (json : Json) : Document.read? json.pretty = some json.document :=
  read?_write Layout.isBlank_pretty json 0

end RailsSchema.Json
