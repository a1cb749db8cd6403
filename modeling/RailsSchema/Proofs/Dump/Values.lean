import RailsSchema.Proofs.Dump.Basic

/-!
# The text of values in a dump

The text of a value runs over no line (`Value.newline_not_mem_text`), and a keyword search meets
nothing in it (`Value.silent_text`), provided that it meets nothing in the strings of the value.
`Probe.Mutes` says so of one string: whatever follows the closing quote, no place in the string is
one that the search is after. Strings without barred words are mute for all regular probes
(`Probe.mutes_of_isPlain`).
-/

namespace RailsSchema

open Text

/-- Whether a search finds nothing in a string between double quotes. -/
def Text.Probe.Mutes (p : Probe) (content : String) : Prop :=
  ∀ rest, p.Silent (some '"') content.toList ('"' :: rest)

/-! ## Strings -/

namespace Text.Probe

variable {p : Probe}

theorem Regular.absent (hp : p.Regular) {content : String} (h : IsPlain content) :
    ¬ p.word <:+: content.toList := by
  obtain ⟨word, hmem, hword⟩ := hp.barred
  intro hin
  exact h word hmem (hword.trans hin)

theorem mutes_of_isPlain (hp : p.Regular) {content : String} (h : IsPlain content) :
    p.Mutes content :=
  fun rest => silent_of_absent (hp.absent h) hp.closing.1 _ rest

/-- The source of a callable is silent, since no search runs over its closing brace. -/
theorem silent_callable (hp : p.Regular) {source : String} (hsource : IsCallable source.toList)
    (h : IsPlain source) (before : Option Char) (rest : List Char) :
    p.Silent before source.toList rest := by
  obtain ⟨blanks, body, inner, heq, -, hgroup, -⟩ := Literal.exists_of_isCallable hsource
  have hbody : body = '\x7b' :: (inner ++ ['\x7d']) := by
    have := Group.eq_text_append hgroup
    rwa [List.append_nil] at this
  have hsplit : source.toList = ('-' :: '>' :: (blanks ++ '\x7b' :: inner)) ++ ['\x7d'] := by
    rw [heq, hbody]
    simp
  have habsent : ¬ p.word <:+: '-' :: '>' :: (blanks ++ '\x7b' :: inner) := by
    intro hin
    apply hp.absent h
    rw [hsplit]
    exact hin.trans (List.prefix_append _ _).isInfix
  rw [hsplit, silent_append]
  refine ⟨silent_of_absent habsent hp.closing.2 before rest, ?_⟩
  exact silent_marks hp (by decide) _ rest

end Text.Probe

/-! ## What can follow an option -/

theorem follows_cons {c : Char} (hblank : isBlank c = false) (hword : isWordChar c = false)
    (hpoint : c ≠ '.') (hopener : isOpener c = false) (cs : List Char) : Follows (c :: cs) := by
  refine ⟨stops_cons.mpr (by simp [hword, hpoint]), ?_⟩
  rw [trimStart_of_stops (stops_cons.mpr hblank)]
  exact stops_cons.mpr hopener

theorem follows_comma (cs : List Char) : Follows (',' :: cs) :=
  follows_cons (by decide) (by decide) (by decide) (by decide) cs

theorem follows_closing (b : Bracket) (cs : List Char) : Follows (b.closing :: cs) := by
  cases b <;> exact follows_cons (by decide) (by decide) (by decide) (by decide) cs

/-! ## Values -/

namespace Value

variable {plain : String → Prop}

theorem isSymbolName_of_isWord {name : String} (h : IsWord name.toList)
    (hword : Keyword.ofWord? name = none) : IsSymbolName name.toList := by
  refine ⟨h.1, fun c hc => ?_, by rwa [String.ofList_toList]⟩
  exact ⟨Literal.isTokenChar_of_isWordChar (h.2 c hc), ne_of_class (h.2 c hc) (by decide)⟩

theorem IsCanonical.isWritable {value : Value} (h : value.IsCanonical plain) :
    value.IsWritable := by
  cases value with
  | symbol name => exact isSymbolName_of_isWord h.1 h.2
  | str content => exact h.1
  | callable source => exact h.1
  | _ => exact h

theorem Canonical.writable {value : Value} (h : value.Canonical plain) : value.Writable :=
  h.imp fun _ => IsCanonical.isWritable

theorem Canonical.mono {other : String → Prop} (himp : ∀ content, plain content → other content)
    {value : Value} (h : value.Canonical plain) : value.Canonical other := by
  refine h.imp fun v hv => ?_
  cases v with
  | str content => exact ⟨hv.1, hv.2.1, himp content hv.2.2⟩
  | _ => exact hv

theorem Canonical.item {items : List Value} (h : (array items).Canonical plain) {item : Value}
    (hitem : item ∈ items) : item.Canonical plain := eachItem_iff.mp h.2 item hitem

theorem Canonical.entry {entries : Options} (h : (hash entries).Canonical plain)
    {entry : String × Value} (hentry : entry ∈ entries) :
    IsWord entry.1.toList ∧ entry.2.Canonical plain :=
  ⟨h.1.2 entry.1 (List.mem_map_of_mem hentry), eachEntry_iff.mp h.2 entry hentry⟩

end Value

namespace Dump

variable {plain : String → Prop} {p : Probe}

theorem text_array (items : List Value) :
    (Value.array items).labelled.text =
      '[' :: (comma.intercalate (items.map fun item => item.labelled.text) ++ [']']) := by
  rw [Value.labelled, Written.text, Written.itemTexts_eq_map, Value.labelledItems_eq_map,
    List.map_map]
  rfl

theorem text_hash (entries : Options) :
    (Value.hash entries).labelled.text =
      '\x7b' :: (comma.intercalate (entries.map optionText) ++ ['\x7d']) := by
  rw [Value.labelled, Written.text, Written.entryTexts_eq_map, Value.labelledEntries_eq_map,
    List.map_map]
  rfl

theorem mem_intercalate {cs : List (List Char)} {c : Char} (h : c ∈ comma.intercalate cs) :
    c ∈ comma ∨ ∃ part ∈ cs, c ∈ part := by
  induction cs with
  | nil => cases h
  | cons part cs ih =>
    cases cs with
    | nil => exact Or.inr ⟨part, List.mem_cons_self, by simpa [List.intercalate] using h⟩
    | cons next cs =>
      rw [List.intercalate_cons_cons] at h
      rcases List.mem_append.mp h with h | h
      · rcases List.mem_append.mp h with h | h
        · exact Or.inr ⟨part, List.mem_cons_self, h⟩
        · exact Or.inl h
      · rcases ih h with h | ⟨other, hother, hc⟩
        · exact Or.inl h
        · exact Or.inr ⟨other, List.mem_cons_of_mem part hother, hc⟩

theorem newline_not_mem_intercalate {parts : List (List Char)}
    (h : ∀ part ∈ parts, '\n' ∉ part) : '\n' ∉ comma.intercalate parts := by
  intro hmem
  rcases mem_intercalate hmem with hc | ⟨part, hpart, hc⟩
  · revert hc
    decide
  · exact h part hpart hc

/-- A list of parts is silent if each part is, whatever stands before it. -/
theorem silent_intercalate (hp : p.Regular) {parts : List (List Char)}
    (h : ∀ part ∈ parts, ∀ before rest, Follows rest → p.Silent before part rest)
    (before : Option Char) {rest : List Char} (hrest : Follows rest) :
    p.Silent before (comma.intercalate parts) rest := by
  induction parts generalizing before with
  | nil => trivial
  | cons part parts ih =>
    cases parts with
    | nil =>
      rw [List.intercalate_singleton]
      exact h part List.mem_cons_self before rest hrest
    | cons next parts =>
      rw [List.intercalate_cons_cons, List.append_assoc, Probe.silent_append, Probe.silent_append]
      refine ⟨?_, ?_, ?_⟩
      · rw [List.append_assoc]
        exact h part List.mem_cons_self before _ (follows_comma _)
      · exact Probe.silent_marks hp (by decide) _ _
      · exact ih (fun other hother => h other (List.mem_cons_of_mem part hother)) _

theorem newline_not_mem_of_isWord {cs : List Char} (h : IsWord cs) : '\n' ∉ cs :=
  Literal.not_mem_of_isWord h (by decide)

theorem newline_not_mem_optionText {option : String × Value} (hkey : IsWord option.1.toList)
    (h : '\n' ∉ option.2.labelled.text) : '\n' ∉ optionText option := by
  intro hmem
  simp only [optionText, KeyForm.text, List.append_assoc, List.mem_append] at hmem
  rcases hmem with hmem | hmem | hmem
  · exact newline_not_mem_of_isWord hkey hmem
  · revert hmem
    decide
  · exact h hmem

end Dump

open Dump

/-- The text of a value is on one line. -/
theorem Value.newline_not_mem_text {plain : String → Prop} {value : Value}
    (h : value.Canonical plain) : '\n' ∉ value.labelled.text := by
  induction value using Value.induction with
  | str content =>
    have hcontent := h.2.1
    intro hmem
    simp [Value.labelled, Written.text] at hmem
    exact hcontent hmem
  | callable source => exact h.2.1
  | hash entries ih =>
    have hinner : '\n' ∉ comma.intercalate (entries.map optionText) := by
      refine newline_not_mem_intercalate fun part hpart => ?_
      obtain ⟨entry, hentry, rfl⟩ := List.mem_map.mp hpart
      obtain ⟨hkey, hvalue⟩ := h.entry hentry
      exact newline_not_mem_optionText hkey (ih entry hentry hvalue)
    rw [text_hash]
    simpa using hinner
  | array items ih =>
    have hinner : '\n' ∉ comma.intercalate (items.map fun item => item.labelled.text) := by
      refine newline_not_mem_intercalate fun part hpart => ?_
      obtain ⟨item, hitem, rfl⟩ := List.mem_map.mp hpart
      exact ih item hitem (h.item hitem)
    rw [text_array]
    simpa using hinner
  | numeric digits =>
    intro hmem
    rcases Numeral.IsCanonical.mem h hmem with hc | hc | hc <;> revert hc <;> decide
  | symbol name =>
    have hname := newline_not_mem_of_isWord h.1
    simpa [Value.labelled, Written.text] using hname
  | keyword word => cases word <;> decide

namespace Dump

variable {plain : String → Prop} {p : Probe}

theorem silent_mark (hp : p.Regular) {c : Char} (hc : isWordChar c = false)
    (before : Option Char) (rest : List Char) : p.fires before (c :: rest) = false :=
  Probe.fires_of_head (hp.head_ne (Or.inl hc)) hp.ne_nil before rest

/-- Marks around a text leave it silent. -/
theorem silent_enclosed (hp : p.Regular) {c d : Char} (hc : isWordChar c = false)
    (hd : isWordChar d = false) {cs rest : List Char} (h : p.Silent (some c) cs (d :: rest))
    (before : Option Char) : p.Silent before (c :: (cs ++ [d])) rest :=
  ⟨silent_mark hp hc before _, Probe.silent_append.mpr ⟨h, silent_mark hp hd _ _, trivial⟩⟩

/-- A key is silent, since a colon follows it. -/
theorem silent_key (hp : p.Regular) {key : String} (hkey : IsWord key.toList)
    (before : Option Char) (rest : List Char) :
    p.Silent before (KeyForm.label.text key) rest := by
  rw [KeyForm.text, Probe.silent_append]
  have hstop : Stops (fun c => isWordChar c || c == '.') ([':', ' '] ++ rest) :=
    stops_cons.mpr (by decide)
  refine ⟨Probe.silent_word hp hkey.2 hstop ?_, Probe.silent_marks hp (by decide) _ _⟩
  intro front hfront _
  refine hp.accepts_mark (fun c hc => hkey.2 c ?_) ':' _ (by decide) (by decide)
  rw [hfront]
  exact List.mem_append_right front hc

theorem silent_symbol (hp : p.Regular) {name : String} (hname : IsWord name.toList)
    (before : Option Char) {rest : List Char} (hrest : Follows rest) :
    p.Silent before (':' :: name.toList) rest := by
  refine ⟨silent_mark hp (by decide) before _, ?_⟩
  refine Probe.silent_word hp hname.2 hrest.1 fun front hfront hopens => ?_
  refine hp.accepts_rest ?_ rest hrest
  cases front with
  | nil => exact hopens
  | cons c front =>
    obtain ⟨d, hd, hlast⟩ := exists_lastOf (List.cons_ne_nil c front) (some ':')
    rw [hlast] at hopens
    exact hp.opens d (hname.2 d (by rw [hfront]; exact List.mem_append_left _ hd)) hopens

end Dump

/-- Nothing is met in a value, whatever stands before it, if nothing is met in its strings. -/
theorem Value.silent_text {plain : String → Prop} {p : Probe} (hp : p.Regular)
    (hplain : ∀ content, plain content → p.Mutes content) {value : Value}
    (h : value.Canonical plain) (before : Option Char) {rest : List Char} (hrest : Follows rest) :
    p.Silent before value.labelled.text rest := by
  induction value using Value.induction generalizing before rest with
  | str content =>
    exact silent_enclosed hp (by decide) (by decide) (hplain content h.2.2 rest) before
  | callable source => exact Probe.silent_callable hp h.1 h.2.2 before rest
  | hash entries ih =>
    rw [text_hash]
    refine silent_enclosed hp (by decide) (by decide) ?_ before
    refine silent_intercalate hp (fun part hpart before rest hrest => ?_) _
      (follows_closing .curly rest)
    obtain ⟨entry, hentry, rfl⟩ := List.mem_map.mp hpart
    obtain ⟨hkey, hvalue⟩ := h.entry hentry
    exact Probe.silent_append.mpr ⟨silent_key hp hkey before _, ih entry hentry hvalue _ hrest⟩
  | array items ih =>
    rw [text_array]
    refine silent_enclosed hp (by decide) (by decide) ?_ before
    refine silent_intercalate hp (fun part hpart before rest hrest => ?_) _
      (follows_closing .square rest)
    obtain ⟨item, hitem, rfl⟩ := List.mem_map.mp hpart
    exact ih item hitem (h.item hitem) before hrest
  | numeric digits => exact Probe.silent_numeral hp h before rest
  | symbol name => exact silent_symbol hp h.1 before hrest
  | keyword word =>
    refine Probe.silent_word hp (Literal.isWordChar_of_mem_word word) hrest.1 ?_
    intro front hfront _
    exact absurd ⟨front, [], by rw [List.append_nil]; exact hfront.symm⟩ (hp.keyword word)

end RailsSchema
