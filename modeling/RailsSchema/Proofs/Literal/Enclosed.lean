import RailsSchema.Proofs.Literal.Brackets
import RailsSchema.Proofs.Literal.Composition
import RailsSchema.Proofs.Literal.RoundTrip

/-!
# Texts put into brackets

A text that is read to its end as a list or an option map can be put into brackets to make a value
of it, if the search for the closing bracket sees the quotes that the reader saw. It does so in
quoted texts, groups, callables and keys. Inside a bare token an apostrophe is a character like any
other to the reader, though, while the search takes it for a quote, so an odd number of them leaves
a quote open behind the token.

* `balanced_of_token`: the search passes over a token with an even number of apostrophes;
* `Spells.balanced`, `SpellsKey.balanced`: what it passes over of all that is read;
* `parseValue_enclosed_iff`: what is read of a text in brackets if they are a group;
* `parseValue_enclosed`: lists and maps in brackets.
-/

namespace RailsSchema

open Text
open Written (isPlain_of_isTokenChar balanced_of_isWord)

/-! ## Apostrophes in tokens -/

namespace Literal

/-- The quote that stands open after some number of apostrophes. -/
def openAfter (n : Nat) : Option Char := if Even n then none else some '\''

theorem afterGroup?_apostrophe (pending : List Bracket) (n : Nat) (cs : List Char) :
    afterGroup? pending (openAfter n) ('\'' :: cs) =
      afterGroup? pending (openAfter (n + 1)) cs := by
  by_cases hn : Even n
  · rw [openAfter, if_pos hn, openAfter, if_neg (by simpa [Nat.even_add_one] using hn)]
    exact afterGroup?_quote (by decide) pending cs
  · rw [openAfter, if_neg hn, openAfter, if_pos (Nat.even_add_one.mpr hn)]
    simp [afterGroup?]

theorem afterGroup?_tokenChar {c : Char} (h : isTokenChar c = true) (hne : c ≠ '\'')
    (pending : List Bracket) (n : Nat) (cs : List Char) :
    afterGroup? pending (openAfter n) (c :: cs) = afterGroup? pending (openAfter n) cs := by
  unfold openAfter
  split
  · exact afterGroup?_plain (isPlain_of_isTokenChar h hne) pending cs
  · simp [afterGroup?, hne]

/-- Of a token the search sees the apostrophes and nothing else. -/
theorem afterGroup?_token {token : List Char} (h : ∀ c ∈ token, isTokenChar c = true)
    (pending : List Bracket) (n : Nat) (rest : List Char) :
    afterGroup? pending (openAfter n) (token ++ rest) =
      afterGroup? pending (openAfter (n + token.count '\'')) rest := by
  induction token generalizing n with
  | nil => rfl
  | cons c token ih =>
    obtain ⟨hc, htoken⟩ := List.forall_mem_cons.mp h
    rw [List.cons_append]
    by_cases hquote : c = '\''
    · subst hquote
      rw [afterGroup?_apostrophe, ih htoken, List.count_cons_self, Nat.add_right_comm,
        Nat.add_assoc]
    · rw [afterGroup?_tokenChar hc hquote, ih htoken, List.count_cons_of_ne hquote]

theorem balanced_of_token {token : List Char} (h : ∀ c ∈ token, isTokenChar c = true)
    (heven : Even (token.count '\'')) : Balanced token := by
  intro pending _ rest
  have hpassed := afterGroup?_token h pending 0 rest
  rwa [Nat.zero_add, openAfter, if_pos .zero, openAfter, if_pos heven] at hpassed

/-! ## What is read is balanced -/

/-- Whether the number of apostrophes is even, if a literal is a symbol. -/
def Paired : Literal → Prop
  | .symbol name => Even (name.toList.count '\'')
  | _ => True

theorem count_normalize (cs : List Char) :
    (Numeral.normalize cs).count '\'' = cs.count '\'' := by
  unfold Numeral.normalize
  split <;> simp

/-- Only tokens that are symbols have apostrophes. -/
theorem even_count_of_paired {marked : Bool} {token : List Char}
    (h : (ofToken marked token).Paired) : Even (token.count '\'') := by
  have heven : '\'' ∉ token → Even (token.count '\'') := by
    intro hnone
    rw [List.count_eq_zero_of_not_mem hnone]
    exact .zero
  unfold ofToken at h
  split at h
  · next word hword =>
    refine heven fun hmem => ?_
    rw [← String.toList_ofList (l := token), eq_word_of_ofWord? hword] at hmem
    exact absurd (isWordChar_of_mem_word word _ hmem) (by decide)
  split at h
  · next hnumeral =>
    rw [Bool.and_eq_true] at hnumeral
    refine heven fun hmem => ?_
    rw [← List.count_pos_iff, ← count_normalize, List.count_pos_iff] at hmem
    exact absurd ((Numeral.isCanonical_normalize hnumeral.2).mem hmem) (by decide)
  · have hname : Even ((String.ofList token).toList.count '\'') := h
    rwa [String.toList_ofList] at hname

theorem balanced_of_blanks {blanks : List Char} (h : ∀ c ∈ blanks, isBlank c = true) :
    Balanced blanks := balanced_of_plain fun c hc => isPlain_of_isBlank (h c hc)

theorem Spells.balanced {room : Nat} {taken : List Char} {next : Option Char} {l : Literal}
    (h : Spells room taken next l) (hl : l.Paired) : Balanced taken := by
  cases h with
  | quoted hq h => exact .quoted hq h
  | callable hblanks hbody =>
    have hbehind := (balanced_of_blanks hblanks).append (balanced_of_group? hbody rfl)
    exact (hbehind.cons_plain (by decide)).cons_plain (by decide)
  | group hgroup hrest => exact balanced_of_group? hgroup hrest
  | token h _ _ _ => exact balanced_of_token h.2 (even_count_of_paired hl)
  | marked h _ =>
    exact (balanced_of_token h.2 (even_count_of_paired hl)).cons_plain (by decide)

theorem SpellsKey.balanced {taken : List Char} {next : Option Char} {key : List Char}
    (h : SpellsKey taken next key) : Balanced taken := by
  have harrow {blanks blanks' : List Char} (hblanks : ∀ c ∈ blanks, isBlank c = true)
      (hblanks' : ∀ c ∈ blanks', isBlank c = true) :
      Balanced (blanks ++ '=' :: '>' :: blanks') := by
    have hbehind := (balanced_of_blanks hblanks').cons_plain (by decide : isPlain '>' = true)
    exact (balanced_of_blanks hblanks).append (hbehind.cons_plain (by decide))
  cases h with
  | @quoted _ q _ blanks blanks' hq h hblanks hblanks' =>
    have hkey := (Balanced.quoted hq h).append (harrow hblanks hblanks')
    rwa [List.cons_append, List.append_assoc, List.singleton_append] at hkey
  | symbol h hblanks hblanks' =>
    exact ((balanced_of_isWord h).append (harrow hblanks hblanks')).cons_plain (by decide)
  | label h hblanks _ =>
    exact (balanced_of_isWord h).append ((balanced_of_blanks hblanks).cons_plain (by decide))

end Literal

open Literal

/-! ## Lists and maps that are read to their end -/

namespace Reader

variable {α : Type} {reader : Reader α} {cutAt : List Char → Cut} {P : α → Prop}

/-- Whether what a reader takes off a text is balanced, if the value read has a property. -/
structure TakesBalanced (reader : Reader α) (P : α → Prop) : Prop where
  exists_taken : ∀ {cs rest : List Char} {a : α}, reader.run cs = some (a, rest) → P a →
    ∃ taken, cs = taken ++ rest ∧ Balanced taken

theorem balanced_separators {separators : List Char}
    (h : ∀ c ∈ separators, isSeparator c = true) : Balanced separators := by
  refine balanced_of_plain fun c hc => ?_
  have hseparator := h c hc
  rw [isSeparator, Bool.or_eq_true, beq_iff_eq] at hseparator
  rcases hseparator with hblank | rfl
  · exact isPlain_of_isBlank hblank
  · decide

/-- A text that is read to its end is balanced, if each of its items has the property. -/
theorem TakesBalanced.listing (h : reader.TakesBalanced P) {cs : List Char}
    (hcut : (reader.listing cutAt cs).cut = none)
    (hitems : ∀ a ∈ (reader.listing cutAt cs).items, P a) : Balanced cs := by
  fun_induction Reader.listing reader cutAt cs with
  | case1 cs hcs => exact balanced_separators (List.dropWhile_eq_nil_iff.mp hcs)
  | case2 => cases hcut
  | case3 cs c following hcs a rest hrun others ih =>
    obtain ⟨hitem, hothers⟩ := List.forall_mem_cons.mp hitems
    obtain ⟨taken, htaken, hbalanced⟩ := h.exists_taken hrun hitem
    -- separators, the item, and all that is behind it
    have hseparators : Balanced (cs.takeWhile isSeparator) :=
      balanced_separators fun c hc => List.mem_takeWhile_imp hc
    rw [← List.takeWhile_append_dropWhile (p := isSeparator) (l := cs), hcs, htaken]
    exact hseparators.append (hbalanced.append (ih hcut hothers))

end Reader

namespace Literal

theorem takesBalanced_reader (room : Nat) : (reader room).TakesBalanced Paired := by
  constructor
  intro cs rest l h hl
  obtain ⟨blanks, taken, rfl, hblanks, hspells⟩ := read?_eq_some_iff.mp h
  refine ⟨blanks ++ taken, (List.append_assoc _ _ _).symm, ?_⟩
  exact (balanced_of_blanks hblanks).append (hspells.balanced hl)

theorem takesBalanced_entryReader {reader : Reader Literal} (h : reader.TakesBalanced Paired) :
    (entryReader reader).TakesBalanced fun entry => entry.2.Paired := by
  constructor
  intro cs rest entry hrun hentry
  obtain ⟨key, behind, hkey, -, hvalue⟩ := entryReader_eq_some_iff.mp hrun
  obtain ⟨front, rfl, hspells, -⟩ := key?_eq_some_iff.mp hkey
  obtain ⟨taken, rfl, hbalanced⟩ := h.exists_taken hvalue hentry
  exact ⟨front ++ taken, (List.append_assoc _ _ _).symm, hspells.balanced.append hbalanced⟩

end Literal

/-! ## In brackets -/

theorem Text.isGroup_of_balanced (b : Bracket) {inner : List Char} (h : Balanced inner) :
    IsGroup (b.opening :: (inner ++ [b.closing])) :=
  (group?_eq_some_iff.mp (group?_of_balanced b h [])).2

variable {settings : Settings}

/-- The text up to its end is a group, if a value is read from it up to there. -/
theorem isGroup_of_read? {room : Nat} {b : Bracket} {cs rest : List Char} {l : Literal}
    (h : read? (room + 1) (b.opening :: cs) = some (l, rest))
    (hrest : offsetOf (b.opening :: cs) rest = byteLength (b.opening :: cs)) :
    IsGroup (b.opening :: cs) := by
  have htrim : trimStart (b.opening :: cs) = b.opening :: cs := by
    refine trimStart_of_stops (stops_cons.mpr ?_)
    cases b <;> decide
  have hnested := h
  rw [read?_succ_of_opening (by rw [htrim, List.head?_cons]), htrim] at hnested
  obtain ⟨group, hgroup, heq⟩ := Option.map_eq_some_iff.mp hnested
  obtain ⟨-, rfl⟩ := Prod.mk.inj heq
  have hend : groupEnd? (b.opening :: cs) 0 = .ok (some (byteLength (b.opening :: cs))) := by
    rw [groupEnd?_zero, hgroup]
    exact congrArg (fun stop => Except.ok (some stop)) hrest
  obtain ⟨group, hgroup, hrest⟩ := exists_group?_of_groupEnd? hend
  rw [text_of_group? hgroup hrest]
  exact (group?_eq_some_iff.mp hgroup).2

/-- A text in brackets is read as what the brackets hold, up to the last of them, just if they are a
group. -/
theorem parseValue_enclosed_iff (hroom : 1 ≤ settings.maxDepth) (b : Bracket) (cs : List Char) :
    parseValue settings (b.opening :: (cs ++ [b.closing])) 0 =
        .ok (some ((ofGroup (reader (settings.maxDepth - 1)) ⟨b, cs, []⟩).value
          settings.arrayFilter, byteLength cs + 2)) ↔
      IsGroup (b.opening :: (cs ++ [b.closing])) := by
  obtain ⟨room, hdepth⟩ := Nat.exists_eq_add_of_le' hroom
  have hlength : byteLength (b.opening :: (cs ++ [b.closing])) = byteLength cs + 2 := by
    have hopening : b.opening.utf8Size = 1 := by cases b <;> rfl
    have hclosing : b.closing.utf8Size = 1 := by cases b <;> rfl
    simp only [byteLength_cons, byteLength_append, byteLength_nil, hopening, hclosing]
    omega
  have hread := parseValue_append settings [] (b.opening :: (cs ++ [b.closing]))
  rw [List.nil_append, byteLength_nil, hdepth] at hread
  rw [hread, hdepth, Nat.add_sub_cancel]
  constructor
  -- of the value that was read only the end counts here
  · intro h
    obtain ⟨⟨l, rest⟩, hl, heq⟩ := Option.map_eq_some_iff.mp (Except.ok.inj h)
    exact isGroup_of_read? hl (by rw [hlength, (Prod.mk.inj heq).2])
  · intro h
    have hgroup : group? (b.opening :: (cs ++ [b.closing])) = some ⟨b, cs, []⟩ :=
      group?_eq_some_iff.mpr ⟨(List.append_nil _).symm, h⟩
    rw [read?_of_group? hgroup, Option.map_some, offsetOf_nil, hlength]

/-- A text in brackets is read as the list or the map that the text is, up to the last bracket, just
if the brackets are a group. They are if the text is read to its end and none of the symbols that
stand in it, outside of brackets, has an odd number of apostrophes. -/
theorem parseValue_enclosed (hroom : 1 ≤ settings.maxDepth) (cs : List Char) :
    let list : Except OffsetError (Option (Value × Nat)) :=
      .ok (some (.array (itemsInside settings 1 cs), byteLength cs + 2))
    let map : Except OffsetError (Option (Value × Nat)) :=
      .ok (some (.hash (entriesInside settings 1 cs), byteLength cs + 2))
    (((items (settings.maxDepth - 1) cs).cut = none →
        (∀ item ∈ (items (settings.maxDepth - 1) cs).items, item.Paired) →
        parseValue settings ('[' :: (cs ++ [']'])) 0 = list) ∧
      (parseValue settings ('[' :: (cs ++ [']'])) 0 = list ↔ IsGroup ('[' :: (cs ++ [']'])))) ∧
    (((entries (settings.maxDepth - 1) cs).cut = none →
        (∀ entry ∈ (entries (settings.maxDepth - 1) cs).items, entry.2.Paired) →
        parseValue settings ('\x7b' :: (cs ++ ['\x7d'])) 0 = map) ∧
      (parseValue settings ('\x7b' :: (cs ++ ['\x7d'])) 0 = map ↔
        IsGroup ('\x7b' :: (cs ++ ['\x7d'])))) := by
  intro list map
  have hreader := takesBalanced_reader (settings.maxDepth - 1)
  have hlist := parseValue_enclosed_iff hroom .square cs
  have hmap := parseValue_enclosed_iff hroom .curly cs
  refine ⟨⟨fun hcut hitems => hlist.mpr ?_, hlist⟩, ⟨fun hcut hentries => hmap.mpr ?_, hmap⟩⟩
  · exact isGroup_of_balanced .square (hreader.listing hcut hitems)
  · exact isGroup_of_balanced .curly ((takesBalanced_entryReader hreader).listing hcut hentries)

/-- Two items, with a bracket in quotes and two apostrophes in a symbol. -/
def pairedItems : List Char := "[']'], o'c'".toList

/-- Two entries, with a brace in quotes and two apostrophes in a symbol. -/
def pairedEntries : List Char := "a: ['\x7d'], é: o'c'".toList

set_option maxRecDepth 4000 in
theorem parseValue_enclosed_paired :
    1 ≤ Settings.maxDepth ⟨.present, 2⟩ ∧
    ((items 1 pairedItems).cut = none ∧ (∀ item ∈ (items 1 pairedItems).items, item.Paired) ∧
      parseValue ⟨.present, 2⟩ ('[' :: (pairedItems ++ [']'])) 0 =
        .ok (some (.array [.array [.str "]"], .symbol "o'c'"], 13))) ∧
    ((entries 1 pairedEntries).cut = none ∧
      (∀ entry ∈ (entries 1 pairedEntries).items, entry.2.Paired) ∧
      parseValue ⟨.present, 2⟩ ('\x7b' :: (pairedEntries ++ ['\x7d'])) 0 =
        .ok (some (.hash [("a", .array [.str "\x7d"]), ("é", .symbol "o'c'")], 20))) := by
  have hroom : 1 ≤ Settings.maxDepth ⟨.present, 2⟩ := by decide
  refine ⟨hroom, ?_, ?_⟩
  · have hcut : (items 1 pairedItems).cut = none := by decide +kernel
    have hitems : (items 1 pairedItems).items = [.array [.str "]"] none, .symbol "o'c'"] := by cbv
    have hpaired : ∀ item ∈ (items 1 pairedItems).items, item.Paired := by
      rw [hitems]
      simp only [List.forall_mem_cons, Paired]
      exact ⟨trivial, by decide, List.forall_mem_nil _⟩
    have hread := (parseValue_enclosed hroom pairedItems).1.1 hcut hpaired
    have hvalue : itemsInside ⟨.present, 2⟩ 1 pairedItems =
        [.array [.str "]"], .symbol "o'c'"] := congrArg (itemValues .present) hitems
    have hlength : byteLength pairedItems + 2 = 13 := by decide
    rw [hvalue, hlength] at hread
    exact ⟨hcut, hpaired, hread⟩
  · have hcut : (entries 1 pairedEntries).cut = none := by decide +kernel
    have hitems : (entries 1 pairedEntries).items =
        [("a", .array [.str "\x7d"] none), ("é", .symbol "o'c'")] := by cbv
    have hpaired : ∀ entry ∈ (entries 1 pairedEntries).items, entry.2.Paired := by
      rw [hitems]
      simp only [List.forall_mem_cons, Paired]
      exact ⟨trivial, by decide, List.forall_mem_nil _⟩
    have hread := (parseValue_enclosed hroom pairedEntries).2.1 hcut hpaired
    have hvalue : entriesInside ⟨.present, 2⟩ 1 pairedEntries =
        [("a", .array [.str "\x7d"]), ("é", .symbol "o'c'")] :=
      congrArg (fun entries => OrderedMap.ofEntries (entryValues .present entries)) hitems
    have hlength : byteLength pairedEntries + 2 = 20 := by decide
    rw [hvalue, hlength] at hread
    exact ⟨hcut, hpaired, hread⟩

set_option maxRecDepth 4000 in
/-- Each of two texts is read to its end, and cannot be read in brackets: the apostrophe in its
symbol is taken for a quote. -/
theorem parseValue_enclosed_unpaired :
    (entriesInside {} 1 "a: b'c".toList = [("a", .symbol "b'c")] ∧
      (entries 63 "a: b'c".toList).cut = none ∧
      parseValue {} "\x7ba: b'c\x7d".toList 0 = .ok none) ∧
    (itemsInside {} 1 "b'c".toList = [.symbol "b'c"] ∧
      (items 63 "b'c".toList).cut = none ∧
      parseValue {} "[b'c]".toList 0 = .ok none) := by
  refine ⟨⟨?_, ?_, ?_⟩, ?_, ?_, ?_⟩
  · cbv
  · decide +kernel
  · cbv
  · cbv
  · decide +kernel
  · cbv

end RailsSchema
