import RailsSchema.Literal.Listing
import RailsSchema.Proofs.Entries
import RailsSchema.Proofs.Literal.Lists
import RailsSchema.Proofs.Literal.Scalars

/-!
# Reading a written value back

A literal that was printed is read as the value that was printed, whichever form each key has,
whatever stands in front of it, and whatever follows it as long as a bare token ends where it
should. The text of a list or a map is cut off by the scan for its closing bracket before it is
read, so the proof has two inductions over the written value: its text is balanced
(`Written.balanced_text`), and it is read back (`Literal.read?_text`).
`parseValue_text` states the result with byte offsets.
-/

namespace RailsSchema

open Text

namespace Written

mutual

/-- The literal that reading a written value gives: nothing is left out and nothing is cut. -/
def literal : Written → Literal
  | .str text => .str text
  | .callable source => .callable source
  | .hash entries => .hash (entryLiterals entries) none
  | .array items => .array (itemLiterals items) none
  | .numeric text => .numeric text
  | .symbol name => .symbol name
  | .keyword word => .keyword word

/-- The literals of the items of a list. -/
def itemLiterals : List Written → List Literal
  | [] => []
  | item :: items => item.literal :: itemLiterals items

/-- The keys and the literals of a map. -/
def entryLiterals : List (KeyForm × String × Written) → List (String × Literal)
  | [] => []
  | (_, key, entry) :: entries => (key, entry.literal) :: entryLiterals entries

end

theorem itemLiterals_eq_map (items : List Written) : itemLiterals items = items.map literal := by
  induction items with
  | nil => rfl
  | cons item items ih => simp [itemLiterals, ih]

theorem entryLiterals_eq_map (entries : List (KeyForm × String × Written)) :
    entryLiterals entries = entries.map fun entry => (entry.2.1, entry.2.2.literal) := by
  induction entries with
  | nil => rfl
  | cons entry entries ih => simp [entryLiterals, ih]

/-! ## Members -/

theorem writable_item {items : List Written} (h : (array items).value.Writable) {item : Written}
    (hitem : item ∈ items) : item.value.Writable := by
  simp only [value, Value.Writable, Value.Each, itemValues_eq_map] at h
  exact Value.eachItem_iff.mp h.2 item.value (List.mem_map_of_mem hitem)

theorem writable_entry {entries : List (KeyForm × String × Written)}
    (h : (hash entries).value.Writable) {entry : KeyForm × String × Written}
    (hentry : entry ∈ entries) : IsWord entry.2.1.toList ∧ entry.2.2.value.Writable := by
  simp only [value, Value.Writable, Value.Each, entryValues_eq_map] at h
  obtain ⟨⟨-, hkeys⟩, hentries⟩ := h
  have hmem : (entry.2.1, entry.2.2.value) ∈
      entries.map fun entry => (entry.2.1, entry.2.2.value) :=
    List.mem_map_of_mem hentry
  exact ⟨hkeys entry.2.1 (List.mem_map_of_mem hmem), Value.eachEntry_iff.mp hentries _ hmem⟩

theorem depth_item {items : List Written} {n : Nat} (h : (array items).value.depth ≤ n + 1)
    {item : Written} (hitem : item ∈ items) : item.value.depth ≤ n := by
  simp only [value, Value.depth, itemValues_eq_map, Nat.add_le_add_iff_right] at h
  exact Value.itemDepth_le_iff.mp h item.value (List.mem_map_of_mem hitem)

theorem depth_entry {entries : List (KeyForm × String × Written)} {n : Nat}
    (h : (hash entries).value.depth ≤ n + 1) {entry : KeyForm × String × Written}
    (hentry : entry ∈ entries) : entry.2.2.value.depth ≤ n := by
  simp only [value, Value.depth, entryValues_eq_map, Nat.add_le_add_iff_right] at h
  have hmem : (entry.2.1, entry.2.2.value) ∈
      entries.map fun entry => (entry.2.1, entry.2.2.value) :=
    List.mem_map_of_mem hentry
  exact Value.entryDepth_le_iff.mp h _ hmem

/-! ## The value -/

/-- The literal stands for the value that was written, under the filter that keeps all items. -/
theorem value_literal {w : Written} (hw : w.value.Writable) :
    w.literal.value .present = w.value := by
  induction w using Written.induction with
  | hash entries ih =>
    have hvalues : Literal.entryValues .present (entryLiterals entries) = entryValues entries := by
      rw [entryLiterals_eq_map, Literal.entryValues_eq_map, entryValues_eq_map, List.map_map]
      refine List.map_congr_left fun entry hentry => ?_
      exact congrArg (Prod.mk entry.2.1) (ih entry hentry (writable_entry hw hentry).2)
    rw [literal, Literal.value, hvalues, OrderedMap.ofEntries_of_nodup hw.self.1, value]
  | array items ih =>
    have hvalues : Literal.itemValues .present (itemLiterals items) = itemValues items := by
      have hall : ∀ v ∈ items.map (Literal.value .present ∘ literal),
          ArrayFilter.present.keeps v = true := fun _ _ => rfl
      rw [itemLiterals_eq_map, Literal.itemValues_eq_filter, itemValues_eq_map, List.map_map,
        List.filter_eq_self.mpr hall]
      exact List.map_congr_left fun item hitem => ih item hitem (writable_item hw hitem)
    rw [literal, Literal.value, hvalues, value]
  | _ => rfl

/-! ## Where a text begins -/

/-- A written value begins with a character that is neither white space nor a comma. -/
theorem stops_text {w : Written} (hw : w.value.Writable) :
    w.text ≠ [] ∧ Stops isSeparator w.text := by
  have hword : ∀ c, isWordChar c = true → isSeparator c = false := by
    intro c hc
    have hcomma : c ≠ ',' := ne_of_class hc (by decide)
    simp [isSeparator, isBlank_eq_false_of_isWordChar hc, hcomma]
  cases w with
  | str content => exact ⟨by simp [text], stops_cons.mpr (by decide)⟩
  | callable source =>
    obtain ⟨blanks, body, hsource, -⟩ := hw.self
    rw [text, hsource]
    exact ⟨by simp, stops_cons.mpr (by decide)⟩
  | hash entries => exact ⟨by simp [text], stops_cons.mpr (by decide)⟩
  | array items => exact ⟨by simp [text], stops_cons.mpr (by decide)⟩
  | numeric digits =>
    rw [text]
    rcases Numeral.IsCanonical.head hw.self with ⟨d, ds, heq, hd⟩ | ⟨d, ds, heq, -⟩
    · rw [heq]
      exact ⟨by simp, stops_cons.mpr (hword d (Literal.isWordChar_of_isDigit hd))⟩
    · rw [heq]
      exact ⟨by simp, stops_cons.mpr (by decide)⟩
  | symbol name => exact ⟨by simp [text], stops_cons.mpr (by decide)⟩
  | keyword word => cases word <;> exact ⟨by decide, stops_cons.mpr (by decide)⟩

theorem stops_blank_text {w : Written} (hw : w.value.Writable) (rest : List Char) :
    Stops isBlank (w.text ++ rest) := by
  obtain ⟨hne, hstop⟩ := stops_text hw
  cases htext : w.text with
  | nil => exact absurd htext hne
  | cons c cs =>
    rw [htext, stops_cons] at hstop
    rw [List.cons_append, stops_cons, Bool.eq_false_iff]
    intro hblank
    rw [isSeparator_of_isBlank hblank] at hstop
    cases hstop

/-- A key begins with a character that is neither white space nor a comma. -/
theorem stops_key (form : KeyForm) {key : String} (hkey : IsWord key.toList) :
    form.text key ≠ [] ∧ Stops isSeparator (form.text key) := by
  cases form with
  | label =>
    cases hcs : key.toList with
    | nil => exact absurd hcs hkey.1
    | cons c cs =>
      have hc : isWordChar c = true := hkey.2 c (hcs ▸ List.mem_cons_self)
      have hcomma : c ≠ ',' := ne_of_class hc (by decide)
      rw [KeyForm.text, hcs]
      refine ⟨by simp, stops_cons.mpr ?_⟩
      simp [isSeparator, isBlank_eq_false_of_isWordChar hc, hcomma]
  | symbol => exact ⟨by simp [KeyForm.text], stops_cons.mpr (by decide)⟩
  | doubleQuoted => exact ⟨by simp [KeyForm.text], stops_cons.mpr (by decide)⟩
  | singleQuoted => exact ⟨by simp [KeyForm.text], stops_cons.mpr (by decide)⟩

/-! ## Brackets -/

theorem isPlain_of_isTokenChar {c : Char} (h : Literal.isTokenChar c = true) (hq : c ≠ '\'') :
    isPlain c = true := by
  simp only [Literal.isTokenChar, Bool.not_eq_true', Bool.or_eq_false_iff,
    Option.isSome_eq_false_iff, beq_eq_false_iff_ne] at h
  simp [isPlain, isQuote, h.1.2, h.2, h.1.1.1.1.2, hq]

theorem isPlain_of_isWordChar {c : Char} (h : isWordChar c = true) : isPlain c = true :=
  isPlain_of_isTokenChar (Literal.isTokenChar_of_isWordChar h) (ne_of_class h (by decide))

theorem balanced_of_isWord {cs : List Char} (h : IsWord cs) : Balanced cs :=
  balanced_of_plain fun c hc => isPlain_of_isWordChar (h.2 c hc)

theorem balanced_key (form : KeyForm) {key : String} (hkey : IsWord key.toList) :
    Balanced (form.text key) := by
  have harrow : Balanced [' ', '=', '>', ' '] := balanced_of_plain (by decide)
  have hquoted : ∀ q, isQuote q = true → isWordChar q = false →
      Balanced (q :: (key.toList ++ q :: [' ', '=', '>', ' '])) := by
    intro q hq hword
    have h := (Balanced.quoted hq (Literal.not_mem_of_isWord hkey hword)).append harrow
    simpa using h
  cases form with
  | label => exact (balanced_of_isWord hkey).append (balanced_of_plain (by decide))
  | symbol => exact ((balanced_of_isWord hkey).append harrow).cons_plain (by decide)
  | doubleQuoted => exact hquoted '"' (by decide) (by decide)
  | singleQuoted => exact hquoted '\'' (by decide) (by decide)

/-- The scan for the end of a group passes over the items of a list, if it passes over each. -/
theorem balanced_items {items : List Written}
    (h : ∀ item ∈ items, Balanced item.text) :
    Balanced (comma.intercalate (itemTexts items)) := by
  rw [itemTexts_eq_map]
  refine Balanced.intercalate (balanced_of_plain (by decide)) fun part hpart => ?_
  obtain ⟨item, hitem, rfl⟩ := List.mem_map.mp hpart
  exact h item hitem

/-- The scan for the end of a group passes over the entries of a map, if it passes over each
value. -/
theorem balanced_entries {entries : List (KeyForm × String × Written)}
    (h : ∀ entry ∈ entries, IsWord entry.2.1.toList ∧ Balanced entry.2.2.text) :
    Balanced (comma.intercalate (entryTexts entries)) := by
  rw [entryTexts_eq_map]
  refine Balanced.intercalate (balanced_of_plain (by decide)) fun part hpart => ?_
  obtain ⟨entry, hentry, rfl⟩ := List.mem_map.mp hpart
  obtain ⟨hkey, hvalue⟩ := h entry hentry
  exact (balanced_key entry.1 hkey).append hvalue

/-- The scan for the end of a group passes over a written value. -/
theorem balanced_text {w : Written} (hw : w.value.Writable) : Balanced w.text := by
  induction w using Written.induction with
  | str content => exact Balanced.quoted (by decide) hw.self
  | callable source =>
    obtain ⟨blanks, body, inner, hsource, hblanks, hgroup, -⟩ :=
      Literal.exists_of_isCallable hw.self
    have hplain : ∀ c ∈ blanks, isPlain c = true := by
      intro c hc
      exact isPlain_of_isBlank (hblanks c hc)
    rw [text, hsource]
    exact (((balanced_of_plain hplain).append (balanced_of_group? hgroup rfl)).cons_plain
      (by decide)).cons_plain (by decide)
  | hash entries ih =>
    refine Balanced.bracketed .curly (balanced_entries fun entry hentry => ?_)
    obtain ⟨hkey, hvalue⟩ := writable_entry hw hentry
    exact ⟨hkey, ih entry hentry hvalue⟩
  | array items ih =>
    exact Balanced.bracketed .square (balanced_items fun item hitem =>
      ih item hitem (writable_item hw hitem))
  | numeric digits =>
    refine balanced_of_plain fun c hc => ?_
    rcases Numeral.IsCanonical.mem hw.self hc with hd | rfl | rfl
    · exact isPlain_of_isWordChar (Literal.isWordChar_of_isDigit hd)
    · decide
    · decide
  | symbol name =>
    refine (balanced_of_plain fun c hc => ?_).cons_plain (by decide)
    obtain ⟨htoken, hquote⟩ := hw.self.2.1 c hc
    exact isPlain_of_isTokenChar htoken hquote
  | keyword word =>
    exact balanced_of_plain fun c hc =>
      isPlain_of_isWordChar (Literal.isWordChar_of_mem_word word c hc)

end Written

namespace Literal

/-! ## Reading -/

/-- A group whose contents are balanced is read by itself, with one level of nesting less. -/
theorem read?_group (room : Nat) (b : Bracket) {inner : List Char} (h : Balanced inner)
    (rest : List Char) :
    read? (room + 1) (b.opening :: (inner ++ b.closing :: rest)) =
      some (ofGroup (reader room) ⟨b, inner, rest⟩, rest) :=
  read?_of_group? (group?_of_balanced b h rest) room

theorem entryReader_run {reader : Reader Literal} (form : KeyForm) {key : String}
    (hkey : IsWord key.toList) {cs rest : List Char} (hcs : Stops isBlank cs) {literal : Literal}
    (h : reader.run cs = some (literal, rest)) :
    (entryReader reader).run (form.text key ++ cs) = some ((key, literal), rest) := by
  simp [entryReader, key?_text form hkey hcs, h]

/-- The items of a list that was written are read back, if each of them is. -/
theorem items_text {room : Nat} {items : List Written}
    (hw : ∀ item ∈ items, item.value.Writable)
    (hread : ∀ item ∈ items, ∀ rest, Stops isTokenChar rest →
      read? room (item.text ++ rest) = some (item.literal, rest)) :
    Literal.items room (comma.intercalate (items.map Written.text)) =
      ⟨items.map Written.literal, none⟩ :=
  Reader.listing_intercalate (fun item hitem => Written.stops_text (hw item hitem)) hread

/-- The entries of a map that was written are read back, if each of their values is. -/
theorem entries_text {room : Nat} {entries : List (KeyForm × String × Written)}
    (hw : ∀ entry ∈ entries, IsWord entry.2.1.toList ∧ entry.2.2.value.Writable)
    (hread : ∀ entry ∈ entries, ∀ rest, Stops isTokenChar rest →
      read? room (entry.2.2.text ++ rest) = some (entry.2.2.literal, rest)) :
    Literal.entries room
        (comma.intercalate (entries.map fun entry => entry.1.text entry.2.1 ++ entry.2.2.text)) =
      ⟨entries.map fun entry => (entry.2.1, entry.2.2.literal), none⟩ := by
  refine Reader.listing_intercalate (fun entry hentry => ?_) fun entry hentry rest hrest => ?_
  · obtain ⟨hne, hstop⟩ := Written.stops_key entry.1 (hw entry hentry).1
    cases hkey : entry.1.text entry.2.1 with
    | nil => exact absurd hkey hne
    | cons c cs =>
      rw [hkey] at hstop
      exact ⟨by simp, hstop⟩
  · obtain ⟨hkey, hvalue⟩ := hw entry hentry
    rw [List.append_assoc]
    exact entryReader_run entry.1 hkey (Written.stops_blank_text hvalue rest)
      (hread entry hentry rest hrest)

/-- A written value is read back, whatever follows it. -/
theorem read?_text {w : Written} (hw : w.value.Writable) {room : Nat}
    (hroom : w.value.depth ≤ room) {rest : List Char} (hrest : Stops isTokenChar rest) :
    read? room (w.text ++ rest) = some (w.literal, rest) := by
  induction w using Written.induction generalizing room rest with
  | str content =>
    simpa [Written.text, Written.literal] using read?_str room hw.self rest
  | callable source => exact read?_callable room hw.self rest
  | hash entries ih =>
    cases room with
    | zero => exact absurd hroom (by simp [Written.value, Value.depth])
    | succ room =>
      have hinner := Written.balanced_entries fun entry hentry =>
        have h := Written.writable_entry hw hentry
        ⟨h.1, Written.balanced_text h.2⟩
      have hentries := entries_text (fun entry hentry => Written.writable_entry hw hentry)
        fun entry hentry rest hrest => ih entry hentry (Written.writable_entry hw hentry).2
          (Written.depth_entry hroom hentry) hrest
      rw [Written.text, List.cons_append, List.append_assoc, List.singleton_append,
        read?_group room .curly hinner rest, ofGroup, Written.entryTexts_eq_map]
      rw [Literal.entries] at hentries
      simp only [hentries, Written.literal, Written.entryLiterals_eq_map]
  | array items ih =>
    cases room with
    | zero => exact absurd hroom (by simp [Written.value, Value.depth])
    | succ room =>
      have hinner := Written.balanced_items fun item hitem =>
        Written.balanced_text (Written.writable_item hw hitem)
      have hitems := items_text (fun item hitem => Written.writable_item hw hitem)
        fun item hitem rest hrest => ih item hitem (Written.writable_item hw hitem)
          (Written.depth_item hroom hitem) hrest
      rw [Written.text, List.cons_append, List.append_assoc, List.singleton_append,
        read?_group room .square hinner rest, ofGroup, Written.itemTexts_eq_map]
      rw [Literal.items] at hitems
      simp only [hitems, Written.literal, Written.itemLiterals_eq_map]
  | numeric digits => exact read?_numeric room hw.self hrest
  | symbol name => exact read?_symbol room hw.self hrest
  | keyword word => exact read?_keyword room word hrest

theorem readAt_text {w : Written} (hw : w.value.Writable) {room : Nat}
    (hroom : w.value.depth ≤ room) (before : List Char) {after : List Char}
    (hafter : Stops isTokenChar after) :
    readAt room (before ++ (w.text ++ after)) (byteLength before) =
      .ok (some (w.literal, byteLength before + byteLength w.text)) := by
  have hpos : byteLength (before ++ (w.text ++ after)) - byteLength after =
      byteLength before + byteLength w.text := by
    simp only [byteLength_append]
    omega
  simp only [readAt, Cursor.rest, dropBytes_append, Cursor.before]
  change Except.ok ((read? room (w.text ++ after)).map _) = _
  rw [read?_text hw hroom hafter, Option.map_some, hpos]

end Literal

/-- Reading a written value at its byte offset gives the value and the byte offset of its end, under
the filter that keeps all items, whatever stands in front of it. -/
theorem parseValue_text {settings : Settings} (hfilter : settings.arrayFilter = .present)
    {w : Written} (hw : w.value.Writable) (hdepth : w.value.depth ≤ settings.maxDepth)
    (before : List Char) {after : List Char} (hafter : Stops Literal.isTokenChar after) :
    parseValue settings (before ++ (w.text ++ after)) (byteLength before) =
      .ok (some (w.value, byteLength before + byteLength w.text)) := by
  rw [parseValue, Literal.readAt_text hw hdepth before hafter, hfilter]
  show Except.ok (some (w.literal.value .present, _)) = _
  rw [Written.value_literal hw]

/-- A map with a key in each of the four forms. -/
def fourKeys : Written :=
  .hash [
    (.label, "limit", .array [.numeric "-1.50", .str "] né"]),
    (.symbol, "on_delete", .symbol "cascade"),
    (.doubleQuoted, "default", .callable "-> \x7b now \x7d"),
    (.singleQuoted, "id", .hash [(.label, "null", .keyword .false)])]

theorem parseValue_fourKeys :
    fourKeys.value.Writable ∧ fourKeys.value.depth ≤ 2 ∧
      fourKeys.text = "\x7blimit: [-1.50, \"] né\"], :on_delete => :cascade, ".toList ++
        "\"default\" => -> \x7b now \x7d, 'id' => \x7bnull: false\x7d\x7d".toList ∧
      parseValue ⟨.present, 2⟩ ("né: ".toList ++ (fourKeys.text ++ ", x".toList))
          (byteLength "né: ".toList) =
        .ok (some (
          .hash [
            ("limit", .array [.numeric "-1.50", .str "] né"]),
            ("on_delete", .symbol "cascade"),
            ("default", .callable "-> \x7b now \x7d"),
            ("id", .hash [("null", .keyword .false)])],
          byteLength "né: ".toList + byteLength fourKeys.text)) := by
  have hnumeral : Numeral.IsCanonical "-1.50".toList :=
    ⟨['-'], ['1'], ['.', '5', '0'], by decide, Or.inr rfl, ⟨by decide, by decide⟩,
      Or.inr ⟨['5', '0'], rfl, by decide, by decide⟩⟩
  have hcallable : IsCallable "-> \x7b now \x7d".toList :=
    ⟨[' '], "\x7b now \x7d".toList, by decide, by decide, by decide, by decide⟩
  have hw : fourKeys.value.Writable := by
    have hstr : '"' ∉ "] né".toList := by decide
    refine ⟨⟨by decide, by decide⟩, ⟨trivial, hnumeral, hstr, trivial⟩, ?_, hcallable, ?_, trivial⟩
    · exact (by decide : IsSymbolName "cascade".toList)
    · exact ⟨⟨by decide, by decide⟩, trivial, trivial⟩
  have hdepth : fourKeys.value.depth ≤ 2 := by decide
  have hafter : Stops Literal.isTokenChar [',', ' ', 'x'] := stops_cons.mpr (by decide)
  exact ⟨hw, hdepth, by decide, @parseValue_text ⟨.present, 2⟩ rfl fourKeys hw hdepth _ _ hafter⟩

end RailsSchema
