import RailsSchema.Definition.Index
import RailsSchema.Proofs.Literal.Locality
import RailsSchema.Proofs.Literal.Truncation
import RailsSchema.Proofs.Text.More

/-!
# Outer brackets

The text of a whole list or option map may have brackets around it or not. They are taken off
without a look at what is between them, while the brackets of a value inside a text are found by the
search for the end of a group. Both come to the same:

* `parse_bracketed`: brackets around a text that does not begin with one change nothing, whether or
  not the text can be read to its end;
* `parseValue_group`: a text that is one group is read as a value with one level of nesting more
  just as it is read as a whole list or map, and so is the list of columns of an index statement
  where it stands.
-/

namespace RailsSchema

open Text

/-! ## Brackets that change nothing -/

namespace Reader.IsLocal

variable {α : Type} {reader : Reader α}

/-- White space around a text adds no item and takes none away. -/
theorem items_trim (h : reader.IsLocal) (cutAt : List Char → Cut) (cs : List Char) :
    (reader.listing cutAt (trim cs)).items = (reader.listing cutAt cs).items := by
  obtain ⟨front, back, hcs, hfront, hback⟩ := exists_trim cs
  have hseparators : ∀ c ∈ front, isSeparator c = true := fun c hc =>
    isSeparator_of_isBlank (hfront c hc)
  calc (reader.listing cutAt (trim cs)).items
      = (reader.listing cutAt (trim cs ++ back)).items :=
        (h.items_append_blanks cutAt hback (trim cs)).symm
    _ = (reader.listing cutAt (front ++ (trim cs ++ back))).items := by
        rw [listing_congr (List.dropWhile_append_of_pos hseparators)]
    _ = (reader.listing cutAt cs).items := by
        rw [← hcs]

/-- Nor do brackets around a text that does not begin with one. -/
theorem items_bracketed (h : reader.IsLocal) (cutAt : List Char → Cut) (b : Bracket)
    {cs : List Char} (hcs : (trim cs).head? ≠ some b.opening) :
    (reader.listing cutAt
        (stripOuter b.opening b.closing (trim (b.opening :: (cs ++ [b.closing]))))).items =
      (reader.listing cutAt (stripOuter b.opening b.closing (trim cs))).items := by
  have htrim := trim_group ⟨b, cs, []⟩
  have hstrip := stripOuter_group ⟨b, cs, []⟩
  simp only [Group.text] at htrim hstrip
  rw [htrim, hstrip, stripOuter_of_head?_ne hcs, h.items_trim]

end Reader.IsLocal

/-- Brackets around the whole text of a list and of an option map can be left out. -/
theorem parse_bracketed (settings : Settings) (text : String) :
    ((trim text.toList).head? ≠ some '[' →
      parseArray settings ("[" ++ text ++ "]") = parseArray settings text) ∧
    ((trim text.toList).head? ≠ some '\x7b' →
      parseOptions settings ("\x7b" ++ text ++ "\x7d") = parseOptions settings text) := by
  have hitem := Literal.isLocal_reader settings.maxDepth
  constructor
  · intro hhead
    have htext : ("[" ++ text ++ "]").toList = '[' :: (text.toList ++ [']']) := by simp
    have hitems := hitem.items_bracketed Literal.itemCut .square hhead
    rw [parseArray, parseArray, Literal.arrayText, Literal.arrayText, htext]
    exact congrArg (Literal.itemValues settings.arrayFilter) hitems
  · intro hhead
    have htext : ("\x7b" ++ text ++ "\x7d").toList = '\x7b' :: (text.toList ++ ['\x7d']) := by simp
    have hentry := Literal.isLocal_entryReader hitem
    have hentries := hentry.items_bracketed Literal.entryCut .curly hhead
    rw [parseOptions, parseOptions, Literal.hashText, Literal.hashText, htext]
    exact congrArg
      (fun entries => OrderedMap.ofEntries (Literal.entryValues settings.arrayFilter entries))
      hentries

set_option maxRecDepth 4000 in
/-- A list with an unclosed text in it and white space around it. -/
theorem parse_bracketed_unclosed :
    parseArray ⟨.present, 1⟩ "[ 1, [2], \"open] \n]" =
      [.numeric "1", .array [.numeric "2"]] ∧
    parseOptions ⟨.present, 1⟩ "\x7b a: 1, b: [2, c \x7d" = [("a", .numeric "1")] := by
  have harray := (parse_bracketed ⟨.present, 1⟩ " 1, [2], \"open] \n").1 (by decide)
  have hhash := (parse_bracketed ⟨.present, 1⟩ " a: 1, b: [2, c ").2 (by decide)
  constructor
  · refine harray.trans ?_
    cbv
  · refine hhash.trans ?_
    cbv

/-! ## Groups as values -/

/-- The value that a group is read as, when it is read as a whole list or map. -/
def Literal.groupValue (settings : Settings) (group : Group) : Value :=
  match group.bracket with
  | .square => .array (parseArray settings (String.ofList group.text))
  | .curly => .hash (parseOptions settings (String.ofList group.text))

theorem Literal.value_ofGroup (filter : ArrayFilter) (depth : Nat) (group : Group) :
    (ofGroup (reader depth) group).value filter = groupValue ⟨filter, depth⟩ group := by
  have hstrip : stripOuter group.bracket.opening group.bracket.closing
      (trim (String.ofList group.text).toList) = group.inner := by
    rw [String.toList_ofList, trim_group, stripOuter_group]
  unfold ofGroup groupValue
  cases hbracket : group.bracket with
  | square =>
    rw [hbracket] at hstrip
    have harray : arrayText ⟨filter, depth⟩ (String.ofList group.text) = items depth group.inner :=
      congrArg (items depth) hstrip
    simp only [parseArray, harray]
    rfl
  | curly =>
    rw [hbracket] at hstrip
    have hhash : hashText ⟨filter, depth⟩ (String.ofList group.text) = entries depth group.inner :=
      congrArg (entries depth) hstrip
    simp only [parseOptions, hhash]
    rfl

/-- Where a group stands, its value is read with one level of nesting more. -/
theorem parseValue_of_group? {cs : List Char} {group : Group} (h : group? cs = some group)
    (filter : ArrayFilter) (depth : Nat) (front : List Char) :
    parseValue ⟨filter, depth + 1⟩ (front ++ cs) (byteLength front) =
      .ok (some (Literal.groupValue ⟨filter, depth⟩ group,
        byteLength front + byteLength group.text)) := by
  have hend : offsetOf (front ++ cs) group.rest = byteLength front + byteLength group.text := by
    rw [Group.eq_text_append h, ← List.append_assoc, offsetOf_append, byteLength_append]
  rw [parseValue_append, Literal.read?_of_group? h, Option.map_some, Literal.value_ofGroup, hend]

/-- The list of columns of an index statement is a group, behind the keyword and white space. -/
theorem IndexStatement.exists_of_read? {cs : List Char} {statement : IndexStatement}
    (h : read? cs = some statement) :
    ∃ blanks group, cs = blanks ++ (group.text ++ group.rest) ∧ (∀ c ∈ blanks, isBlank c = true) ∧
      group? (group.text ++ group.rest) = some group ∧ group.bracket = .square ∧
      statement.columns = String.ofList group.text := by
  unfold read? at h
  simp only [Option.bind_eq_bind, Option.bind_eq_some_iff, Option.pure_def] at h
  obtain ⟨list, hlist, group, hgroup, ⟨⟩, hguard, options, -, heq⟩ := h
  cases heq
  obtain ⟨blanks, rfl, -, hblanks, -⟩ := skipSome?_eq_some_iff.mp hlist
  have htext := Group.eq_text_append hgroup
  have hboth := (Option.guard_eq_some' ()).mp hguard
  rw [Bool.and_eq_true, decide_eq_true_iff] at hboth
  refine ⟨blanks, group, congrArg (blanks ++ ·) htext, hblanks, htext ▸ hgroup, hboth.1, ?_⟩
  rw [htext, upTo_append]

/-- A text that is one group is read as a value just as it is read as a whole, if there is room for
one level of nesting more; and so are the columns of an index statement in the text around them. -/
theorem parseValue_group (filter : ArrayFilter) (depth : Nat) :
    (∀ text : String, groupEnd? text.toList 0 = .ok (some (byteLength text.toList)) →
      (text.toList.head? = some '[' → parseValue ⟨filter, depth + 1⟩ text.toList 0 =
        .ok (some (.array (parseArray ⟨filter, depth⟩ text), byteLength text.toList))) ∧
      (text.toList.head? = some '\x7b' → parseValue ⟨filter, depth + 1⟩ text.toList 0 =
        .ok (some (.hash (parseOptions ⟨filter, depth⟩ text), byteLength text.toList)))) ∧
    ∀ body : String, ∀ site ∈ sites "t.index" body.toList, ∀ statement,
      IndexStatement.read? site.rest = some statement →
      ∃ front blanks before rest, before = front ++ ("t.index".toList ++ blanks) ∧
        body.toList = before ++ (statement.columns.toList ++ rest) ∧
        site.start = byteLength front ∧ (∀ c ∈ blanks, isBlank c = true) ∧
        parseValue ⟨filter, depth + 1⟩ body.toList (byteLength before) =
          .ok (some (.array (parseArray ⟨filter, depth⟩ statement.columns),
            byteLength before + byteLength statement.columns.toList)) := by
  constructor
  · intro text htext
    obtain ⟨group, hgroup, hrest⟩ := exists_group?_of_groupEnd? htext
    have hcs := text_of_group? hgroup hrest
    have hread := parseValue_of_group? hgroup filter depth []
    have hofList : String.ofList group.text = text := by
      rw [← hcs, String.ofList_toList]
    rw [List.nil_append, byteLength_nil, Nat.zero_add, ← hcs] at hread
    rw [hread, hcs, Literal.groupValue, hofList]
    constructor
    · intro hhead
      have hbracket : group.bracket = .square := Bracket.opening_inj (Option.some.inj hhead)
      rw [hbracket]
    · intro hhead
      have hbracket : group.bracket = .curly := Bracket.opening_inj (Option.some.inj hhead)
      rw [hbracket]
  · intro body site hsite statement hread
    obtain ⟨front, hbody, hstart, -⟩ := (mem_sitesFrom_iff (by decide)).mp hsite
    obtain ⟨blanks, group, hrest, hblanks, hgroup, hbracket, hcolumns⟩ :=
      IndexStatement.exists_of_read? hread
    have htext : statement.columns.toList = group.text := by
      rw [hcolumns, String.toList_ofList]
    have hsplit : body.toList =
        front ++ ("t.index".toList ++ blanks) ++ (statement.columns.toList ++ group.rest) := by
      rw [hbody, hrest, htext]
      simp only [List.append_assoc]
    have hvalue := parseValue_of_group? hgroup filter depth (front ++ ("t.index".toList ++ blanks))
    rw [Literal.groupValue, hbracket, ← hcolumns, ← htext, ← hsplit] at hvalue
    have hplace : site.start = byteLength front := hstart.trans (Nat.zero_add _)
    exact ⟨front, blanks, _, group.rest, rfl, hsplit, hplace, hblanks, hvalue⟩

set_option maxRecDepth 4000 in
/-- A list with a list in it that is too deep, and the columns of an index behind a comment. -/
theorem parseValue_group_deep :
    parseValue ⟨.present, 2⟩ "[é, [1], [[2]], 3]".toList 0 =
      .ok (some (.array [.symbol "é", .array [.numeric "1"], .array [], .numeric "3"], 19)) ∧
    ∃ place, parseValue ⟨.present, 1⟩ "# é\nt.index [:a, \"b\"], unique: true".toList place =
      .ok (some (.array [.symbol "a", .str "b"], place + 9)) := by
  have hend : groupEnd? "[é, [1], [[2]], 3]".toList 0 =
      .ok (some (byteLength "[é, [1], [[2]], 3]".toList)) := by cbv
  have hvalue := ((parseValue_group .present 1).1 _ hend).1 (by decide)
  have hsite : ⟨5, " [:a, \"b\"], unique: true".toList⟩ ∈
      sites "t.index" "# é\nt.index [:a, \"b\"], unique: true".toList := by decide +kernel
  have hread : IndexStatement.read? " [:a, \"b\"], unique: true".toList =
      some ⟨"[:a, \"b\"]", "unique: true"⟩ := by cbv
  obtain ⟨front, blanks, before, rest, -, -, -, -, hindex⟩ :=
    (parseValue_group .present 0).2 _ _ hsite _ hread
  refine ⟨hvalue.trans ?_, _, hindex.trans ?_⟩
  · cbv
  · have harray : parseArray ⟨.present, 0⟩ "[:a, \"b\"]" = [.symbol "a", .str "b"] := by cbv
    rw [harray]
    rfl

end RailsSchema
