import RailsSchema.Proofs.Dump.Options
import RailsSchema.Proofs.Statement.Probes

/-!
# The statements in a dump

Every search that runs over the body of a block (`bodyProbes`) meets nothing behind the first
character of a statement (`silent_behind`): the word behind the point is a word of its own, names
stand in quotes, and options are silent. What a statement is read as by each of the searches that
look for columns and indexes is told by `bind_typed?_text`, `bind_generic?_text` and
`bind_index_text`.
-/

namespace RailsSchema

open Text

namespace Dump

/-- The searches that run over the body of a block. -/
def bodyProbes : List Probe := [closingProbe, columnProbe, indexProbe, keyProbe]

/-- Whether none of some searches finds anything in a string. -/
def MuteFor (probes : List Probe) (content : String) : Prop := ∀ p ∈ probes, p.Mutes content

theorem mutes_of_mem {p : Probe} {probes : List Probe} (hp : p ∈ probes) (content : String)
    (h : MuteFor probes content) : p.Mutes content := h p hp

theorem regular_of_mem_bodyProbes {p : Probe} (hp : p ∈ bodyProbes) : p.Regular := by
  simp only [bodyProbes, List.mem_cons, List.not_mem_nil, or_false] at hp
  rcases hp with rfl | rfl | rfl | rfl
  · exact regular_closingProbe
  · exact regular_columnProbe
  · exact regular_indexProbe
  · exact regular_keyProbe

/-- Nothing that is looked for in a body begins inside a chain of method calls. -/
theorem opens_of_mem_bodyProbes {p : Probe} (hp : p ∈ bodyProbes) {c : Char}
    (hc : c = '.' ∨ isWordChar c = true) : p.opens (some c) = false := by
  have hboundary : isBoundary (some c) = false := by
    rcases hc with rfl | hc
    · decide
    · exact not_isBoundary_of_isWordChar hc
  have hgap : TableBlock.isGap (some c) = false := by
    rcases hc with rfl | hc
    · decide
    · exact not_isGap_of_isWordChar hc
  simp only [bodyProbes, List.mem_cons, List.not_mem_nil, or_false] at hp
  rcases hp with rfl | rfl | rfl | rfl
  · exact hgap
  · exact hboundary
  · exact hboundary
  · exact hboundary

variable {p : Probe} {plain : String → Prop} {depth : Nat}

/-! ## Silence -/

theorem silent_quoted (hp : p.Regular) {name : String} (hname : IsWord name.toList)
    (before : Option Char) (rest : List Char) : p.Silent before (quoted name) rest := by
  refine silent_enclosed hp (by decide) (by decide) ?_ before
  refine Probe.silent_word hp hname.2 (stops_cons.mpr (by decide)) fun front hfront _ => ?_
  refine hp.accepts_mark (fun c hc => hname.2 c ?_) '"' rest (by decide) (by decide)
  rw [hfront]
  exact List.mem_append_right front hc

theorem silent_subject (hp : p.Regular) {statement : Statement} (h : statement.CanonicalSubject)
    (before : Option Char) (rest : List Char) : p.Silent before statement.subject rest := by
  cases statement with
  | typed type name options => exact silent_quoted hp h.2.2.2 before rest
  | generic name type options =>
    refine Probe.silent_append.mpr ⟨silent_quoted hp h.1 before _, Probe.silent_append.mpr ⟨?_, ?_⟩⟩
    · exact Probe.silent_marks hp (by decide) _ _
    · exact silent_quoted hp h.2 _ rest
  | index columns options =>
    refine silent_enclosed hp (by decide) (by decide) ?_ before
    refine silent_intercalate hp (fun part hpart before rest _ => ?_) _ (follows_closing .square rest)
    obtain ⟨column, hcolumn, rfl⟩ := List.mem_map.mp hpart
    exact silent_quoted hp (h.2 column hcolumn) before rest

theorem Statement.CanonicalSubject.word {statement : Statement} (h : statement.CanonicalSubject) :
    IsWord statement.word.toList := by
  cases statement with
  | typed type name options => exact h.1
  | generic name type options => exact (by decide +kernel : IsWord "column".toList)
  | index columns options => exact (by decide +kernel : IsWord "index".toList)

/-- Nothing is met in a statement behind its first character. -/
theorem silent_behind (hp : p ∈ bodyProbes) (hplain : ∀ content, plain content → p.Mutes content)
    {statement : Statement} (h : statement.Canonical plain depth) {rest : List Char}
    (hrest : Follows rest) :
    p.Silent (some 't') ('.' :: (statement.word.toList ++
      ' ' :: (statement.subject ++ optionsText statement.options))) rest := by
  have hreg := regular_of_mem_bodyProbes hp
  have hword := h.subject.word
  refine ⟨silent_mark hreg (by decide) _ _, Probe.silent_append.mpr ⟨?_, ?_⟩⟩
  · -- the word stands behind a point, where no search finds anything
    refine Probe.silent_word hreg hword.2 (stops_cons.mpr (by decide)) fun front hfront hopens => ?_
    obtain ⟨c, hc, hlast⟩ := exists_lastOf (List.cons_ne_nil '.' front) none
    have hc' : c = '.' ∨ isWordChar c = true := by
      rcases List.mem_cons.mp hc with hc | hc
      · exact Or.inl hc
      · exact Or.inr (hword.2 c (by rw [hfront]; exact List.mem_append_left _ hc))
    rw [lastOf_cons] at hlast
    rw [hlast, opens_of_mem_bodyProbes hp hc'] at hopens
    cases hopens
  · refine ⟨silent_mark hreg (by decide) _ _, Probe.silent_append.mpr ⟨?_, ?_⟩⟩
    · exact silent_subject hreg h.subject _ _
    · exact silent_optionsText hreg hplain h.options _ hrest

/-! ## Reading one statement -/

/-- Whether a text is empty or goes on with another line, and begins nothing that belongs to the
line before. -/
structure EndsLine (rest : List Char) : Prop where
  line : Stops (· != '\n') rest
  follows : Follows rest

theorem endsLine_nil : EndsLine [] := ⟨stops_nil _, stops_nil _, stops_nil _⟩

theorem line_append {cs rest : List Char} (hcs : '\n' ∉ cs) (hrest : Stops (· != '\n') rest) :
    Text.line (cs ++ rest) = cs := by
  refine takeWhile_append_of_stops (fun c hc => ?_) hrest
  rw [bne_iff_ne]
  rintro rfl
  exact hcs hc

theorem quotedName?_quoted {name : String} (hname : IsWord name.toList) (rest : List Char) :
    quotedName? (quoted name ++ rest) = some (name.toList, rest) := by
  have hrun : ∀ c ∈ name.toList, (c != '"' && c != '\n') = true := by
    intro c hc
    have h1 : c ≠ '"' := ne_of_class (hname.2 c hc) (by decide)
    have h2 : c ≠ '\n' := ne_of_class (hname.2 c hc) (by decide)
    simp [h1, h2]
  have hstop : Stops (fun c => c != '"' && c != '\n') ('"' :: rest) := by simp
  have hsplit : quoted name ++ rest = '"' :: (name.toList ++ '"' :: rest) := by simp [quoted]
  simp only [hsplit, quotedName?, dropWhile_append_of_stops hrun hstop,
    takeWhile_append_of_stops hrun hstop]

theorem name?_quoted {name : String} (hname : IsWord name.toList) (rest : List Char) :
    ColumnStatement.name? (quoted name ++ rest) = some (name.toList, rest) := by
  have hne : (!name.toList.isEmpty) = true := by
    simpa using hname.1
  rw [ColumnStatement.name?, quotedName?_quoted hname, Option.filter_some, if_pos hne]

theorem skipSome?_space {q : Char → Bool} (hq : q ' ' = true) {cs : List Char} (hcs : Stops q cs) :
    skipSome? q (' ' :: cs) = some cs := by
  rw [skipSome?, if_pos hq, dropWhile_of_stops hcs]

/-- The options of a statement are taken off its line. -/
theorem trailingOptions?_optionsText {options : Options}
    (h : CanonicalOptions plain depth options) {rest : List Char} (hrest : EndsLine rest) :
    trailingOptions? (optionsText options ++ rest) = some (bareText options) := by
  have hline := line_append (newline_not_mem_optionsText h) hrest.line
  by_cases hne : options = []
  · rw [trailingOptions?, hline, hne]
    rfl
  · rw [trailingOptions?, hline, optionsText_of_ne_nil hne]
    have hsolid : EndsSolid (',' :: ' ' :: bareText options) :=
      (endsSolid_bareText h hne).append [',', ' ']
    have htrim := @trim_append [] (',' :: ' ' :: bareText options) [] (by simp)
      (stops_cons.mpr (by decide)) hsolid (by simp)
    have hbare := @trim_bareText plain depth options h [' '] [] (by decide) (by simp)
    simp only [List.nil_append, List.append_nil, List.cons_append] at htrim hbare
    rw [htrim]
    show some (trim (' ' :: bareText options)) = _
    rw [hbare]

/-- A keyword behind the point of a statement with another word is no more than the beginning of
that word. -/
theorem bind_after?_of_ne {α : Type} {f : List Char → Option α}
    (hf : ∀ c cs, isWordChar c = true → f (c :: cs) = none) {keyword word more : List Char}
    (hkeyword : ∀ c ∈ keyword, isWordChar c = true) (hword : ∀ c ∈ word, isWordChar c = true)
    (hne : word ≠ keyword) (hmore : Stops isWordChar more) :
    (after? keyword (word ++ more)).bind f = none := by
  cases hafter : after? keyword (word ++ more) with
  | none => rfl
  | some rest =>
    obtain ⟨extra, hextra, rfl⟩ :=
      exists_of_append_eq hkeyword hmore (after?_eq_some_iff.mp hafter)
    cases extra with
    | nil => exact absurd (by rw [hextra, List.append_nil]) hne
    | cons c extra => exact hf c _ (hword c (by rw [hextra]; simp))

namespace Statement

/-- What a statement is read as that names its type first. -/
def asTyped? : Statement → Option ColumnStatement
  | typed type name options => some ⟨name, type, String.ofList (bareText options)⟩
  | _ => none

def asGeneric? : Statement → Option ColumnStatement
  | generic name type options => some ⟨name, type, String.ofList (bareText options)⟩
  | _ => none

def asIndex? : Statement → Option IndexStatement
  | index columns options =>
    some ⟨String.ofList (index columns options).subject, String.ofList (bareText options)⟩
  | _ => none

end Statement

theorem generic?_of_isWordChar {c : Char} (hc : isWordChar c = true) (cs : List Char) :
    ColumnStatement.generic? (c :: cs) = none := by
  have hblank : isInlineBlank c = false := by simp [isInlineBlank, isBlank_eq_false_of_isWordChar hc]
  simp [ColumnStatement.generic?, skipSome?, hblank]

theorem read?_of_isWordChar {c : Char} (hc : isWordChar c = true) (cs : List Char) :
    IndexStatement.read? (c :: cs) = none := by
  simp [IndexStatement.read?, skipSome?, isBlank_eq_false_of_isWordChar hc]

theorem stops_quoted {q : Char → Bool} (hq : q '"' = false) (name : String) (rest : List Char) :
    Stops q (quoted name ++ rest) := stops_cons.mpr hq

theorem not_mem_otherStatements {type : String} (hcolumn : type ≠ "column")
    (hindex : type ≠ "index") : type.toList ∉ ColumnStatement.otherStatements := by
  simp only [ColumnStatement.otherStatements, List.mem_cons, List.not_mem_nil, or_false,
    String.toList_inj, not_or]
  exact ⟨hcolumn, hindex⟩

theorem typed?_word {type name : String} {options : Options} (htype : IsWord type.toList)
    (hother : type.toList ∉ ColumnStatement.otherStatements) (hname : IsWord name.toList)
    (h : CanonicalOptions plain depth options) {rest : List Char} (hrest : EndsLine rest) :
    ColumnStatement.typed? (type.toList ++ ' ' :: (quoted name ++ (optionsText options ++ rest))) =
      some ⟨name, type, String.ofList (bareText options)⟩ := by
  have hstop : Stops isWordChar (' ' :: (quoted name ++ (optionsText options ++ rest))) :=
    stops_cons.mpr (by decide)
  have hskip := @skipSome?_space isInlineBlank (by decide) _
    (stops_quoted (by decide) name (optionsText options ++ rest))
  have hguard : (guard ((!type.toList.isEmpty &&
      !ColumnStatement.otherStatements.contains type.toList) = true) : Option Unit) = some () :=
    (Option.guard_eq_some' ()).mpr (by simpa [htype.1] using hother)
  unfold ColumnStatement.typed?
  simp only [takeWhile_append_of_stops htype.2 hstop, dropWhile_append_of_stops htype.2 hstop,
    hguard, hskip]
  simp [name?_quoted hname, trailingOptions?_optionsText h hrest]

theorem typed?_of_mem {word cs : List Char} (hword : IsWord word)
    (hother : word ∈ ColumnStatement.otherStatements) :
    ColumnStatement.typed? (word ++ ' ' :: cs) = none := by
  have hstop : Stops isWordChar (' ' :: cs) := stops_cons.mpr (by decide)
  have hguard : (guard ((!word.isEmpty &&
      !ColumnStatement.otherStatements.contains word) = true) : Option Unit) = none :=
    if_neg (by simp [hother])
  unfold ColumnStatement.typed?
  simp only [takeWhile_append_of_stops hword.2 hstop, hguard]
  rfl

theorem generic?_space {name type : String} {options : Options} (hname : IsWord name.toList)
    (htype : IsWord type.toList) (h : CanonicalOptions plain depth options) {rest : List Char}
    (hrest : EndsLine rest) :
    ColumnStatement.generic?
        (' ' :: (quoted name ++ (comma ++ (quoted type ++ (optionsText options ++ rest))))) =
      some ⟨name, type, String.ofList (bareText options)⟩ := by
  have hskip := @skipSome?_space isInlineBlank (by decide) _
    (stops_quoted (by decide) name (comma ++ (quoted type ++ (optionsText options ++ rest))))
  have hcomma : (comma ++ (quoted type ++ (optionsText options ++ rest))).dropWhile isInlineBlank =
      ',' :: ' ' :: (quoted type ++ (optionsText options ++ rest)) :=
    dropWhile_of_stops (stops_cons.mpr (by decide))
  have hnext : (' ' :: (quoted type ++ (optionsText options ++ rest))).dropWhile isInlineBlank =
      quoted type ++ (optionsText options ++ rest) := by
    rw [List.dropWhile_cons_of_pos (by decide)]
    exact dropWhile_of_stops (stops_quoted (by decide) type _)
  unfold ColumnStatement.generic?
  simp [hskip, name?_quoted hname, name?_quoted htype, hcomma, hnext, after?,
    trailingOptions?_optionsText h hrest]

theorem balanced_quoted {name : String} (hname : IsWord name.toList) : Balanced (quoted name) :=
  Balanced.quoted (by decide) (Literal.not_mem_of_isWord hname (by decide))

theorem exists_quoted {columns : List String} (hne : columns ≠ []) :
    ∃ cs, comma.intercalate (columns.map quoted) = '"' :: cs := by
  cases columns with
  | nil => exact absurd rfl hne
  | cons column columns =>
    cases columns with
    | nil => exact ⟨_, List.intercalate_singleton⟩
    | cons next columns =>
      rw [List.map_cons, List.map_cons, List.intercalate_cons_cons]
      exact ⟨_, rfl⟩

/-- A list of quoted names has white space neither in front nor at its end. -/
theorem trim_quoted {columns : List String} (hne : columns ≠ []) :
    trim (comma.intercalate (columns.map quoted)) = comma.intercalate (columns.map quoted) := by
  have hsolid : EndsSolid (comma.intercalate (columns.map quoted)) := by
    refine EndsSolid.intercalate (by simpa using hne) fun part hpart => ?_
    obtain ⟨column, -, rfl⟩ := List.mem_map.mp hpart
    exact endsSolid_enclosed '"' column.toList (by decide)
  have hstart : Stops isBlank (comma.intercalate (columns.map quoted)) := by
    obtain ⟨cs, heq⟩ := exists_quoted hne
    rw [heq]
    exact stops_cons.mpr (by decide)
  have htrim := @trim_append [] _ [] (by simp) hstart hsolid (by simp)
  rwa [List.nil_append, List.append_nil] at htrim

theorem read?_space {columns : List String} {options : Options} (hne : columns ≠ [])
    (hcolumns : ∀ column ∈ columns, IsWord column.toList)
    (h : CanonicalOptions plain depth options) {rest : List Char} (hrest : EndsLine rest) :
    IndexStatement.read?
        (' ' :: ((Statement.index columns options).subject ++ (optionsText options ++ rest))) =
      some ⟨String.ofList (Statement.index columns options).subject,
        String.ofList (bareText options)⟩ := by
  have hskip : skipSome? isBlank
      (' ' :: ((Statement.index columns options).subject ++ (optionsText options ++ rest))) =
      some ((Statement.index columns options).subject ++ (optionsText options ++ rest)) :=
    skipSome?_space (by decide) (stops_cons.mpr (by decide))
  have hinner : Balanced (comma.intercalate (columns.map quoted)) := by
    refine Balanced.intercalate (balanced_of_plain (by decide)) fun part hpart => ?_
    obtain ⟨column, hcolumn, rfl⟩ := List.mem_map.mp hpart
    exact balanced_quoted (hcolumns column hcolumn)
  have hgroup := group?_of_balanced .square hinner (optionsText options ++ rest)
  have hsubject : (Statement.index columns options).subject ++ (optionsText options ++ rest) =
      Bracket.square.opening :: (comma.intercalate (columns.map quoted) ++
        Bracket.square.closing :: (optionsText options ++ rest)) := by
    simp [Statement.subject, Bracket.opening, Bracket.closing]
  have hlist : trim (comma.intercalate (columns.map quoted)) ≠ [] := by
    obtain ⟨cs, heq⟩ := exists_quoted hne
    rw [trim_quoted hne, heq]
    exact List.cons_ne_nil _ _
  have hguard : (guard ((Bracket.square = .square &&
      !(trim (comma.intercalate (columns.map quoted))).isEmpty) = true) : Option Unit) = some () :=
    (Option.guard_eq_some' ()).mpr (by simpa using hlist)
  unfold IndexStatement.read?
  simp only [hskip, Option.bind_eq_bind, Option.bind_some]
  rw [hsubject, hgroup, Option.bind_some, hguard, ← hsubject]
  simp only [Option.bind_some, trailingOptions?_optionsText h hrest, upTo_append]
  rfl

/-- After `t.`, a longer keyword is looked for in what the word of the statement begins. -/
theorem after?_text (keyword : List Char) (statement : Statement) (rest : List Char) :
    after? ('t' :: '.' :: keyword) (statement.text ++ rest) =
      after? keyword (statement.word.toList ++
        ' ' :: (statement.subject ++ (optionsText statement.options ++ rest))) := by
  simp [Statement.text, after?]

theorem bind_typed?_text {statement : Statement} (h : statement.Canonical plain depth)
    {rest : List Char} (hrest : EndsLine rest) :
    (after? "t.".toList (statement.text ++ rest)).bind ColumnStatement.typed? =
      statement.asTyped? := by
  have hword := h.subject.word
  show (after? ('t' :: '.' :: []) _).bind _ = _
  rw [after?_text, after?, Option.bind_some]
  cases statement with
  | typed type name options =>
    obtain ⟨htype, hcolumn, hindex, hname⟩ := h.subject
    exact typed?_word htype (not_mem_otherStatements hcolumn hindex) hname h.options hrest
  | generic name type options =>
    exact typed?_of_mem hword (List.mem_cons_self : "column".toList ∈ ColumnStatement.otherStatements)
  | index columns options =>
    exact typed?_of_mem hword (by decide : "index".toList ∈ ColumnStatement.otherStatements)

theorem bind_generic?_text {statement : Statement} (h : statement.Canonical plain depth)
    {rest : List Char} (hrest : EndsLine rest) :
    (after? "t.column".toList (statement.text ++ rest)).bind ColumnStatement.generic? =
      statement.asGeneric? := by
  have hword := h.subject.word
  have hcolumn : ∀ c ∈ "column".toList, isWordChar c = true := by decide +kernel
  have hstop : ∀ cs, Stops isWordChar (' ' :: cs) := fun cs => stops_cons.mpr (by decide)
  show (after? ('t' :: '.' :: "column".toList) _).bind _ = _
  rw [after?_text]
  cases statement with
  | typed type name options =>
    refine bind_after?_of_ne (fun c cs hc => generic?_of_isWordChar hc cs) hcolumn hword.2 ?_
      (hstop _)
    exact fun heq => h.subject.2.1 (String.toList_inj.mp heq)
  | generic name type options =>
    have hafter : ∀ cs, after? "column".toList ("column".toList ++ cs) = some cs :=
      fun cs => after?_eq_some_iff.mpr rfl
    show (after? _ ("column".toList ++ _)).bind _ = _
    rw [hafter, Option.bind_some]
    simp only [Statement.subject, List.append_assoc]
    exact generic?_space h.subject.1 h.subject.2 h.options hrest
  | index columns options =>
    exact bind_after?_of_ne (fun c cs hc => generic?_of_isWordChar hc cs) hcolumn hword.2
      (by decide : "index".toList ≠ "column".toList) (hstop _)

theorem bind_index_text {statement : Statement} (h : statement.Canonical plain depth)
    {rest : List Char} (hrest : EndsLine rest) :
    (after? "t.index".toList (statement.text ++ rest)).bind IndexStatement.read? =
      statement.asIndex? := by
  have hword := h.subject.word
  have hindex : ∀ c ∈ "index".toList, isWordChar c = true := by decide +kernel
  have hstop : ∀ cs, Stops isWordChar (' ' :: cs) := fun cs => stops_cons.mpr (by decide)
  show (after? ('t' :: '.' :: "index".toList) _).bind _ = _
  rw [after?_text]
  cases statement with
  | typed type name options =>
    refine bind_after?_of_ne (fun c cs hc => read?_of_isWordChar hc cs) hindex hword.2 ?_
      (hstop _)
    exact fun heq => h.subject.2.2.1 (String.toList_inj.mp heq)
  | generic name type options =>
    exact bind_after?_of_ne (fun c cs hc => read?_of_isWordChar hc cs) hindex hword.2
      (by decide : "column".toList ≠ "index".toList) (hstop _)
  | index columns options =>
    have hafter : ∀ cs, after? "index".toList ("index".toList ++ cs) = some cs :=
      fun cs => after?_eq_some_iff.mpr rfl
    show (after? _ ("index".toList ++ _)).bind _ = _
    rw [hafter, Option.bind_some]
    exact read?_space h.subject.1 h.subject.2 h.options hrest

end Dump

end RailsSchema
