import RailsSchema.Statement.Column
import RailsSchema.Statement.ForeignKey
import RailsSchema.Statement.Index
import RailsSchema.Statement.Table
import RailsSchema.Proofs.Text.Sites
import Mathlib.Data.Option.Basic

/-!
# What schema statements are looked for by

One probe for each question that is asked at every place of a schema text: where a table block
begins (`tableProbe`), where its options end (`openerProbe`) and where its body does
(`closingProbe`), and where columns, indexes and foreign keys are declared (`columnProbe`,
`indexProbe`, `keyProbe`). Each of them is regular, and each fires wherever a statement is read.
-/

namespace RailsSchema

open Text

/-- Whether a text begins with white space and then the given character. -/
def opensWith (d : Char) (cs : List Char) : Bool :=
  !(cs.takeWhile isBlank).isEmpty && (trimStart cs).head? == some d

/-- Asks where a table block begins. -/
def tableProbe : Probe := ⟨"create_table".toList, isBoundary, opensWith '"'⟩

/-- Asks where a `do` opens a block. -/
def openerProbe : Probe :=
  ⟨"do".toList, fun _ => true, fun cs => (after? "|t|".toList (trimStart cs)).isSome⟩

/-- Asks where an `end` stands alone. -/
def closingProbe : Probe := ⟨"end".toList, TableBlock.isGap, fun cs => TableBlock.isGap cs.head?⟩

/-- Asks where a column is declared, in either form. -/
def columnProbe : Probe :=
  ⟨"t.".toList, isBoundary, fun cs =>
    !(cs.takeWhile isWordChar).isEmpty && cs.takeWhile isWordChar != "index".toList &&
      opensWith '"' (cs.dropWhile isWordChar)⟩

/-- Asks where an index is declared. -/
def indexProbe : Probe :=
  ⟨"t.index".toList, isBoundary, fun cs => (IndexStatement.read? cs).isSome⟩

/-- Asks where a foreign key is declared. -/
def keyProbe : Probe := ⟨"add_foreign_key".toList, isBoundary, opensWith '"'⟩

/-! ## Openings -/

theorem opensWith_cons {d c : Char} (hc : isBlank c = false) (cs : List Char) :
    opensWith d (c :: cs) = false := by
  simp [opensWith, hc]

theorem opensWith_of_follows {d : Char} (hd : isOpener d = true) {rest : List Char}
    (h : Follows rest) : opensWith d rest = false := by
  have hhead : (trimStart rest).head? ≠ some d := by
    intro hhead
    have := h.2 d hhead
    rw [hd] at this
    cases this
  simp [opensWith, hhead]

theorem stops_of_opensWith {d : Char} {cs : List Char} (h : opensWith d cs = true) :
    Stops isWordChar cs := by
  cases cs with
  | nil => exact stops_nil _
  | cons c cs =>
    rw [stops_cons, Bool.eq_false_iff]
    intro hc
    rw [opensWith_cons (isBlank_eq_false_of_isWordChar hc)] at h
    cases h

theorem opensWith_of_skipSome? {p : Char → Bool} (hp : ∀ c, p c = true → isBlank c = true)
    {cs rest : List Char} (h : skipSome? p cs = some rest) {d : Char} {ds : List Char}
    (hd : rest = d :: ds) (hblank : isBlank d = false) : opensWith d cs = true := by
  cases cs with
  | nil => cases h
  | cons c cs =>
    simp only [skipSome?] at h
    split at h
    · next hc =>
      cases h
      have hrun : ∀ e ∈ cs.takeWhile p, isBlank e = true := fun e he => hp e (List.mem_takeWhile_imp he)
      have htrim : trimStart (c :: cs) = d :: ds := by
        rw [trimStart, List.dropWhile_cons_of_pos (hp c hc), ← @List.takeWhile_append_dropWhile _ p cs,
          hd]
        exact dropWhile_append_of_stops hrun (by simpa using hblank)
      simp [opensWith, hp c hc, htrim]
    · cases h

/-- An index is read behind white space and a bracket only. -/
theorem opensWith_of_index {rest : List Char} {index : IndexStatement}
    (h : IndexStatement.read? rest = some index) : opensWith '[' rest = true := by
  simp only [IndexStatement.read?, Option.bind_eq_bind, Option.bind_eq_some_iff] at h
  obtain ⟨list, hlist, group, hgroup, _, hguard, -⟩ := h
  have hlist' := Group.eq_text_append hgroup
  have hsquare := (Option.guard_eq_some' ()).mp hguard
  rw [Bool.and_eq_true, decide_eq_true_eq] at hsquare
  rw [Group.text, hsquare.1, List.cons_append] at hlist'
  exact opensWith_of_skipSome? (fun _ hc => hc) hlist hlist' (by decide)

/-! ## Regularity -/

theorem not_isBoundary_of_isWordChar {c : Char} (hc : isWordChar c = true) :
    isBoundary (some c) = false := by
  simp [isBoundary, hc]

theorem not_isGap_of_isWordChar {c : Char} (hc : isWordChar c = true) :
    TableBlock.isGap (some c) = false := isBlank_eq_false_of_isWordChar hc

theorem absent_from_word {cs : List Char} {c : Char} (hc : c ∈ cs)
    (h : ∀ word : Keyword, c ∉ word.word.toList) (word : Keyword) : ¬ cs <:+: word.word.toList :=
  fun hpart => h word (hpart.subset hc)

theorem regular_tableProbe : tableProbe.Regular where
  head := ⟨'c', _, rfl, by decide, by decide⟩
  word := Or.inl (by decide +kernel)
  closing := by decide
  opens c hc h := by
    cases (not_isBoundary_of_isWordChar hc).symm.trans h
  accepts_mark _ c cs hc _ := opensWith_cons hc cs
  accepts_rest _ rest h := opensWith_of_follows (by decide) h
  keyword := absent_from_word (by decide : '_' ∈ tableProbe.word)
    (fun word => by cases word <;> decide)
  barred := ⟨"create_table", by decide, List.infix_refl _⟩

theorem regular_keyProbe : keyProbe.Regular where
  head := ⟨'a', _, rfl, by decide, by decide⟩
  word := Or.inl (by decide +kernel)
  closing := by decide
  opens c hc h := by
    cases (not_isBoundary_of_isWordChar hc).symm.trans h
  accepts_mark _ c cs hc _ := opensWith_cons hc cs
  accepts_rest _ rest h := opensWith_of_follows (by decide) h
  keyword := absent_from_word (by decide : '_' ∈ keyProbe.word)
    (fun word => by cases word <;> decide)
  barred := ⟨"add_foreign_key", by decide, List.infix_refl _⟩

theorem regular_openerProbe : openerProbe.Regular where
  head := ⟨'d', _, rfl, by decide, by decide⟩
  word := Or.inl (by decide)
  closing := by decide
  opens _ _ _ := rfl
  accepts_mark _ c cs hc hbar := by
    have htrim : trimStart (c :: cs) = c :: cs := trimStart_of_stops (by simpa using hc)
    simp [openerProbe, htrim, after?, hbar]
  accepts_rest _ rest h := by
    cases htrim : trimStart rest with
    | nil => simp [openerProbe, htrim, after?]
    | cons c cs =>
      have hc : c ≠ '|' := by
        rintro rfl
        have := h.2
        rw [htrim, stops_cons] at this
        cases this
      simp [openerProbe, htrim, after?, hc]
  keyword := absent_from_word (by decide : 'd' ∈ openerProbe.word)
    (fun word => by cases word <;> decide)
  barred := ⟨"do", by decide, List.infix_refl _⟩

theorem regular_closingProbe : closingProbe.Regular where
  head := ⟨'e', _, rfl, by decide, by decide⟩
  word := Or.inl (by decide)
  closing := by decide
  opens c hc h := by
    cases (not_isGap_of_isWordChar hc).symm.trans h
  accepts_mark _ c cs hc _ := hc
  accepts_rest h := absurd h (by decide)
  keyword := absent_from_word (by decide : 'd' ∈ closingProbe.word)
    (fun word => by cases word <;> decide)
  barred := ⟨"end", by decide, List.infix_refl _⟩

theorem regular_columnProbe : columnProbe.Regular where
  head := ⟨'t', _, rfl, by decide, by decide⟩
  word := Or.inr ⟨'t', [], rfl⟩
  closing := by decide
  opens c hc h := by
    cases (not_isBoundary_of_isWordChar hc).symm.trans h
  accepts_mark h := absurd (h '.' (by decide)) (by decide)
  accepts_rest _ rest h := by
    have hnone : rest.takeWhile isWordChar = [] := by
      cases rest with
      | nil => rfl
      | cons c cs =>
        have hc := stops_cons.mp h.1
        simp only [Bool.or_eq_false_iff] at hc
        rw [List.takeWhile_cons_of_neg (by simp [hc.1])]
    simp [columnProbe, hnone]
  keyword := absent_from_word (by decide : '.' ∈ columnProbe.word)
    (fun word => by cases word <;> decide)
  barred := ⟨"t.", by decide, List.infix_refl _⟩

theorem regular_indexProbe : indexProbe.Regular where
  head := ⟨'t', _, rfl, by decide, by decide⟩
  word := Or.inr ⟨'t', _, rfl⟩
  closing := by decide
  opens c hc h := by
    cases (not_isBoundary_of_isWordChar hc).symm.trans h
  accepts_mark h := absurd (h '.' (by decide)) (by decide)
  accepts_rest _ rest h := by
    show (IndexStatement.read? rest).isSome = false
    cases hread : IndexStatement.read? rest with
    | none => rfl
    | some index =>
      have hopens := opensWith_of_index hread
      rw [opensWith_of_follows (by decide) h] at hopens
      cases hopens
  keyword := absent_from_word (by decide : '.' ∈ indexProbe.word)
    (fun word => by cases word <;> decide)
  barred := ⟨"t.", by decide, ⟨[], "index".toList, by decide⟩⟩

/-! ## Where a statement is read, its probe fires -/

theorem exists_of_quotedName? {cs : List Char} {found : List Char × List Char}
    (h : quotedName? cs = some found) : ∃ ds, cs = '"' :: ds :=
  ⟨_, eq_of_quotedName? h⟩

theorem fires_of_read? {before : Option Char} {cs rest : List Char} {key : ForeignKeyStatement}
    (hbefore : isBoundary before = true) (hrest : after? "add_foreign_key".toList cs = some rest)
    (h : ForeignKeyStatement.read? rest = some key) : keyProbe.fires before cs = true := by
  simp only [ForeignKeyStatement.read?, Option.bind_eq_bind, Option.bind_eq_some_iff] at h
  obtain ⟨list, hlist, found, hquoted, -⟩ := h
  obtain ⟨ds, hds⟩ := exists_of_quotedName? hquoted
  refine Probe.fires_iff.mpr ⟨hbefore, rest, after?_eq_some_iff.mp hrest, ?_⟩
  exact opensWith_of_skipSome? (fun _ hc => hc) hlist hds (by decide)

theorem fires_of_at? {before : Option Char} {cs rest : List Char} {start : Nat}
    {block : TableBlock} (hbefore : isBoundary before = true)
    (hrest : after? TableBlock.keyword.toList cs = some rest)
    (h : TableBlock.at? ⟨start, rest⟩ = some block) : tableProbe.fires before cs = true := by
  simp only [TableBlock.at?, Option.bind_eq_bind, Option.bind_eq_some_iff] at h
  obtain ⟨list, hlist, found, hquoted, -⟩ := h
  obtain ⟨ds, hds⟩ := exists_of_quotedName? hquoted
  refine Probe.fires_iff.mpr ⟨hbefore, rest, after?_eq_some_iff.mp hrest, ?_⟩
  exact opensWith_of_skipSome? (fun _ hc => hc) hlist hds (by decide)

theorem fires_of_index {before : Option Char} {cs rest : List Char} {index : IndexStatement}
    (hbefore : isBoundary before = true) (hrest : after? "t.index".toList cs = some rest)
    (h : IndexStatement.read? rest = some index) : indexProbe.fires before cs = true := by
  refine Probe.fires_iff.mpr ⟨hbefore, rest, after?_eq_some_iff.mp hrest, ?_⟩
  show (IndexStatement.read? rest).isSome = true
  rw [h]
  rfl

theorem exists_of_name? {cs : List Char} {found : List Char × List Char}
    (h : ColumnStatement.name? cs = some found) : ∃ ds, cs = '"' :: ds := by
  simp only [ColumnStatement.name?, Option.filter_eq_some_iff] at h
  exact exists_of_quotedName? h.1

theorem fires_of_typed? {before : Option Char} {cs rest : List Char} {column : ColumnStatement}
    (hbefore : isBoundary before = true) (hrest : after? "t.".toList cs = some rest)
    (h : ColumnStatement.typed? rest = some column) : columnProbe.fires before cs = true := by
  simp only [ColumnStatement.typed?, Option.bind_eq_bind, Option.bind_eq_some_iff] at h
  obtain ⟨_, hguard, list, hlist, found, hname, -⟩ := h
  obtain ⟨ds, hds⟩ := exists_of_name? hname
  have hopens := opensWith_of_skipSome? (fun _ hc => isBlank_of_isInlineBlank hc) hlist hds
    (by decide)
  have htype := (Option.guard_eq_some' ()).mp hguard
  have hindex : (rest.takeWhile isWordChar != "index".toList) = true := by
    rw [bne_iff_ne]
    intro heq
    rw [heq] at htype
    revert htype
    decide
  simp only [Bool.and_eq_true] at htype
  refine Probe.fires_iff.mpr ⟨hbefore, rest, after?_eq_some_iff.mp hrest, ?_⟩
  simp only [columnProbe, htype.1, hindex, hopens, Bool.and_true]

theorem fires_of_generic? {before : Option Char} {cs rest : List Char} {column : ColumnStatement}
    (hbefore : isBoundary before = true) (hrest : after? "t.column".toList cs = some rest)
    (h : ColumnStatement.generic? rest = some column) : columnProbe.fires before cs = true := by
  simp only [ColumnStatement.generic?, Option.bind_eq_bind, Option.bind_eq_some_iff] at h
  obtain ⟨list, hlist, found, hname, -⟩ := h
  obtain ⟨ds, hds⟩ := exists_of_name? hname
  have hopens := opensWith_of_skipSome? (fun _ hc => isBlank_of_isInlineBlank hc) hlist hds
    (by decide)
  have hword : ∀ c ∈ "column".toList, isWordChar c = true := by decide +kernel
  have hstop := stops_of_opensWith hopens
  refine Probe.fires_iff.mpr ⟨hbefore, "column".toList ++ rest, ?_, ?_⟩
  · rw [after?_eq_some_iff.mp hrest]
    rfl
  · simp only [columnProbe, takeWhile_append_of_stops hword hstop,
      dropWhile_append_of_stops hword hstop, hopens]
    decide

end RailsSchema
