import RailsSchema.Proofs.Statement.Concat
import RailsSchema.Statement.Column
import Mathlib.Data.Option.Basic

/-!
# Column statements line by line

A column statement begins and ends on one line. No step of reading one passes a line break or looks
behind it, and a line break does to each of them what the end of the text does. So the column
statements of a text are those of its lines, read one by one, and a line that declares nothing,
whatever is wrong with it, neither hides nor changes what another line declares.

* `ColumnStatement.typed?_append_newline`, `ColumnStatement.generic?_append_newline`: a statement is
  the same with a line break and more behind the text, and so is its absence;
* `Linewise search`: in two texts with a line break between them the search finds what it finds in
  each of them;
* `Linewise.intercalate`, `Linewise.linesOf`: such a search goes through any text line by line;
* `ColumnStatement.all_linewise`: both searches for column statements are of this kind.
-/

namespace RailsSchema

open Text

/-! ## One statement -/

namespace ColumnStatement

theorem name?_append_newline (cs more : List Char) :
    name? (cs ++ '\n' :: more) =
      (name? cs).map fun found => (found.1, found.2 ++ '\n' :: more) := by
  unfold name?
  rw [quotedName?_append_newline, Option.filter_map]
  rfl

theorem typed?_append_newline (cs more : List Char) : typed? (cs ++ '\n' :: more) = typed? cs := by
  have hword : isWordChar '\n' = false := by decide
  unfold typed?
  rw [takeWhile_append_cons hword, dropWhile_append_cons hword,
    skipSome?_append_newline not_isInlineBlank_newline]
  simp only [Option.bind_eq_bind, Option.bind_map, Function.comp_def, name?_append_newline,
    trailingOptions?_append_newline]

theorem generic?_append_newline (cs more : List Char) :
    generic? (cs ++ '\n' :: more) = generic? cs := by
  have hcomma : '\n' ∉ [','] := by decide
  unfold generic?
  rw [skipSome?_append_newline not_isInlineBlank_newline]
  simp only [Option.bind_eq_bind, Option.bind_map, Function.comp_def, name?_append_newline,
    dropWhile_append_cons not_isInlineBlank_newline, after?_append_newline hcomma,
    trailingOptions?_append_newline]

end ColumnStatement

/-! ## Searches that go line by line -/

section Linewise

variable {α : Type}

/-- Whether a search finds in two texts with a line break between them what it finds in each. -/
def Linewise (search : String → List α) : Prop :=
  ∀ a b, search (a ++ "\n" ++ b) = search a ++ search b

/-- The statements that are read behind the places of a keyword are found line by line, if reading
one does not see a line break and what follows it. -/
theorem linewise_of_sites {keyword : String} (hline : '\n' ∉ keyword.toList)
    (hne : keyword.toList ≠ []) {read : List Char → Option α}
    (hread : ∀ cs more, read (cs ++ '\n' :: more) = read cs) :
    Linewise fun text => (sites keyword text.toList).filterMap fun site => read site.rest := by
  intro a b
  have hfirst : ((sites keyword a.toList).map (Site.append · ('\n' :: b.toList))).filterMap
        (fun site => read site.rest) =
      (sites keyword a.toList).filterMap fun site => read site.rest := by
    rw [List.filterMap_map]
    apply List.filterMap_congr
    intro site _
    exact hread site.rest b.toList
  show (sites keyword (a ++ "\n" ++ b).toList).filterMap _ = _
  rw [String.toList_append_newline, sites_append_newline hline hne, List.filterMap_append, hfirst,
    List.filterMap_map]
  rfl

variable {search : String → List α}

theorem Linewise.intercalate (h : Linewise search) {lines : List String} (hne : lines ≠ []) :
    search ("\n".intercalate lines) = lines.flatMap search := by
  induction lines with
  | nil => exact absurd rfl hne
  | cons line lines ih =>
    rw [List.flatMap_cons]
    by_cases hlast : lines = []
    · rw [hlast, String.intercalate_singleton, List.flatMap_nil, List.append_nil]
    · rw [String.intercalate_cons_of_ne_nil hlast, h, ih hlast]

/-- One line among others adds what it has itself, and the others have what they have without it. -/
theorem Linewise.between (h : Linewise search) (before : List String) (line : String)
    (behind : List String) :
    search ("\n".intercalate (before ++ line :: behind)) =
      before.flatMap search ++ (search line ++ behind.flatMap search) := by
  have hne : before ++ line :: behind ≠ [] := by simp
  rw [h.intercalate hne, List.flatMap_append, List.flatMap_cons]

/-- The lines of a text, without the line breaks between them. -/
def Text.linesOf (text : String) : List String := (text.toList.splitOn '\n').map String.ofList

theorem Text.linesOf_ne_nil (text : String) : linesOf text ≠ [] := by
  unfold linesOf
  rw [ne_eq, List.map_eq_nil_iff]
  exact List.splitOn_ne_nil _ _

theorem Text.intercalate_linesOf (text : String) : "\n".intercalate (linesOf text) = text := by
  have hlines : (linesOf text).map String.toList = text.toList.splitOn '\n' := by
    unfold linesOf
    rw [List.map_map]
    exact map_eq_self fun cs _ => String.toList_ofList
  apply String.toList_injective
  rw [String.toList_intercalate, hlines]
  exact List.intercalate_splitOn '\n'

theorem Linewise.linesOf (h : Linewise search) (text : String) :
    search text = (linesOf text).flatMap search := by
  have hlines := h.intercalate (linesOf_ne_nil text)
  rwa [intercalate_linesOf] at hlines

end Linewise

namespace ColumnStatement

theorem linewise_allTyped : Linewise allTyped :=
  linewise_of_sites (by decide) (by decide) typed?_append_newline

theorem linewise_allGeneric : Linewise allGeneric :=
  linewise_of_sites (by decide) (by decide) generic?_append_newline

/-- Both searches for column statements go line by line: two texts with a line break between them
have the statements of the first and then those of the second, a text has those of its lines, and
whatever a line holds, the lines before and behind it have the statements that they have alone. -/
theorem all_linewise :
    (∀ a b, allTyped (a ++ "\n" ++ b) = allTyped a ++ allTyped b ∧
      allGeneric (a ++ "\n" ++ b) = allGeneric a ++ allGeneric b) ∧
    (∀ body, allTyped body = (linesOf body).flatMap allTyped ∧
      allGeneric body = (linesOf body).flatMap allGeneric) ∧
    ∀ before line behind,
      allTyped ("\n".intercalate (before ++ line :: behind)) =
        before.flatMap allTyped ++ (allTyped line ++ behind.flatMap allTyped) ∧
      allGeneric ("\n".intercalate (before ++ line :: behind)) =
        before.flatMap allGeneric ++ (allGeneric line ++ behind.flatMap allGeneric) := by
  refine ⟨?_, ?_, ?_⟩
  · intro a b
    exact ⟨linewise_allTyped a b, linewise_allGeneric a b⟩
  · intro body
    exact ⟨linewise_allTyped.linesOf body, linewise_allGeneric.linesOf body⟩
  · intro before line behind
    exact ⟨linewise_allTyped.between before line behind,
      linewise_allGeneric.between before line behind⟩

end ColumnStatement

end RailsSchema
