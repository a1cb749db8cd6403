import RailsSchema.Proofs.Text.Runs
import Mathlib.Algebra.Ring.Nat
import Mathlib.Data.List.Basic

/-!
# Line breaks

* `lineBreaks`: how many line breaks there are in a text, and in texts put together;
* `OneLine`: the texts without a line break;
* `newline_not_mem_of_trailingOptions?`, `newline_not_mem_of_quotedName?`: what the scanners of one
  line take has none.
-/

namespace RailsSchema.Text

/-- The number of line breaks in a text. -/
def lineBreaks (text : String) : Nat := text.toList.count '\n'

/-- Whether a text has no line break. -/
def OneLine (text : String) : Prop := '\n' ∉ text.toList

instance : DecidablePred OneLine := fun text => inferInstanceAs (Decidable ('\n' ∉ text.toList))

theorem lineBreaks_eq_zero_iff {text : String} : lineBreaks text = 0 ↔ OneLine text :=
  List.count_eq_zero

theorem OneLine.lineBreaks {text : String} (h : OneLine text) : lineBreaks text = 0 :=
  lineBreaks_eq_zero_iff.mpr h

@[simp] theorem oneLine_ofList {cs : List Char} : OneLine (String.ofList cs) ↔ '\n' ∉ cs := by
  rw [OneLine, String.toList_ofList]

/-! ## Texts put together -/

@[simp] theorem lineBreaks_append (text more : String) :
    lineBreaks (text ++ more) = lineBreaks text + lineBreaks more := by
  rw [lineBreaks, String.toList_append, List.count_append]
  rfl

theorem lineBreaks_join (texts : List String) :
    lineBreaks (String.join texts) = (texts.map lineBreaks).sum := by
  induction texts with
  | nil => rfl
  | cons text texts ih =>
    rw [String.join_cons, lineBreaks_append, ih, List.map_cons, List.sum_cons]

theorem lineBreaks_intercalate {sep : String} (hsep : OneLine sep) (texts : List String) :
    lineBreaks (sep.intercalate texts) = (texts.map lineBreaks).sum := by
  induction texts with
  | nil => rfl
  | cons text texts ih =>
    by_cases hlast : texts = []
    · rw [hlast, String.intercalate_singleton]
      rfl
    · rw [String.intercalate_cons_of_ne_nil hlast, lineBreaks_append, lineBreaks_append, ih,
        hsep.lineBreaks, Nat.add_zero, List.map_cons, List.sum_cons]

theorem OneLine.append {text more : String} (h : OneLine text) (hmore : OneLine more) :
    OneLine (text ++ more) := by
  rw [← lineBreaks_eq_zero_iff, lineBreaks_append, h.lineBreaks, hmore.lineBreaks]

theorem OneLine.intercalate {sep : String} (hsep : OneLine sep) {texts : List String}
    (h : ∀ text ∈ texts, OneLine text) : OneLine (sep.intercalate texts) := by
  rw [← lineBreaks_eq_zero_iff, lineBreaks_intercalate hsep, List.sum_eq_zero_iff_forall_eq_nat,
    List.forall_mem_map]
  exact fun text htext => (h text htext).lineBreaks

/-! ## What is taken from one line -/

variable {cs rest : List Char}

theorem mem_of_mem_trim {c : Char} (h : c ∈ trim cs) : c ∈ cs := by
  obtain ⟨front, back, hcs, -, -⟩ := exists_trim cs
  rw [hcs]
  exact List.mem_append_right _ (List.mem_append_left _ h)

theorem mem_of_mem_stripOuter {opening closing c : Char} (h : c ∈ stripOuter opening closing cs) :
    c ∈ cs := by
  unfold stripOuter at h
  split at h
  · exact h
  split at h
  · split at h
    · exact List.mem_cons_of_mem _ (List.dropLast_subset _ h)
    · exact List.mem_cons_of_mem _ h
  · exact h

theorem newline_not_mem_trim_line (cs : List Char) : '\n' ∉ trim (line cs) := by
  intro hmem
  have hline := List.mem_takeWhile_imp (mem_of_mem_trim hmem)
  exact absurd hline (by decide)

theorem newline_not_mem_of_trailingOptions? {options : List Char}
    (h : trailingOptions? cs = some options) : '\n' ∉ options := by
  unfold trailingOptions? at h
  split at h
  · cases h
    exact List.not_mem_nil
  · next behind hbehind =>
    cases h
    intro hmem
    refine newline_not_mem_trim_line cs ?_
    rw [hbehind]
    exact List.mem_cons_of_mem _ (mem_of_mem_trim hmem)
  · cases h

theorem newline_not_mem_of_quotedName? {name : List Char} (h : quotedName? cs = some (name, rest)) :
    '\n' ∉ name :=
  fun hmem => ((quotedName?_eq_some_iff.mp h).2 _ hmem).2 rfl

end RailsSchema.Text
