import RailsSchema.Proofs.Offset.Cursor
import RailsSchema.Proofs.Text.More
import Mathlib.Data.List.Infix

/-!
# Searching by byte offsets

A search for a word gives the offsets of its matches, those that overlap an earlier match left out.
No two matches of the words searched for here can overlap, since none of these words has its first
character a second time; so the matches are all places of the word (`indicesOf_eq`). A keyword
counts if the character in front of the match, which is the last of the slice up to it, lets it
begin there (`keywordPositions_eq`).
-/

namespace RailsSchema.Offset

open Text

variable {α β : Type} {text cs : List Char}

/-! ## Results of several accesses -/

/-- What is found at some places. -/
def collect (find : β → Except OffsetError (Option α)) : List β → Except OffsetError (List α)
  | [] => return []
  | place :: places => do
    match ← find place with
    | none => collect find places
    | some a => return a :: (← collect find places)

theorem collect_map {γ : Type} {find : β → Except OffsetError (Option α)} {place : γ → β}
    {found : γ → Option α} {names : List γ}
    (h : ∀ name ∈ names, find (place name) = .ok (found name)) :
    collect find (names.map place) = .ok (names.filterMap found) := by
  induction names with
  | nil => rfl
  | cons name names ih =>
    obtain ⟨hname, hnames⟩ := List.forall_mem_cons.mp h
    rw [List.map_cons, collect, hname, ok_bind, ih hnames]
    cases hfound : found name with
    | none => rw [List.filterMap_cons_none hfound]
    | some a => rw [List.filterMap_cons_some hfound]; rfl

/-! ## Words -/

/-- The offsets at which a word stands in a text that begins at byte `offset`, the first `skip`
characters belonging to a match already found. -/
def indicesFrom (word : List Char) : (skip offset : Nat) → List Char → List Nat
  | _, _, [] => []
  | skip + 1, offset, c :: cs => indicesFrom word skip (offset + c.utf8Size) cs
  | 0, offset, c :: cs =>
    if word.isPrefixOf (c :: cs) then
      offset :: indicesFrom word (word.length - 1) (offset + c.utf8Size) cs
    else indicesFrom word 0 (offset + c.utf8Size) cs

/-- The offsets of the matches of a word that do not overlap an earlier one. -/
def indicesOf (word text : List Char) : List Nat := indicesFrom word 0 0 text

/-- Whether the first character of a word is none of the others. -/
def HasOwnHead (word : List Char) : Prop := ∃ c cs, word = c :: cs ∧ c ∉ cs

theorem HasOwnHead.ne_nil {word : List Char} (h : HasOwnHead word) : word ≠ [] := by
  obtain ⟨c, cs, rfl, -⟩ := h
  exact List.cons_ne_nil c cs

theorem indicesFrom_offsetOf {word : List Char} {first : Char} {others : List Char}
    (hword : word = first :: others) (hfirst : first ∉ others) {skip : Nat}
    (hskip : first ∉ cs.take skip) (h : cs <:+ text) :
    indicesFrom word skip (offsetOf text cs) cs =
      (cs.tails.filter word.isPrefixOf).map (offsetOf text) := by
  induction cs generalizing skip with
  | nil => simp [indicesFrom, hword]
  | cons c cs ih =>
    have hcs := (List.suffix_cons c cs).trans h
    cases skip with
    | succ skip =>
      rw [List.take_succ_cons, List.mem_cons, not_or] at hskip
      have hno : word.isPrefixOf (c :: cs) = false := by
        simp [hword, List.isPrefixOf, hskip.1]
      rw [indicesFrom, offsetOf_cons_add h, ih hskip.2 hcs, List.tails_cons,
        List.filter_cons_of_neg (by simp [hno])]
    | zero =>
      rw [indicesFrom, offsetOf_cons_add h, List.tails_cons]
      by_cases hprefix : word.isPrefixOf (c :: cs) = true
      · obtain ⟨rest, hrest⟩ := List.isPrefixOf_iff_prefix.mp hprefix
        rw [hword] at hrest
        obtain ⟨-, rfl⟩ := List.cons.inj hrest
        have hown : first ∉ (others ++ rest).take (word.length - 1) := by
          simpa [hword] using hfirst
        rw [if_pos hprefix, List.filter_cons_of_pos hprefix, ih hown hcs, List.map_cons]
      · rw [if_neg hprefix, List.filter_cons_of_neg hprefix, ih (by simp) hcs]

/-- The matches of a word whose first character is none of the others are all its places. -/
theorem indicesOf_eq {word : List Char} (hword : HasOwnHead word) (text : List Char) :
    indicesOf word text = (text.tails.filter word.isPrefixOf).map (offsetOf text) := by
  obtain ⟨first, others, heq, hfirst⟩ := hword
  have hskip : first ∉ text.take 0 := by simp
  have h := indicesFrom_offsetOf heq hfirst hskip (List.suffix_refl text)
  rwa [offsetOf_self] at h

/-! ## Keywords -/

/-- The offsets of a keyword at which it can begin. -/
def keywordPositions (keyword : String) (text : List Char) : Except OffsetError (List Nat) :=
  collect (fun pos => do
    let front ← slice text 0 pos
    return if isBoundary front.getLast? then some pos else none) (indicesOf keyword.toList text)

theorem slice_zero (h : cs <:+ text) : slice text 0 (offsetOf text cs) = .ok (upTo text cs) := by
  have hslice := slice_offsetOf h (List.suffix_refl text)
  rwa [offsetOf_self] at hslice

theorem filterMap_tails_eq_sitesFrom {word : List Char} (hne : word ≠ []) (front cs : List Char) :
    (cs.tails.filter word.isPrefixOf).filterMap (fun ds =>
        if isBoundary (upTo (front ++ cs) ds).getLast? then some (offsetOf (front ++ cs) ds)
        else none) =
      (sitesFrom word front.getLast? (byteLength front) cs).map (·.start) := by
  induction cs generalizing front with
  | nil =>
    obtain ⟨first, others, rfl⟩ := List.exists_cons_of_ne_nil hne
    rfl
  | cons c cs ih =>
    have hih := ih (front ++ [c])
    rw [List.append_assoc, List.singleton_append, List.getLast?_concat, byteLength_append] at hih
    have hlast : byteLength front + byteLength [c] = byteLength front + c.utf8Size := rfl
    rw [hlast] at hih
    rw [List.tails_cons, sitesFrom, List.filter_cons, isPrefixOf_eq_isSome_after?]
    cases hafter : after? word (c :: cs) with
    | none =>
      simp only [Option.isSome_none, Bool.false_eq_true, if_false, ite_self]
      exact hih
    | some rest =>
      simp only [Option.isSome_some, if_true, List.filterMap_cons, upTo_append, offsetOf_append]
      by_cases hb : isBoundary front.getLast? = true
      · simp only [if_pos hb, List.map_cons, hih]
      · simp only [if_neg hb, hih]

theorem keywordPositions_eq {keyword : String} (hword : HasOwnHead keyword.toList)
    (text : List Char) :
    keywordPositions keyword text = .ok ((sites keyword text).map (·.start)) := by
  have hsites := filterMap_tails_eq_sitesFrom hword.ne_nil [] text
  rw [keywordPositions, indicesOf_eq hword, sites, collect_map (fun ds hds => ?_), hsites]
  · rfl
  · have hsuffix : ds <:+ text := (List.mem_tails ds text).mp (List.mem_filter.mp hds).1
    rw [slice_zero hsuffix]
    rfl

/-! ## Statements -/

/-- What is read behind the places of a keyword. -/
def statements (keyword : String) (read : List Char → Nat → Except OffsetError (Option α))
    (text : List Char) : Except OffsetError (List α) := do
  collect (fun pos => read text (pos + byteLength keyword.toList)) (← keywordPositions keyword text)

/-- The text behind a place of a keyword begins where the keyword ends. -/
theorem start_add_of_mem_sites {keyword : String} (hne : keyword.toList ≠ []) {site : Site}
    (h : site ∈ sites keyword text) :
    site.rest <:+ text ∧ site.start + byteLength keyword.toList = offsetOf text site.rest := by
  obtain ⟨front, rfl, hstart, -⟩ := (mem_sitesFrom_iff hne).mp h
  have hsuffix := List.suffix_append front (keyword.toList ++ site.rest)
  have hsum := offsetOf_append_add hsuffix
  rw [offsetOf_append] at hsum
  exact ⟨(List.suffix_append _ _).trans hsuffix, by omega⟩

theorem statements_eq (keyword : String) (text : List Char) (hword : HasOwnHead keyword.toList)
    {read : List Char → Nat → Except OffsetError (Option α)} {read? : List Char → Option α}
    (h : ∀ cs, cs <:+ text → read text (offsetOf text cs) = .ok (read? cs)) :
    statements keyword read text =
      .ok ((sites keyword text).filterMap fun site => read? site.rest) := by
  rw [statements, keywordPositions_eq hword, ok_bind, collect_map]
  intro site hsite
  obtain ⟨hsuffix, hstart⟩ := start_add_of_mem_sites hword.ne_nil hsite
  rw [hstart, h site.rest hsuffix]

end RailsSchema.Offset
