import RailsSchema.Proofs.Dump.RoundTrip

/-!
# Inert comments

Searches do not know about quotes, so a comment can begin or end something. `InertInBody` and
`InertInHead` say of a comment on a column and on a table that it does not: which words it must not
contain at all, and with which it must not end, since what follows the closing quote may go on
with them. An inert comment is mute (`InertInBody.muteFor`, `InertInHead.muteFor`).
-/

namespace RailsSchema

open Text

namespace Dump

/-- Whether a comment on a column begins and ends nothing. -/
structure InertInBody (comment : String) : Prop where
  quote : '"' ∉ comment.toList
  newline : '\n' ∉ comment.toList
  /-- No `end` stands between white space. -/
  closing : ∀ front c d back, comment.toList = front ++ c :: ("end".toList ++ d :: back) →
    isBlank c = true → isBlank d = false
  /-- No column type stands at the end, with white space behind it. -/
  column : ∀ front type blanks, comment.toList = front ++ ("t.".toList ++ (type ++ blanks)) →
    isBoundary front.getLast? = true → IsWord type → type ≠ "index".toList →
    (∀ c ∈ blanks, isBlank c = true) → blanks = []
  /-- No index is declared, whatever follows the comment. -/
  index : ∀ front back, comment.toList = front ++ ("t.index".toList ++ back) →
    isBoundary front.getLast? = true → ∀ rest, IndexStatement.read? (back ++ '"' :: rest) = none
  /-- No `add_foreign_key` stands at the end, with white space behind it. -/
  key : ∀ front blanks, comment.toList = front ++ ("add_foreign_key".toList ++ blanks) →
    isBoundary front.getLast? = true → (∀ c ∈ blanks, isBlank c = true) → blanks = []

/-- Whether a comment on a table begins and ends nothing. -/
structure InertInHead (comment : String) : Prop where
  quote : '"' ∉ comment.toList
  newline : '\n' ∉ comment.toList
  /-- No `do` stands before a `|t|`, with or without white space between them. -/
  opener : ∀ front blanks back,
    comment.toList = front ++ ("do".toList ++ (blanks ++ ("|t|".toList ++ back))) →
    ¬ ∀ c ∈ blanks, isBlank c = true
  /-- No `add_foreign_key` stands at the end, with white space behind it. -/
  key : ∀ front blanks, comment.toList = front ++ ("add_foreign_key".toList ++ blanks) →
    isBoundary front.getLast? = true → (∀ c ∈ blanks, isBlank c = true) → blanks = []

/-! ## What stands before a place and behind it -/

theorem lastOf_eq_getLast? {front : List Char} (hne : front ≠ []) (before : Option Char) :
    lastOf before front = front.getLast? := by
  induction front generalizing before with
  | nil => exact absurd rfl hne
  | cons c front ih =>
    cases front with
    | nil => rfl
    | cons d front =>
      rw [lastOf_cons, ih (List.cons_ne_nil d front), List.getLast?_cons_cons]

/-- A word can begin at the front of a string. -/
theorem isBoundary_getLast? {front : List Char}
    (h : isBoundary (lastOf (some '"') front) = true) : isBoundary front.getLast? = true := by
  cases front with
  | nil => rfl
  | cons c front => rwa [lastOf_eq_getLast? (List.cons_ne_nil c front)] at h

/-- Behind white space the closing quote comes next only if there is nothing else. -/
theorem blank_of_opensWith {back rest : List Char} (hquote : '"' ∉ back)
    (h : opensWith '"' (back ++ '"' :: rest) = true) :
    back ≠ [] ∧ ∀ c ∈ back, isBlank c = true := by
  have htake := takeWhile_append_cons (by decide : isBlank '"' = false) back rest
  have hdrop := dropWhile_append_cons (by decide : isBlank '"' = false) back rest
  have hsplit := @List.takeWhile_append_dropWhile _ isBlank back
  unfold opensWith trimStart at h
  rw [htake, hdrop, Bool.and_eq_true] at h
  cases htail : back.dropWhile isBlank with
  | nil =>
    rw [htail, List.append_nil] at hsplit
    rw [hsplit] at h
    refine ⟨by simpa using h.1, ?_⟩
    rw [← hsplit]
    exact fun c hc => List.mem_takeWhile_imp hc
  | cons c cs =>
    have hc : c = '"' := by simpa [htail] using h.2
    refine absurd ?_ hquote
    rw [← hsplit, htail, hc]
    simp

theorem not_mem_back {front word back : List Char} {comment : String}
    (hcs : comment.toList = front ++ (word ++ back)) (hquote : '"' ∉ comment.toList) :
    '"' ∉ back := by
  intro hmem
  apply hquote
  rw [hcs]
  simp [hmem]

/-! ## Inert comments are mute -/

variable {comment : String}

theorem mutes_keyProbe (hquote : '"' ∉ comment.toList)
    (h : ∀ front blanks, comment.toList = front ++ ("add_foreign_key".toList ++ blanks) →
      isBoundary front.getLast? = true → (∀ c ∈ blanks, isBlank c = true) → blanks = []) :
    keyProbe.Mutes comment := by
  intro rest
  refine Probe.silent_of_forall (by decide +kernel) fun front back hcs hopens => ?_
  show opensWith '"' (back ++ '"' :: rest) = false
  rw [Bool.eq_false_iff]
  intro hopensWith
  obtain ⟨hne, hblanks⟩ := blank_of_opensWith (not_mem_back hcs hquote) hopensWith
  exact hne (h front back hcs (isBoundary_getLast? hopens) hblanks)

theorem InertInBody.mutes_closingProbe (h : InertInBody comment) : closingProbe.Mutes comment := by
  intro rest
  refine Probe.silent_of_forall (by decide) fun front back hcs hopens => ?_
  show TableBlock.isGap (back ++ '"' :: rest).head? = false
  cases back with
  | nil => exact (by decide : TableBlock.isGap (some '"') = false)
  | cons d back =>
    show isBlank d = false
    rcases List.eq_nil_or_concat front with rfl | ⟨front, c, rfl⟩
    · -- the quote in front of the comment is no white space
      exact absurd hopens (by decide)
    · rw [List.concat_eq_append] at hopens hcs
      rw [lastOf_append] at hopens
      refine h.closing front c d back ?_ hopens
      rw [hcs, List.append_assoc]
      rfl

theorem InertInBody.mutes_columnProbe (h : InertInBody comment) : columnProbe.Mutes comment := by
  intro rest
  refine Probe.silent_of_forall (by decide) fun front back hcs hopens => ?_
  have hquote := not_mem_back hcs h.quote
  have hsplit := @List.takeWhile_append_dropWhile _ isWordChar back
  have htake := takeWhile_append_cons (by decide : isWordChar '"' = false) back rest
  have hdrop := dropWhile_append_cons (by decide : isWordChar '"' = false) back rest
  rw [Bool.eq_false_iff]
  intro haccepts
  simp only [columnProbe, htake, hdrop, Bool.and_eq_true, Bool.not_eq_true',
    List.isEmpty_eq_false_iff, bne_iff_ne] at haccepts
  obtain ⟨⟨hne, hindex⟩, hopensWith⟩ := haccepts
  have hmem : '"' ∉ back.dropWhile isWordChar :=
    fun hmem => hquote ((List.dropWhile_suffix isWordChar).mem hmem)
  obtain ⟨hblanks, hall⟩ := blank_of_opensWith hmem hopensWith
  refine hblanks (h.column front (back.takeWhile isWordChar) _ ?_ (isBoundary_getLast? hopens)
    ⟨hne, fun c hc => List.mem_takeWhile_imp hc⟩ hindex hall)
  rw [hsplit]
  exact hcs

theorem InertInBody.mutes_indexProbe (h : InertInBody comment) : indexProbe.Mutes comment := by
  intro rest
  refine Probe.silent_of_forall (by decide) fun front back hcs hopens => ?_
  show (IndexStatement.read? (back ++ '"' :: rest)).isSome = false
  rw [h.index front back hcs (isBoundary_getLast? hopens) rest]
  rfl

/-- An inert comment on a column is mute for all that is looked for in a body. -/
theorem InertInBody.muteFor (h : InertInBody comment) : MuteFor bodyProbes comment := by
  intro p hp
  simp only [bodyProbes, List.mem_cons, List.not_mem_nil, or_false] at hp
  rcases hp with rfl | rfl | rfl | rfl
  · exact h.mutes_closingProbe
  · exact h.mutes_columnProbe
  · exact h.mutes_indexProbe
  · exact mutes_keyProbe h.quote h.key

theorem InertInHead.mutes_openerProbe (h : InertInHead comment) : openerProbe.Mutes comment := by
  intro rest
  refine Probe.silent_of_forall (by decide) fun front back hcs _ => ?_
  have hsplit := @List.takeWhile_append_dropWhile _ isBlank back
  show (after? "|t|".toList ((back ++ '"' :: rest).dropWhile isBlank)).isSome = false
  rw [dropWhile_append_cons (by decide)]
  cases hafter : after? "|t|".toList (back.dropWhile isBlank ++ '"' :: rest) with
  | none => rfl
  | some more =>
    -- the bars stand inside the comment, since they hold no quote
    have hbars : ∀ c ∈ "|t|".toList, (c != '"') = true := by decide
    obtain ⟨extra, hextra, -⟩ := exists_of_append_eq hbars (stops_cons.mpr (by decide))
      (after?_eq_some_iff.mp hafter)
    refine absurd (fun c hc => List.mem_takeWhile_imp hc)
      (h.opener front (back.takeWhile isBlank) extra ?_)
    rw [← hextra, hsplit]
    exact hcs

/-- An inert comment on a table is mute for all that is looked for in front of a body. -/
theorem InertInHead.muteFor (h : InertInHead comment) : MuteFor headProbes comment := by
  intro p hp
  simp only [headProbes, List.mem_cons, List.not_mem_nil, or_false] at hp
  rcases hp with rfl | rfl
  · exact h.mutes_openerProbe
  · exact mutes_keyProbe h.quote h.key

/-! ## Ordinary comments -/

theorem eq_nil_of_endsWith {cs front blanks : List Char} (hcs : cs = front ++ blanks)
    (hlast : cs.getLast?.any isBlank = false) (hblanks : ∀ c ∈ blanks, isBlank c = true) :
    blanks = [] := by
  rcases List.eq_nil_or_concat blanks with rfl | ⟨start, c, rfl⟩
  · rfl
  · rw [List.concat_eq_append] at hcs hblanks
    rw [hcs, ← List.append_assoc, List.getLast?_concat] at hlast
    have hc : isBlank c = false := hlast
    rw [hblanks c (by simp)] at hc
    cases hc

theorem no_key_of_last (hlast : comment.toList.getLast?.any isBlank = false)
    (front blanks : List Char)
    (hcs : comment.toList = front ++ ("add_foreign_key".toList ++ blanks))
    (hblanks : ∀ c ∈ blanks, isBlank c = true) : blanks = [] := by
  rw [← List.append_assoc] at hcs
  exact eq_nil_of_endsWith hcs hlast hblanks

/-- On a column, a comment with no other white space than blanks, and none at its end, is inert if
it contains neither a lone `end` nor `t.index`. -/
theorem InertInBody.of_absent (hquote : '"' ∉ comment.toList)
    (hblank : ∀ c ∈ comment.toList, isBlank c = true → c = ' ')
    (hlast : comment.toList.getLast?.any isBlank = false)
    (hend : ¬ " end ".toList <:+: comment.toList)
    (hindex : ¬ "t.index".toList <:+: comment.toList) : InertInBody comment where
  quote := hquote
  newline := by
    intro hmem
    have := hblank '\n' hmem (by decide)
    cases this
  closing front c d back hcs hc := by
    rw [Bool.eq_false_iff]
    intro hd
    have hc' := hblank c (by rw [hcs]; simp) hc
    have hd' := hblank d (by rw [hcs]; simp) hd
    refine hend ⟨front, back, ?_⟩
    rw [hcs, hc', hd', List.append_assoc]
    rfl
  column front type blanks hcs _ _ _ hblanks := by
    rw [← List.append_assoc, ← List.append_assoc] at hcs
    exact eq_nil_of_endsWith hcs hlast hblanks
  index front back hcs := absurd ⟨front, back, by rw [hcs, List.append_assoc]⟩ hindex
  key front blanks hcs _ hblanks := no_key_of_last hlast front blanks hcs hblanks

/-- On a table, a comment without a line break and with no white space at its end is inert if it
contains no `|t|`. -/
theorem InertInHead.of_absent (hquote : '"' ∉ comment.toList) (hnewline : '\n' ∉ comment.toList)
    (hlast : comment.toList.getLast?.any isBlank = false)
    (hbars : ¬ "|t|".toList <:+: comment.toList) : InertInHead comment where
  quote := hquote
  newline := hnewline
  opener front blanks back hcs := by
    refine absurd ⟨front ++ ("do".toList ++ blanks), back, ?_⟩ hbars
    rw [hcs]
    simp only [List.append_assoc]
  key front blanks hcs _ hblanks := no_key_of_last hlast front blanks hcs hblanks

/-- An empty comment is inert. -/
theorem InertInBody.empty : InertInBody "" :=
  .of_absent (by decide) (by decide) (by decide) (by decide) (by decide)

theorem InertInHead.empty : InertInHead "" :=
  .of_absent (by decide) (by decide) (by decide) (by decide)

end Dump

end RailsSchema
