import RailsSchema.Literal.Reader
import RailsSchema.Proofs.Value.Written

/-!
# Reading lists back

A list of items written with a comma and a space between them is read as those items, by any reader
that reads each of them back in front of a comma and at the end of the text.
`Reader.listing_intercalate` is the statement; `Reader.listing_nil`, `Reader.listing_cons` and
`Reader.listing_comma` are the steps of a reading.
-/

namespace RailsSchema.Reader

open Text

variable {α : Type} {reader : Reader α} {cutAt : List Char → Cut}

theorem listing_nil {cs : List Char} (h : cs.dropWhile isSeparator = []) :
    reader.listing cutAt cs = ⟨[], none⟩ := by
  unfold listing
  split
  · rfl
  · next heq => rw [h] at heq; cases heq

theorem listing_cons {cs rest : List Char} {c : Char} {following : List Char} {a : α}
    (hcs : cs.dropWhile isSeparator = c :: following)
    (hrun : reader.run (c :: following) = some (a, rest)) :
    reader.listing cutAt cs =
      ⟨a :: (reader.listing cutAt rest).items, (reader.listing cutAt rest).cut⟩ := by
  rw [listing]
  split
  · next heq => rw [hcs] at heq; cases heq
  · next heq =>
    rw [hcs] at heq
    cases heq
    split
    · next hnone => rw [hrun] at hnone; cases hnone
    · next hsome => rw [hrun] at hsome; cases hsome; rfl

theorem listing_cut {cs : List Char} {c : Char} {following : List Char}
    (hcs : cs.dropWhile isSeparator = c :: following) (hrun : reader.run (c :: following) = none) :
    reader.listing cutAt cs = ⟨[], some (cutAt (c :: following))⟩ := by
  rw [listing]
  split
  · next heq => rw [hcs] at heq; cases heq
  · next heq =>
    rw [hcs] at heq
    cases heq
    split
    · rfl
    · next hsome => rw [hrun] at hsome; cases hsome

/-- Only what stands behind the separators in front counts. -/
theorem listing_congr {cs ds : List Char}
    (h : cs.dropWhile isSeparator = ds.dropWhile isSeparator) :
    reader.listing cutAt cs = reader.listing cutAt ds := by
  cases hds : ds.dropWhile isSeparator with
  | nil => rw [listing_nil hds, listing_nil (h.trans hds)]
  | cons c following =>
    cases hrun : reader.run (c :: following) with
    | none => rw [listing_cut hds hrun, listing_cut (h.trans hds) hrun]
    | some found => rw [listing_cons hds hrun, listing_cons (h.trans hds) hrun]

theorem listing_comma (cs : List Char) :
    reader.listing cutAt (comma ++ cs) = reader.listing cutAt cs := by
  refine listing_congr (List.dropWhile_append_of_pos ?_)
  decide

/-- A text of items is read as those items. -/
theorem listing_intercalate {β : Type} {text : β → List Char} {item : β → α} {parts : List β}
    (hstart : ∀ part ∈ parts, text part ≠ [] ∧ Stops isSeparator (text part))
    (hrun : ∀ part ∈ parts, ∀ rest, Stops Literal.isTokenChar rest →
      reader.run (text part ++ rest) = some (item part, rest)) :
    reader.listing cutAt (comma.intercalate (parts.map text)) = ⟨parts.map item, none⟩ := by
  induction parts with
  | nil => exact listing_nil rfl
  | cons part parts ih =>
    have hfront : ∀ rest, ∃ c following, text part ++ rest = c :: following ∧
        (text part ++ rest).dropWhile isSeparator = c :: following := by
      intro rest
      obtain ⟨hne, hstop⟩ := hstart part List.mem_cons_self
      cases htext : text part with
      | nil => exact absurd htext hne
      | cons c cs =>
        refine ⟨c, cs ++ rest, rfl, dropWhile_of_stops ?_⟩
        rw [htext] at hstop
        exact hstop
    cases parts with
    | nil =>
      obtain ⟨c, following, hcons, hdrop⟩ := hfront []
      have hread := hrun part List.mem_cons_self [] (stops_nil _)
      rw [hcons] at hread
      rw [List.append_nil] at hdrop
      rw [List.map_singleton, List.intercalate_singleton, listing_cons hdrop hread,
        listing_nil rfl, List.map_singleton]
    | cons other parts =>
      obtain ⟨c, following, hcons, hdrop⟩ :=
        hfront (comma ++ comma.intercalate ((other :: parts).map text))
      have hread := hrun part List.mem_cons_self
        (comma ++ comma.intercalate ((other :: parts).map text)) (by simp [comma]; decide)
      rw [hcons] at hread
      have hothers := ih (fun p hp => hstart p (List.mem_cons_of_mem part hp))
        (fun p hp => hrun p (List.mem_cons_of_mem part hp))
      rw [List.map_cons, List.map_cons, List.intercalate_cons_cons, List.append_assoc,
        ← List.map_cons, listing_cons hdrop hread, listing_comma, hothers]
      rfl

end RailsSchema.Reader
