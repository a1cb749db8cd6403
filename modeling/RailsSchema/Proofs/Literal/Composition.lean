import RailsSchema.Proofs.Literal.Locality
import RailsSchema.Proofs.Entries
import Mathlib

/-!
# Lists and option maps behind one another

A text without brackets around it is read as a list (`Literal.itemsInside`) or as an option map
(`Literal.entriesInside`) of values. What stands behind it does not change what was read:

* if it is read to its end, then with a comma and more text behind it come the items of that text,
  and the entries of that text are set in the map, which has been made already;
* if it is not, the result is that of the front that was read, and stays the beginning of the result
  whatever follows the character at which the reading stopped.

`Composes` states both for any way of reading, and `Literal.composes_inside` that lists and maps are
read so.
-/

namespace RailsSchema

open Text

theorem Reader.listing_separator {α : Type} {reader : Reader α} {cutAt : List Char → Cut} {c : Char}
    (hc : isSeparator c = true) (cs : List Char) :
    reader.listing cutAt (c :: cs) = reader.listing cutAt cs :=
  listing_congr (List.dropWhile_cons_of_pos hc)

namespace Literal

/-- The values of the list whose text stands inside `depth` pairs of brackets. -/
def itemsInside (settings : Settings) (depth : Nat) (cs : List Char) : List Value :=
  itemValues settings.arrayFilter (items (settings.maxDepth - depth) cs).items

/-- The option map whose text stands inside `depth` pairs of brackets. -/
def entriesInside (settings : Settings) (depth : Nat) (cs : List Char) : Options :=
  OrderedMap.ofEntries
    (entryValues settings.arrayFilter (entries (settings.maxDepth - depth) cs).items)

theorem itemValues_append (filter : ArrayFilter) (items more : List Literal) :
    itemValues filter (items ++ more) = itemValues filter items ++ itemValues filter more := by
  simp only [itemValues_eq_filter, List.map_append, List.filter_append]

theorem entryValues_append (filter : ArrayFilter) (entries more : List (String × Literal)) :
    entryValues filter (entries ++ more) =
      entryValues filter entries ++ entryValues filter more := by
  simp only [entryValues_eq_map, List.map_append]

end Literal

/-- Whether a result read from texts is the result of a front and, added to it, that of the rest.
`cutOf` says where the reading of a text stops before its end, and `cutAt` what is missing at a
place. -/
structure Composes {β : Type} (cutOf : List Char → Option Cut) (cutAt : List Char → Cut)
    (result : List Char → β) (add : β → β → β) : Prop where
  /-- A text that is read to its end is not changed by what stands behind a comma. -/
  comma : ∀ cs more, cutOf cs = none → result (cs ++ ',' :: more) = add (result cs) (result more)
  /-- Of a text that is not read to its end the front is read, up to a character at which reading
  stops; what follows that character does not change it. -/
  cut : ∀ cs cut, cutOf cs = some cut →
    ∃ front c following, cs = front ++ c :: following ∧ cut = cutAt (c :: following) ∧
      cutOf front = none ∧ result cs = result front ∧
      ∀ following', result (front ++ c :: following') =
        add (result front) (result (c :: following'))

/-- What is made of the items read one after the other composes if it does so for lists of items. -/
theorem Reader.IsLocal.composes {α β : Type} {reader : Reader α} (h : reader.IsLocal)
    (cutAt : List Char → Cut) (mean : List α → β) (add : β → β → β)
    (hmean : ∀ items more, mean (items ++ more) = add (mean items) (mean more)) :
    Composes (fun cs => (reader.listing cutAt cs).cut) cutAt
      (fun cs => mean (reader.listing cutAt cs).items) add where
  comma := by
    intro cs more hcut
    have hcomma : Stops Literal.isTokenChar (',' :: more) := stops_cons.mpr (by decide)
    have hall := congrArg Listing.items (h.listing_append hcut hcomma)
    rw [listing_separator (by decide)] at hall
    rw [hall, hmean]
  cut := by
    intro cs cut hcut
    obtain ⟨front, c, following, hsplit, hplace, hfront, hall⟩ := h.exists_cut hcut
    have hitems : (reader.listing cutAt front).items = (reader.listing cutAt cs).items := by
      rw [hfront]
    have hend : (reader.listing cutAt front).cut = none := by
      rw [hfront]
    refine ⟨front, c, following, hsplit, hplace, hend, ?_, ?_⟩
    · rw [hitems]
    · intro following'
      rw [congrArg Listing.items (hall following'), hmean, hitems]

namespace Literal

/-- Lists and option maps are read front to back: a list goes on with the items behind it, and in a
map the entries behind it are set. -/
theorem composes_inside (settings : Settings) (depth : Nat) :
    Composes (fun cs => (items (settings.maxDepth - depth) cs).cut) itemCut
      (itemsInside settings depth) (· ++ ·) ∧
    Composes (fun cs => (entries (settings.maxDepth - depth) cs).cut) entryCut
      (entriesInside settings depth) OrderedMap.insertAll := by
  have hitem := isLocal_reader (settings.maxDepth - depth)
  constructor
  · exact hitem.composes itemCut (itemValues settings.arrayFilter) (· ++ ·)
      (itemValues_append settings.arrayFilter)
  · have hmap : ∀ entries more : List (String × Literal),
        OrderedMap.ofEntries (entryValues settings.arrayFilter (entries ++ more)) =
          OrderedMap.insertAll (OrderedMap.ofEntries (entryValues settings.arrayFilter entries))
            (OrderedMap.ofEntries (entryValues settings.arrayFilter more)) := by
      intro entries more
      rw [entryValues_append, OrderedMap.ofEntries_append_eq_insertAll]
    exact (isLocal_entryReader hitem).composes entryCut
      (fun entries => OrderedMap.ofEntries (entryValues settings.arrayFilter entries))
      OrderedMap.insertAll hmap

set_option maxRecDepth 4000 in
/-- A map that is read to its end, with an unclosed text behind a comma, and one that is read up to
a list without an end. -/
theorem composes_inside_unclosed :
    (entries 1 "a: [1], b: 2".toList).cut = none ∧
    entriesInside ⟨.present, 1⟩ 0 "a: [1], b: 2,a: nil, 'c: 4".toList =
      [("a", .keyword .nil), ("b", .numeric "2")] ∧
    (entries 1 "a: nil, b: [2".toList).cut = some (.value "b" "[2") ∧
    ∃ front c following, "a: nil, b: [2".toList = front ++ c :: following ∧
      entriesInside ⟨.present, 1⟩ 0 front = [("a", .keyword .nil)] ∧
      ∀ following', entriesInside ⟨.present, 1⟩ 0 (front ++ c :: following') =
        OrderedMap.insertAll [("a", .keyword .nil)]
          (entriesInside ⟨.present, 1⟩ 0 (c :: following')) := by
  have hend : (entries 1 "a: [1], b: 2".toList).cut = none := by decide +kernel
  have hcut : (entries 1 "a: nil, b: [2".toList).cut = some (.value "b" "[2") := by decide +kernel
  have hread : entriesInside ⟨.present, 1⟩ 0 "a: nil, b: [2".toList = [("a", .keyword .nil)] := by
    cbv
  have hmaps := (composes_inside ⟨.present, 1⟩ 0).2
  have hcomma := hmaps.comma _ "a: nil, 'c: 4".toList hend
  obtain ⟨front, c, following, hsplit, -, -, hfront, hall⟩ := hmaps.cut _ _ hcut
  rw [hread] at hfront
  refine ⟨hend, ?_, hcut, front, c, following, hsplit, hfront.symm, fun following' => ?_⟩
  · refine hcomma.trans ?_
    cbv
  · rw [hall following', hfront]

end Literal

end RailsSchema
