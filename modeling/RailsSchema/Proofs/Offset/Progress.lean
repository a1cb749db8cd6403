import RailsSchema.Proofs.Literal.Size
import RailsSchema.Proofs.Offset.Value

/-!
# Progress by byte offsets

The one-pass program ends on every text, however large the depth is that it may go to: the depth is
counted, but it is not what the recursion rests on. `Progress` gathers what makes it end, for the
text between any two brackets as for the whole text:

* a literal that is found is not empty and ends in the text, so the loops over members go on strictly
  behind the place where they stood (`Finds.advances`);
* what stands between two brackets is two bytes shorter than the text around it;
* the count of the depth does not wrap around.

From this the size of what is found is bounded too: there are no more values in it than bytes it was
read from.
-/

namespace RailsSchema.Offset

open Text

variable {text : List Char}

/-- A loop over members that finds one goes on behind the offset where it stood, in the text. -/
theorem Finds.advances {α β : Type} {member : Nat → Except OffsetError (Option (β × Nat))}
    {reader : Reader α} {mean : α → β} (h : Finds text member reader mean) {pos start stop : Nat}
    {separators : List Char} {b : β}
    (hstart : eatWhile isSeparator text pos = .ok (separators, start))
    (hfound : member start = .ok (some (b, stop))) : pos < stop ∧ stop ≤ byteLength text := by
  cases hdrop : dropBytes pos text with
  | error e =>
    rw [eatWhile_of_error hdrop] at hstart
    cases hstart
  | ok cs =>
    obtain ⟨hcs, rfl⟩ := dropBytes_eq_ok_iff_offsetOf.mp hdrop
    have hbehind := List.dropWhile_suffix isSeparator (l := cs)
    rw [eatWhile_offsetOf hcs] at hstart
    cases hstart
    rw [h _ (hbehind.trans hcs), Except.ok.injEq, Option.map_eq_some_iff] at hfound
    obtain ⟨⟨a, rest⟩, hrun, heq⟩ := hfound
    cases heq
    have hrest := (reader.isProperEnd hrun).trans_suffix hbehind
    exact ⟨offsetOf_lt_offsetOf hrest hcs, offsetOf_le_byteLength text rest⟩

/-- What is found at a place ends at one, behind it, and holds no more values than it takes bytes. -/
theorem bounds_of_value {filter : ArrayFilter} {maxDepth depth : UInt64} {cs : List Char}
    (hcs : cs <:+ text) {v : Value} {stop : Nat}
    (h : value filter maxDepth depth text (offsetOf text cs) = .ok (some (v, stop))) :
    IsPlace text stop ∧ offsetOf text cs < stop ∧ stop ≤ byteLength text ∧
      v.nodes ≤ stop - offsetOf text cs := by
  rw [value_offsetOf filter maxDepth depth text cs hcs, Except.ok.injEq,
    Option.map_eq_some_iff] at h
  obtain ⟨⟨l, rest⟩, hread, heq⟩ := h
  cases heq
  have hproper := Literal.isProperEnd_of_read? hread
  have hnodes := Literal.nodes_add_le_of_read? filter _ cs l rest hread
  have htext := byteLength_le_of_suffix hcs
  refine ⟨?_, offsetOf_lt_offsetOf hproper hcs, offsetOf_le_byteLength text rest, ?_⟩
  · obtain ⟨front, rfl⟩ := hproper.1.trans hcs
    exact ⟨front, rest, rfl, (offsetOf_append front rest).symm⟩
  · show (l.value filter).nodes ≤ offsetOf text rest - offsetOf text cs
    unfold offsetOf
    omega

/-- What makes the program end, for a text at some depth. -/
structure Progress (filter : ArrayFilter) (maxDepth depth : UInt64) (text : List Char) :
    Prop where
  /-- At every place the program comes to a result, which is that of `parseValue`. A literal ends at
  a place behind the one where its reading began, and there are no more values in it than bytes
  between the two. -/
  value : ∀ pos, IsPlace text pos → ∃ found,
    Offset.value filter maxDepth depth text pos = .ok found ∧
    parseValue ⟨filter, maxDepth.toNat - depth.toNat⟩ text pos = .ok found ∧
    ∀ v stop, found = some (v, stop) →
      IsPlace text stop ∧ pos < stop ∧ stop ≤ byteLength text ∧ v.nodes ≤ stop - pos
  /-- The loop over the items of a list ends, with the items that the reader lists. -/
  items : gatherItems filter (Offset.value filter maxDepth depth text) text =
    .ok (Literal.itemValues filter (Literal.items (maxDepth.toNat - depth.toNat) text).items)
  /-- The loop over the entries of a map ends, with the map of those that the reader lists. -/
  entries : gatherEntries (Offset.value filter maxDepth depth text) text =
    .ok (OrderedMap.ofEntries (Literal.entryValues filter
      (Literal.entries (maxDepth.toNat - depth.toNat) text).items))
  /-- The text that the program calls itself for is two bytes shorter. -/
  shorter : ∀ start inner stop, inside text start = .ok (some (inner, stop)) →
    byteLength inner + 2 ≤ byteLength text
  /-- The loop over items does not stand still. -/
  item : ∀ pos separators start v stop,
    eatWhile isSeparator text pos = .ok (separators, start) →
    Offset.value filter maxDepth depth text start = .ok (some (v, stop)) →
    pos < stop ∧ stop ≤ byteLength text
  /-- The loop over entries does not stand still. -/
  entry : ∀ pos separators start v stop,
    eatWhile isSeparator text pos = .ok (separators, start) →
    keyed (Offset.value filter maxDepth depth text) text start = .ok (some (v, stop)) →
    pos < stop ∧ stop ≤ byteLength text
  /-- Where the program goes deeper, one more than the depth is still a word. -/
  depth : depth < maxDepth →
    depth.toNat + 1 ≤ 2 ^ 64 - 1 ∧ (depth + 1).toNat = depth.toNat + 1

/-- The program makes progress on every text, at every depth and with every limit to the depth. -/
theorem value_progress (filter : ArrayFilter) (maxDepth depth : UInt64) (text : List Char) :
    Progress filter maxDepth depth text := by
  have hfinds := value_offsetOf filter maxDepth depth text
  constructor
  case value =>
    intro pos hpos
    obtain ⟨front, cs, rfl, rfl⟩ := hpos
    have hcs := List.suffix_append front cs
    have hvalue := hfinds cs hcs
    rw [← offsetOf_append front cs]
    refine ⟨_, hvalue, ?_, ?_⟩
    · rw [← value_eq]
      exact hvalue
    · intro v stop hfound
      rw [hfound] at hvalue
      exact bounds_of_value hcs hvalue
  case items => exact gatherItems_eq hfinds
  case entries => exact gatherEntries_eq hfinds
  case shorter =>
    intro start inner stop hinside
    exact byteLength_of_inside hinside
  case item =>
    intro pos separators start v stop hstart hfound
    exact hfinds.advances hstart hfound
  case entry =>
    intro pos separators start v stop hstart hfound
    exact (finds_keyed hfinds).advances hstart hfound
  case depth =>
    intro hlt
    have hdepth := UInt64.lt_iff_toNat_lt.mp hlt
    have hword := maxDepth.toNat_lt
    exact ⟨by omega, toNat_succ_of_lt hlt⟩

end RailsSchema.Offset
