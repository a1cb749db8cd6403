import RailsSchema.Proofs.Literal.Sound
import RailsSchema.Proofs.Offset.Cursor
import RailsSchema.Proofs.Text.Groups
import Mathlib.Algebra.Order.BigOperators.Group.List
import Mathlib.Algebra.Order.Ring.Nat

/-!
# How large a value a text holds

Whatever reads a literal uses up at least as many bytes as there are values in it, those inside of
lists and maps included: a scalar takes one character at least, the members of a list or a map stand
one behind the other between its brackets, and what a filter drops or a later entry replaces only
makes the value smaller.

* `Reader.sum_listing_le`: if every item is no heavier than the text it takes, so is a listing;
* `OrderedMap.sum_ofEntries_le`: a map is no heavier than the entries it is made of;
* `Literal.nodes_add_le_of_read?`: so it is with the number of values in a literal.
-/

namespace RailsSchema

open Text

theorem Text.byteLength_lt_of_isProperEnd {cs rest : List Char} (h : IsProperEnd rest cs) :
    byteLength rest < byteLength cs := by
  have hlt := offsetOf_lt_offsetOf h (List.suffix_refl cs)
  unfold offsetOf at hlt
  omega

/-! ## Weights -/

/-- Items that are no heavier than the text they take add up to no more than the whole text. -/
theorem Reader.sum_listing_le {α : Type} {reader : Reader α} (weight : α → Nat)
    (h : ∀ cs a rest, reader.run cs = some (a, rest) → weight a + byteLength rest ≤ byteLength cs)
    (cutAt : List Char → Cut) (cs : List Char) :
    ((reader.listing cutAt cs).items.map weight).sum ≤ byteLength cs := by
  fun_induction Reader.listing reader cutAt cs with
  | case1 => exact Nat.zero_le _
  | case2 => exact Nat.zero_le _
  | case3 cs c following hcs a rest hrun others ih =>
    have hitem := h _ a rest hrun
    have hstart := byteLength_le_of_suffix (List.dropWhile_suffix isSeparator (l := cs))
    rw [hcs] at hstart
    have hothers : (others.items.map weight).sum ≤ byteLength rest := ih
    rw [List.map_cons, List.sum_cons]
    omega

namespace OrderedMap

variable {α : Type} (weight : α → Nat)

theorem sum_insert_le (m : OrderedMap α) (key : String) (value : α) :
    ((insert m key value).map fun entry => weight entry.2).sum ≤
      (m.map fun entry => weight entry.2).sum + weight value := by
  induction m with
  | nil => simp [insert]
  | cons entry m ih =>
    simp only [insert]
    split
    · simp only [List.map_cons, List.sum_cons]
      omega
    · simp only [List.map_cons, List.sum_cons]
      omega

/-- A map is no heavier than its entries were before some replaced others. -/
theorem sum_ofEntries_le (entries : List (String × α)) :
    ((ofEntries entries).map fun entry => weight entry.2).sum ≤
      (entries.map fun entry => weight entry.2).sum := by
  induction entries using List.reverseRecOn with
  | nil => exact Nat.le_refl _
  | append_singleton entries entry ih =>
    have hinsert := sum_insert_le weight (ofEntries entries) entry.1 entry.2
    rw [ofEntries_concat, List.map_append, List.sum_append, List.map_singleton,
      List.sum_singleton]
    omega

end OrderedMap

namespace Value

theorem itemNodes_eq_sum (items : List Value) : itemNodes items = (items.map nodes).sum := by
  induction items with
  | nil => rfl
  | cons item items ih => rw [itemNodes, ih, List.map_cons, List.sum_cons]

theorem entryNodes_eq_sum (entries : List (String × Value)) :
    entryNodes entries = (entries.map fun entry => entry.2.nodes).sum := by
  induction entries with
  | nil => rfl
  | cons entry entries ih => rw [entryNodes, ih, List.map_cons, List.sum_cons]

end Value

/-! ## Literals -/

namespace Literal

variable (filter : ArrayFilter)

/-- Whether a reader takes as many bytes off a text, at least, as there are values in what it
reads. -/
def TakesItsNodes (reader : Reader Literal) : Prop :=
  ∀ cs l rest, reader.run cs = some (l, rest) →
    (l.value filter).nodes + byteLength rest ≤ byteLength cs

variable {filter}

section Members

variable {reader : Reader Literal}

theorem itemNodes_le (h : TakesItsNodes filter reader) (cs : List Char) :
    Value.itemNodes (itemValues filter (itemsWith reader cs).items) ≤ byteLength cs := by
  have hkept : (itemValues filter (itemsWith reader cs).items).Sublist
      ((itemsWith reader cs).items.map (value filter)) := by
    rw [itemValues_eq_filter]
    exact List.filter_sublist
  have hlisting := Reader.sum_listing_le (fun l : Literal => (l.value filter).nodes) h itemCut cs
  calc Value.itemNodes (itemValues filter (itemsWith reader cs).items)
      = ((itemValues filter (itemsWith reader cs).items).map Value.nodes).sum :=
        Value.itemNodes_eq_sum _
    _ ≤ (((itemsWith reader cs).items.map (value filter)).map Value.nodes).sum :=
        (hkept.map Value.nodes).sum_le_sum fun _ _ => Nat.zero_le _
    _ = ((itemsWith reader cs).items.map fun l : Literal => (l.value filter).nodes).sum := by
        rw [List.map_map]
        rfl
    _ ≤ byteLength cs := hlisting

theorem entryNodes_le (h : TakesItsNodes filter reader) (cs : List Char) :
    Value.entryNodes
        (OrderedMap.ofEntries (entryValues filter (entriesWith reader cs).items)) ≤
      byteLength cs := by
  have hentry : ∀ cs (entry : String × Literal) rest,
      (entryReader reader).run cs = some (entry, rest) →
        (entry.2.value filter).nodes + byteLength rest ≤ byteLength cs := by
    intro cs entry rest hrun
    obtain ⟨key, behind, hkey, -, hread⟩ := entryReader_eq_some_iff.mp hrun
    have hvalue := h behind entry.2 rest hread
    have hbehind := byteLength_lt_of_isProperEnd (isProperEnd_of_key? hkey)
    omega
  have hlisting := Reader.sum_listing_le
    (fun entry : String × Literal => (entry.2.value filter).nodes) hentry entryCut cs
  rw [Value.entryNodes_eq_sum]
  refine Nat.le_trans (OrderedMap.sum_ofEntries_le Value.nodes _) ?_
  rw [entryValues_eq_map, List.map_map]
  exact hlisting

theorem nodes_ofGroup_le (h : TakesItsNodes filter reader) (group : Group) :
    ((ofGroup reader group).value filter).nodes ≤ byteLength group.inner + 1 := by
  unfold ofGroup
  cases group.bracket with
  | square => exact Nat.succ_le_succ (itemNodes_le h group.inner)
  | curly => exact Nat.succ_le_succ (entryNodes_le h group.inner)

end Members

/-- A literal takes as many bytes, at least, as there are values in it. -/
theorem nodes_add_le_of_read? (filter : ArrayFilter) (room : Nat) :
    TakesItsNodes filter (reader room) := by
  refine read?_induction (motive := fun _ cs l rest =>
    (l.value filter).nodes + byteLength rest ≤ byteLength cs) ?_ ?_ ?_ room
  · intro room cs l rest hscalar
    have hone := Value.nodes_of_depth_le_zero (sound_of_scalar? hscalar filter).depth_le
    have hrest := byteLength_lt_of_isProperEnd (isProperEnd_of_scalar? hscalar)
    omega
  · intro room cs group hgroup hmembers
    have hnodes := nodes_ofGroup_le hmembers group
    have hlength := Group.byteLength_eq hgroup
    omega
  · intro room cs l rest hread
    exact Nat.le_trans hread (byteLength_le_of_suffix (trimStart_suffix cs))

end Literal

end RailsSchema
