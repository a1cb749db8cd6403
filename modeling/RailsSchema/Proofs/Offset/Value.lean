import RailsSchema.Proofs.Literal.Truncation
import RailsSchema.Proofs.Offset.Literal
import RailsSchema.Proofs.Text.Groups

/-!
# Values by byte offsets, in one pass

A literal keeps what a filter will drop, and its value is taken in a second step. The program here
takes both steps at once: it drops an item as soon as it has been read, and sets a key of a map as
soon as its value has been read. It counts the depth of nesting in machine words, upwards and with
wrap-around, where the reader on characters counts the room that is left downwards.

The program calls itself for the text between two brackets, at every offset where a member begins.
That text is two bytes shorter than the text around it (`byteLength_of_inside`), and this alone is
why the program ends: how deep it may go is not used.

* `Finds`: whether a program by offsets finds what a reader reads;
* `gather_offsetOf`: gathering members one after the other is a fold over the listing of the reader;
* `value_offsetOf`, `value_eq`: from every offset the program finds the value that `parseValue`
  finds, with the room that is left at the depth.
-/

namespace RailsSchema.Offset

open Text

variable {text cs : List Char}

/-! ## The program -/

/-- What stands between the brackets of the group at an offset, and the offset behind the group. -/
def inside (text : List Char) (start : Nat) : Except OffsetError (Option (List Char × Nat)) :=
  ifFound (groupEnd text start) fun stop => do
  return some (← slice text (start + 1) (← back stop 1), stop)

/-- Reads members up to the end of the text or to the first place where there is none, and adds each
of them to what has been gathered. A member that takes nothing would be read forever, and one that
ends behind the text cannot be followed by another. -/
def gather {α β : Type} (member : Nat → Except OffsetError (Option (α × Nat))) (add : β → α → β)
    (text : List Char) (pos : Nat) (gathered : β) : Except OffsetError β := do
  let (_, start) ← eatWhile isSeparator text pos
  if byteLength text ≤ start then return gathered
  match ← member start with
  | none => return gathered
  | some (a, stop) =>
    if _h : pos < stop ∧ stop ≤ byteLength text then
      gather member add text stop (add gathered a)
    else .error .pastEnd
termination_by byteLength text - pos

/-- A list with one more item, if the filter keeps it. -/
def addItem (filter : ArrayFilter) (items : List Value) (item : Value) : List Value :=
  if filter.keeps item then items ++ [item] else items

/-- A map with an entry set. -/
def addEntry (entries : Options) (entry : String × Value) : Options :=
  OrderedMap.insert entries entry.1 entry.2

/-- A key and the value behind it. -/
def keyed (value : Nat → Except OffsetError (Option (Value × Nat))) (text : List Char) (pos : Nat) :
    Except OffsetError (Option ((String × Value) × Nat)) :=
  ifFound (key text pos) fun (name, start) =>
  ifFound (value start) fun (v, stop) =>
  return some ((String.ofList name, v), stop)

/-- The items of a list without its brackets. -/
def gatherItems (filter : ArrayFilter) (value : Nat → Except OffsetError (Option (Value × Nat)))
    (text : List Char) : Except OffsetError (List Value) :=
  gather value (addItem filter) text 0 []

/-- The entries of a map without its braces. -/
def gatherEntries (value : Nat → Except OffsetError (Option (Value × Nat))) (text : List Char) :
    Except OffsetError Options :=
  gather (keyed value text) addEntry text 0 []

/-- The list or the map whose members stand in a text. -/
def bracketed (filter : ArrayFilter) (bracket : Bracket)
    (value : Nat → Except OffsetError (Option (Value × Nat))) (text : List Char) :
    Except OffsetError Value :=
  match bracket with
  | .square => return .array (← gatherItems filter value text)
  | .curly => return .hash (← gatherEntries value text)

theorem inside_offsetOf (h : cs <:+ text) :
    inside text (offsetOf text cs) =
      .ok ((group? cs).map fun group => (group.inner, offsetOf text group.rest)) := by
  rw [Option.map_eq_bind]
  refine ifFound_eq (groupEnd_offsetOf h) fun group hgroup => ?_
  obtain ⟨stop, hstop, hinner⟩ := slice_inner hgroup h
  rw [hstop, ok_bind, hinner, ok_bind]
  rfl

/-- What stands between brackets is two bytes shorter than the text in which they stand. -/
theorem byteLength_of_inside {inner : List Char} {start stop : Nat}
    (h : inside text start = .ok (some (inner, stop))) :
    byteLength inner + 2 ≤ byteLength text := by
  cases hdrop : dropBytes start text with
  | error e =>
    have hend : groupEnd text start = .error e := by
      rw [groupEnd_eq, groupEnd?, Cursor.rest, hdrop, error_bind]
    rw [inside, ifFound, hend, error_bind] at h
    cases h
  | ok cs =>
    obtain ⟨hcs, rfl⟩ := dropBytes_eq_ok_iff_offsetOf.mp hdrop
    rw [inside_offsetOf hcs, Except.ok.injEq, Option.map_eq_some_iff] at h
    obtain ⟨group, hgroup, heq⟩ := h
    cases heq
    have hinner := Group.byteLength_eq hgroup
    have htext := byteLength_le_of_suffix hcs
    omega

/-- The value behind white space, inside `depth` pairs of brackets. -/
def value (filter : ArrayFilter) (maxDepth depth : UInt64) (text : List Char) (pos : Nat) :
    Except OffsetError (Option (Value × Nat)) := do
  let (_, start) ← eatWhile isBlank text pos
  match (← peek text start).bind Bracket.ofOpening? with
  | none => return (← literal 0 text start).map fun found => (found.1.value filter, found.2)
  | some bracket =>
    if maxDepth ≤ depth then return none
    match _h : inside text start with
    | .error e => .error e
    | .ok none => return none
    | .ok (some (inner, stop)) =>
      return some
        (← bracketed filter bracket (fun p => value filter maxDepth (depth + 1) inner p) inner, stop)
termination_by byteLength text
decreasing_by
  all_goals
    have := byteLength_of_inside _h
    omega

/-! ## What members are found -/

/-- Whether a program by offsets finds in a text what a reader reads, `mean` being what it makes of
it. -/
def Finds {α β : Type} (text : List Char) (member : Nat → Except OffsetError (Option (β × Nat)))
    (reader : Reader α) (mean : α → β) : Prop :=
  ∀ cs : List Char, cs <:+ text → member (offsetOf text cs) =
    .ok ((reader.run cs).map fun found => (mean found.1, offsetOf text found.2))

/-- Gathering members is a fold over the members that the reader lists. -/
theorem gather_offsetOf {α β γ : Type} {member : Nat → Except OffsetError (Option (β × Nat))}
    {reader : Reader α} {mean : α → β} (hmember : Finds text member reader mean)
    (cutAt : List Char → Cut) (add : γ → β → γ) (h : cs <:+ text) (gathered : γ) :
    gather member add text (offsetOf text cs) gathered =
      .ok (((reader.listing cutAt cs).items.map mean).foldl add gathered) := by
  induction hlength : cs.length using Nat.strongRecOn generalizing cs gathered with
  | ind length ih =>
  have hstart := List.dropWhile_suffix isSeparator (l := cs)
  rw [gather, eatWhile_offsetOf h, ok_bind]
  dsimp only
  cases hcs : cs.dropWhile isSeparator with
  | nil =>
    rw [Reader.listing_nil hcs, offsetOf_nil, if_pos (Nat.le_refl _)]
    rfl
  | cons c following =>
    rw [hcs] at hstart
    have hplace := hstart.trans h
    have hlt := offsetOf_lt_offsetOf (.of_suffix (List.nil_suffix) c) hplace
    rw [offsetOf_nil] at hlt
    rw [if_neg (Nat.not_le.mpr hlt), hmember _ hplace, ok_bind]
    cases hrun : reader.run (c :: following) with
    | none => rw [Reader.listing_cut hcs hrun]; rfl
    | some found =>
      obtain ⟨a, rest⟩ := found
      have hrest := (reader.isProperEnd hrun).trans_suffix hstart
      have hbounds : offsetOf text cs < offsetOf text rest ∧ offsetOf text rest ≤ byteLength text :=
        ⟨offsetOf_lt_offsetOf hrest h, offsetOf_le_byteLength text rest⟩
      have hothers := ih rest.length (hlength ▸ hrest.2) (hrest.1.trans h) (add gathered (mean a)) rfl
      simp only [Option.map_some, dif_pos hbounds, hothers, Reader.listing_cons hcs hrun,
        List.map_cons, List.foldl_cons]

theorem foldl_addItem (filter : ArrayFilter) (values items : List Value) :
    values.foldl (addItem filter) items = items ++ values.filter filter.keeps := by
  induction values generalizing items with
  | nil => simp
  | cons value values ih =>
    rw [List.foldl_cons, ih, addItem, List.filter_cons]
    split <;> simp

section Members

variable {member : Nat → Except OffsetError (Option (Value × Nat))} {reader : Reader Literal}
  {filter : ArrayFilter}

theorem finds_keyed (hmember : Finds text member reader (Literal.value filter)) :
    Finds text (keyed member text) (Literal.entryReader reader)
      fun entry => (entry.1, entry.2.value filter) := by
  intro cs h
  have hrun : (Literal.entryReader reader).run cs =
      (Literal.key? cs).bind fun found => (reader.run found.2).bind fun literal =>
        some ((String.ofList found.1, literal.1), literal.2) := rfl
  rw [hrun, Option.map_bind]
  refine ifFound_eq (key_offsetOf h) fun found hfound => ?_
  have hbehind := (Literal.isProperEnd_of_key? hfound).1.trans h
  show ifFound (member (offsetOf text found.2)) _ = _
  rw [hmember _ hbehind]
  cases hrun : reader.run found.2 <;> simp [Function.comp, hrun, ifFound]

theorem gatherItems_eq (hmember : Finds text member reader (Literal.value filter)) :
    gatherItems filter member text =
      .ok (Literal.itemValues filter (Literal.itemsWith reader text).items) := by
  have h := gather_offsetOf hmember Literal.itemCut (addItem filter) (List.suffix_refl text) []
  rw [offsetOf_self, foldl_addItem, List.nil_append, ← Literal.itemValues_eq_filter] at h
  exact h

theorem gatherEntries_eq (hmember : Finds text member reader (Literal.value filter)) :
    gatherEntries member text =
      .ok (OrderedMap.ofEntries
        (Literal.entryValues filter (Literal.entriesWith reader text).items)) := by
  have h := gather_offsetOf (finds_keyed hmember) Literal.entryCut addEntry
    (List.suffix_refl text) []
  rw [offsetOf_self, ← Literal.entryValues_eq_map] at h
  exact h

theorem bracketed_eq {group : Group}
    (hmember : Finds group.inner member reader (Literal.value filter)) :
    bracketed filter group.bracket member group.inner =
      .ok ((Literal.ofGroup reader group).value filter) := by
  unfold bracketed Literal.ofGroup
  cases group.bracket with
  | square =>
    rw [gatherItems_eq hmember]
    rfl
  | curly =>
    rw [gatherEntries_eq hmember]
    rfl

end Members

/-! ## What values are found -/

theorem toNat_succ_of_lt {depth maxDepth : UInt64} (h : depth < maxDepth) :
    (depth + 1).toNat = depth.toNat + 1 := by
  have hlt := UInt64.lt_iff_toNat_lt.mp h
  have hmax := maxDepth.toNat_lt
  rw [UInt64.toNat_add, UInt64.toNat_one]
  omega

/-- Where the program goes deeper there is room for one level more. -/
theorem room_of_lt {depth maxDepth : UInt64} (h : depth < maxDepth) :
    maxDepth.toNat - depth.toNat = maxDepth.toNat - (depth + 1).toNat + 1 := by
  have hlt := UInt64.lt_iff_toNat_lt.mp h
  rw [toNat_succ_of_lt h]
  omega

/-- At every place the program finds the value that is read with the room left at its depth. -/
theorem value_offsetOf (filter : ArrayFilter) (maxDepth depth : UInt64) (text : List Char) :
    Finds text (value filter maxDepth depth text)
      (Literal.reader (maxDepth.toNat - depth.toNat)) (Literal.value filter) := by
  -- Only the text between two brackets is looked at deeper, and that text is shorter.
  induction hlength : byteLength text using Nat.strongRecOn generalizing text depth with
  | ind length ih =>
  intro cs h
  have hblanks := (trimStart_suffix cs).trans h
  have hread : ∀ room, (Literal.reader room).run cs = Literal.read? room cs := fun _ => rfl
  rw [hread, value, skipBlanks_offsetOf h, ok_bind]
  dsimp only
  rw [peek_offsetOf hblanks, ok_bind]
  cases hopening : (trimStart cs).head?.bind Bracket.ofOpening? with
  | none =>
    have hnone : ∀ b : Bracket, (trimStart cs).head? ≠ some b.opening := by
      intro b hb
      rw [hb, Option.bind_some, Bracket.ofOpening?_eq_some_iff.mpr rfl] at hopening
      cases hopening
    have hscalar : (Literal.reader 0).run (trimStart cs) = Literal.read? 0 cs :=
      Literal.read?_trimStart 0 cs
    rw [Literal.read?_of_not_opening hnone]
    simp only [literal_offsetOf 0 hblanks, hscalar, ok_bind, pure_eq_ok, Option.map_map]
    rfl
  | some b =>
    obtain ⟨c, hc, hb⟩ := Option.bind_eq_some_iff.mp hopening
    obtain rfl := Bracket.ofOpening?_eq_some_iff.mp hb
    by_cases hdeep : maxDepth ≤ depth
    · have hroom : maxDepth.toNat - depth.toNat = 0 :=
        Nat.sub_eq_zero_of_le (UInt64.le_iff_toNat_le.mp hdeep)
      simp only [if_pos hdeep, hroom, Literal.read?_zero_of_opening hc]
      rfl
    · rw [room_of_lt (UInt64.not_le.mp hdeep), Literal.read?_succ_of_opening hc, Literal.nested?,
        Option.map_map]
      simp only [if_neg hdeep]
      split
      · next e hinside =>
        rw [inside_offsetOf hblanks] at hinside
        cases hinside
      · next hinside =>
        rw [inside_offsetOf hblanks, Except.ok.injEq, Option.map_eq_none_iff] at hinside
        rw [hinside]
        rfl
      · next inner stop hinside =>
        have hshorter := byteLength_of_inside hinside
        rw [inside_offsetOf hblanks, Except.ok.injEq, Option.map_eq_some_iff] at hinside
        obtain ⟨group, hgroup, heq⟩ := hinside
        cases heq
        obtain rfl : b = group.bracket := by
          rw [head?_eq_of_group? hgroup] at hc
          exact Bracket.opening_inj (Option.some.inj hc).symm
        have hmember := ih (byteLength group.inner) (by omega) (depth + 1) group.inner rfl
        rw [bracketed_eq hmember, hgroup]
        rfl

/-- From any offset the program comes to the outcome of `parseValue`, the room that is left being
what the depth has not used up. -/
theorem value_eq (filter : ArrayFilter) (maxDepth depth : UInt64) (text : List Char) (pos : Nat) :
    value filter maxDepth depth text pos =
      parseValue ⟨filter, maxDepth.toNat - depth.toNat⟩ text pos := by
  cases hdrop : dropBytes pos text with
  | error e =>
    rw [value, eatWhile_of_error hdrop, error_bind, parseValue, Literal.readAt, Cursor.rest, hdrop]
    rfl
  | ok cs =>
    obtain ⟨hcs, rfl⟩ := dropBytes_eq_ok_iff_offsetOf.mp hdrop
    rw [value_offsetOf filter maxDepth depth text cs hcs]
    obtain ⟨front, rfl⟩ := hcs
    rw [offsetOf_append, parseValue_append]
    rfl

end RailsSchema.Offset
