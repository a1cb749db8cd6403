import RailsSchema.Proofs.Literal.Lists
import RailsSchema.Proofs.Literal.Scalars
import RailsSchema.Proofs.Literal.Sound
import RailsSchema.Proofs.Offset.Cursor
import Mathlib

/-!
# Reading with less room for nesting

A literal that is read with less room ends where it ends with more, and its value is that value cut
short: a list keeps some of its first items, each of them cut short in turn, and a map keeps some of
its first keys. `Value.Approximates` is this relation between the two values.

* `Reader.listing_simulates`: if a reader reads all that another reads, up to the same places, the
  items of the other are a beginning of its items;
* `Literal.read?_simulates`: with more room all is read that is read with less, and approximated by
  it; with no room at all this still holds, which is where lists are cut short;
* `parseValue_truncates`: with room for one level at least, both read a literal or neither does.
-/

namespace RailsSchema

open Text

/-! ## Values cut short -/

/-- Whether a value is another one with lists and maps cut short. The values of a map are not
compared: of two entries for one key the later one counts, and it may be missing. -/
inductive Value.Approximates : Value → Value → Prop where
  | str (text : String) : Approximates (.str text) (.str text)
  | callable (source : String) : Approximates (.callable source) (.callable source)
  | numeric (text : String) : Approximates (.numeric text) (.numeric text)
  | symbol (name : String) : Approximates (.symbol name) (.symbol name)
  | keyword (word : Keyword) : Approximates (.keyword word) (.keyword word)
  /-- Each item approximates the one that stands in its place. -/
  | array {items taken others : List Value} (h : List.Forall₂ Approximates items taken)
      (hbegins : taken <+: others) : Approximates (.array items) (.array others)
  /-- The keys are the first ones. -/
  | hash {entries others : List (String × Value)}
      (h : OrderedMap.keys entries <+: OrderedMap.keys others) :
      Approximates (.hash entries) (.hash others)

namespace Value

theorem Approximates.refl (value : Value) : value.Approximates value := by
  induction value using Value.induction with
  | str text => exact .str text
  | callable source => exact .callable source
  | hash entries _ => exact .hash (List.prefix_refl _)
  | array items ih => exact .array (List.forall₂_same.mpr ih) (List.prefix_refl items)
  | numeric text => exact .numeric text
  | symbol name => exact .symbol name
  | keyword word => exact .keyword word

/-- A filter does not see whether a value was cut short. -/
theorem Approximates.keeps {value value' : Value} (h : value.Approximates value')
    (filter : ArrayFilter) : filter.keeps value = filter.keeps value' := by
  cases filter with
  | present => rfl
  | legacyTruthy => cases h <;> rfl

end Value

/-- The keys of a beginning of a list of entries are the first keys of its map. -/
theorem OrderedMap.keys_ofEntries_isPrefix {α : Type} {entries others : List (String × α)}
    (h : entries.map (·.1) <+: others.map (·.1)) :
    keys (ofEntries entries) <+: keys (ofEntries others) := by
  obtain ⟨more, hmore⟩ := h
  rw [keys_ofEntries, keys_ofEntries, ← hmore, List.eraseDups_append]
  exact List.prefix_append _ _

/-! ## Two readers -/

/-- Whether a second reader reads all that a first one reads, up to the same place; `P` is how the
things read are related. -/
def Reader.Simulates {α : Type} (P : α → α → Prop) (first second : Reader α) : Prop :=
  ∀ cs a rest, first.run cs = some (a, rest) → ∃ b, second.run cs = some (b, rest) ∧ P a b

theorem Reader.listing_simulates {α : Type} {P : α → α → Prop} {first second : Reader α}
    (h : Simulates P first second) (cutAt : List Char → Cut) (cs : List Char) :
    ∃ taken, List.Forall₂ P (first.listing cutAt cs).items taken ∧
      taken <+: (second.listing cutAt cs).items := by
  fun_induction Reader.listing first cutAt cs with
  | case1 cs hcs => exact ⟨[], .nil, List.nil_prefix⟩
  | case2 cs c following hcs hrun => exact ⟨[], .nil, List.nil_prefix⟩
  | case3 cs c following hcs a rest hrun others ih =>
    obtain ⟨b, hrun', hab⟩ := h _ a rest hrun
    obtain ⟨taken, htaken, hbegins⟩ := ih
    rw [listing_cons hcs hrun']
    exact ⟨b :: taken, .cons hab htaken, List.cons_prefix_cons.mpr ⟨rfl, hbegins⟩⟩

namespace Literal

variable (filter : ArrayFilter)

/-- Whether the value of a literal approximates that of another. -/
def Approximates (literal literal' : Literal) : Prop :=
  (literal.value filter).Approximates (literal'.value filter)

variable {filter}

theorem approximates_items {items taken others : List Literal}
    (h : List.Forall₂ (Approximates filter) items taken) (hbegins : taken <+: others) :
    (Value.array (itemValues filter items)).Approximates (.array (itemValues filter others)) := by
  have hvalues : List.Forall₂ Value.Approximates (items.map (value filter))
      (taken.map (value filter)) :=
    List.forall₂_map_left_iff.mpr (List.forall₂_map_right_iff.mpr h)
  have hkept := List.rel_filter (p := filter.keeps) (q := filter.keeps)
    (fun _ _ happrox => iff_of_eq (congrArg (· = true) (happrox.keeps filter))) hvalues
  rw [itemValues_eq_filter, itemValues_eq_filter]
  exact .array hkept ((hbegins.map _).filter _)

theorem approximates_entries {entries taken others : List (String × Literal)}
    (h : List.Forall₂ (fun entry entry' => entry.1 = entry'.1) entries taken)
    (hbegins : taken <+: others) :
    (Value.hash (OrderedMap.ofEntries (entryValues filter entries))).Approximates
      (.hash (OrderedMap.ofEntries (entryValues filter others))) := by
  have hkeys : entries.map (·.1) = taken.map (·.1) := by
    rw [← List.forall₂_eq_eq_eq, List.forall₂_map_left_iff, List.forall₂_map_right_iff]
    exact h
  refine .hash (OrderedMap.keys_ofEntries_isPrefix ?_)
  rw [entryValues_eq_map, entryValues_eq_map, List.map_map, List.map_map]
  show entries.map (·.1) <+: others.map (·.1)
  rw [hkeys]
  exact hbegins.map _

/-- Entries are read by a reader of their values; only the keys are compared. -/
theorem entryReader_simulates {P : Literal → Literal → Prop} {first second : Reader Literal}
    (h : Reader.Simulates P first second) :
    Reader.Simulates (fun entry entry' => entry.1 = entry'.1) (entryReader first)
      (entryReader second) := by
  intro cs entry rest hrun
  obtain ⟨key, behind, hkey, hname, hliteral⟩ := entryReader_eq_some_iff.mp hrun
  obtain ⟨literal, hliteral, -⟩ := h behind entry.2 rest hliteral
  refine ⟨(entry.1, literal), ?_, rfl⟩
  exact entryReader_eq_some_iff.mpr ⟨key, behind, hkey, hname, hliteral⟩

theorem approximates_ofGroup {first second : Reader Literal}
    (h : Reader.Simulates (Approximates filter) first second) (group : Group) :
    Approximates filter (ofGroup first group) (ofGroup second group) := by
  unfold ofGroup
  cases group.bracket with
  | square =>
    obtain ⟨taken, hitems, hbegins⟩ := Reader.listing_simulates h itemCut group.inner
    exact approximates_items hitems hbegins
  | curly =>
    obtain ⟨taken, hentries, hbegins⟩ :=
      Reader.listing_simulates (entryReader_simulates h) entryCut group.inner
    exact approximates_entries hentries hbegins

theorem form?_simulates {inBrackets inBrackets' : List Char → Option (Literal × List Char)}
    (h : ∀ cs l rest, inBrackets cs = some (l, rest) →
      ∃ l', inBrackets' cs = some (l', rest) ∧ Approximates filter l l')
    {cs rest : List Char} {l : Literal} (hform : form? inBrackets cs = some (l, rest)) :
    ∃ l', form? inBrackets' cs = some (l', rest) ∧ Approximates filter l l' := by
  cases cs with
  | nil => cases hform
  | cons c cs =>
    rw [form?] at hform ⊢
    by_cases hopening : (Bracket.ofOpening? c).isSome
    · rw [if_pos hopening] at hform ⊢
      exact h (c :: cs) l rest hform
    · rw [if_neg hopening] at hform ⊢
      exact ⟨l, hform, .refl _⟩

/-- What is read with some room is read with more, up to the same place, and approximates it. -/
theorem read?_simulates {room room' : Nat} (h : room ≤ room') :
    Reader.Simulates (Approximates filter) (reader room) (reader room') := by
  induction room generalizing room' with
  | zero =>
    intro cs l rest hrun
    cases room' with
    | zero => exact ⟨l, hrun, .refl _⟩
    | succ room' =>
      have hform : form? (fun _ => none) (trimStart cs) = some (l, rest) := hrun
      exact form?_simulates (fun _ _ _ hnone => by cases hnone) hform
  | succ room ih =>
    obtain ⟨more, rfl⟩ : ∃ more, room' = more + 1 := ⟨room' - 1, by omega⟩
    have hmembers := ih (Nat.le_of_succ_le_succ h)
    intro cs l rest hrun
    refine form?_simulates (fun ds l' rest' hnested => ?_) hrun
    obtain ⟨group, hgroup, heq⟩ := Option.map_eq_some_iff.mp hnested
    cases heq
    refine ⟨ofGroup (reader more) group, ?_, approximates_ofGroup hmembers group⟩
    rw [nested?, hgroup, Option.map_some]

/-- Whether a literal is read does not depend on the room, if there is some. -/
theorem isSome_read?_succ (room room' : Nat) (cs : List Char) :
    (read? (room + 1) cs).isSome = (read? (room' + 1) cs).isSome := by
  rw [read?_succ, read?_succ]
  cases trimStart cs with
  | nil => rfl
  | cons c cs =>
    simp only [form?]
    split
    · rw [nested?, nested?, Option.isSome_map, Option.isSome_map]
    · rfl

/-- With room for one level at least, a literal is read if it is read with more room, and it ends in
the same place. -/
theorem rel_read? (filter : ArrayFilter) {room room' : Nat} (h : room ≤ room') (cs : List Char) :
    Option.Rel (fun found found' => found.2 = found'.2 ∧
        (found.1.value filter).depth ≤ room + 1 ∧ Approximates filter found.1 found'.1)
      (read? (room + 1) cs) (read? (room' + 1) cs) := by
  have hsome := isSome_read?_succ room room' cs
  cases hread : read? (room + 1) cs with
  | none =>
    rw [hread, Option.isSome_none] at hsome
    rw [Option.isNone_iff_eq_none.mp (Option.isSome_eq_false_iff.mp hsome.symm)]
    exact .none
  | some found =>
    obtain ⟨l, rest⟩ := found
    obtain ⟨l', hread', happrox⟩ := read?_simulates (Nat.succ_le_succ h) cs l rest hread
    rw [show read? (room' + 1) cs = some (l', rest) from hread']
    exact .some ⟨rfl, (sound_of_read? cs l rest hread filter).depth_le, happrox⟩

/-! ## Room for no level -/

/-- With no room, nothing is read where a bracket is opened. -/
theorem read?_zero_of_opening {cs : List Char} {b : Bracket}
    (h : (trimStart cs).head? = some b.opening) : read? 0 cs = none := by
  rw [read?_zero, form?_of_opening _ h]

/-- Where no bracket is opened, the room does not matter. -/
theorem read?_of_not_opening {cs : List Char}
    (h : ∀ b : Bracket, (trimStart cs).head? ≠ some b.opening) (room : Nat) :
    read? room cs = read? 0 cs := by
  cases room with
  | zero => rfl
  | succ room =>
    rw [read?_zero, read?_succ]
    cases hcs : trimStart cs with
    | nil => rfl
    | cons c behind =>
      have hnone : Bracket.ofOpening? c = none := by
        refine Option.eq_none_iff_forall_ne_some.mpr fun b hb => h b ?_
        rw [hcs, Bracket.ofOpening?_eq_some_iff.mp hb, List.head?_cons]
      rw [form?, form?, hnone]
      rfl

end Literal

/-! ## Texts -/

theorem parseValue_append (settings : Settings) (front cs : List Char) :
    parseValue settings (front ++ cs) (byteLength front) =
      .ok ((Literal.read? settings.maxDepth cs).map fun found =>
        (found.1.value settings.arrayFilter, offsetOf (front ++ cs) found.2)) := by
  simp only [parseValue, Literal.readAt, Cursor.rest, dropBytes_append, Cursor.before]
  show Except.ok (((Literal.read? settings.maxDepth cs).map _).map _) = _
  rw [Option.map_map]
  rfl

/-- At any place of a text, a literal that is read with room for some levels is read with room for
more of them, and the other way round; it ends in the same place, and its value is nested no deeper
than there is room and approximates the value with more room. Without room no list and no map is
read, and everything else as with any room. -/
theorem parseValue_truncates {text : List Char} {start : Nat} (hstart : IsPlace text start)
    (filter : ArrayFilter) :
    (∀ d₁ d₂, 1 ≤ d₁ → d₁ ≤ d₂ → ∃ found₁ found₂,
      parseValue ⟨filter, d₁⟩ text start = .ok found₁ ∧
      parseValue ⟨filter, d₂⟩ text start = .ok found₂ ∧
      Option.Rel (fun a b => a.2 = b.2 ∧ a.1.depth ≤ d₁ ∧ a.1.Approximates b.1) found₁ found₂) ∧
    ∃ behind, dropBytes start text = .ok behind ∧
      (∀ b : Bracket, (trimStart behind).head? = some b.opening →
        parseValue ⟨filter, 0⟩ text start = .ok none) ∧
      ((∀ b : Bracket, (trimStart behind).head? ≠ some b.opening) →
        ∀ d, parseValue ⟨filter, d⟩ text start = parseValue ⟨filter, 0⟩ text start) := by
  obtain ⟨front, cs, rfl, rfl⟩ := hstart
  simp only [parseValue_append]
  refine ⟨?_, cs, dropBytes_append front cs, ?_, ?_⟩
  · intro d₁ d₂ hpos hle
    obtain ⟨room₁, rfl⟩ : ∃ room, d₁ = room + 1 := ⟨d₁ - 1, by omega⟩
    obtain ⟨room₂, rfl⟩ : ∃ room, d₂ = room + 1 := ⟨d₂ - 1, by omega⟩
    refine ⟨_, _, rfl, rfl, ?_⟩
    have hrel := Literal.rel_read? filter (Nat.le_of_succ_le_succ hle) cs
    generalize Literal.read? (room₁ + 1) cs = found₁ at hrel ⊢
    generalize Literal.read? (room₂ + 1) cs = found₂ at hrel ⊢
    cases hrel with
    | none => exact .none
    | some h => exact .some ⟨congrArg (offsetOf (front ++ cs)) h.1, h.2⟩
  · intro b hb
    rw [Literal.read?_zero_of_opening hb]
    rfl
  · intro hb d
    rw [Literal.read?_of_not_opening hb]

/-- A list with lists in it, behind four bytes. -/
def nestedList : List Char := "né: [1, [2, [3]], 4]".toList

theorem parseValue_nestedList :
    IsPlace nestedList 4 ∧ ∃ shallow deep,
      shallow = .array [.numeric "1", .array [.numeric "2"], .numeric "4"] ∧
      deep = .array [.numeric "1", .array [.numeric "2", .array [.numeric "3"]], .numeric "4"] ∧
      parseValue ⟨.present, 2⟩ nestedList 4 = .ok (some (shallow, 21)) ∧
      parseValue ⟨.present, 3⟩ nestedList 4 = .ok (some (deep, 21)) ∧
      shallow.depth ≤ 2 ∧ shallow.Approximates deep := by
  have hplace : IsPlace nestedList 4 :=
    ⟨"né:".toList, " [1, [2, [3]], 4]".toList, by decide, by decide⟩
  have hshallow : parseValue ⟨.present, 2⟩ nestedList 4 =
      .ok (some (.array [.numeric "1", .array [.numeric "2"], .numeric "4"], 21)) := by cbv
  have hdeep : parseValue ⟨.present, 3⟩ nestedList 4 =
      .ok (some (.array [.numeric "1", .array [.numeric "2", .array [.numeric "3"]],
        .numeric "4"], 21)) := by cbv
  obtain ⟨found₁, found₂, h₁, h₂, hrel⟩ :=
    (parseValue_truncates hplace .present).1 2 3 (by decide) (by decide)
  rw [hshallow] at h₁
  rw [hdeep] at h₂
  cases h₁
  cases h₂
  cases hrel with
  | some h => exact ⟨hplace, _, _, rfl, rfl, hshallow, hdeep, h.2⟩

end RailsSchema
