import RailsSchema.Literal.Listing
import RailsSchema.Proofs.Value.Sound

/-!
# What is read is sound

A literal is sound in a room for nesting if every filter makes a sound value of it
(`Literal.Sound`). All literals that a reader with some room takes off a text are sound in that room
(`Literal.sound_of_read?`): a scalar needs no room, and a list or a map needs one level more than
the reader of its members has. So the values of lists and option maps are sound to the depth that
the settings allow (`sound_parseOptions`).

The induction is `Literal.read?_induction`, over all that is taken off texts; it serves other
properties of what is read as well.
-/

namespace RailsSchema

/-- Whether all values that a literal can stand for are sound. -/
def Literal.Sound (room : Nat) (literal : Literal) : Prop :=
  ∀ filter, (literal.value filter).Sound room

/-- What holds of all that a reader takes off the ends of a text holds of all items of its
listing. -/
theorem Reader.forall_mem_listing_of_suffix {α : Type} {reader : Reader α} {P : α → Prop}
    (cutAt : List Char → Cut) {cs : List Char}
    (h : ∀ ds a rest, ds <:+ cs → reader.run ds = some (a, rest) → P a) :
    ∀ a ∈ (reader.listing cutAt cs).items, P a := by
  fun_induction Reader.listing reader cutAt cs with
  | case1 => simp
  | case2 => simp
  | case3 cs c following hcs a rest hrun others ih =>
    have hread : c :: following <:+ cs := hcs ▸ List.dropWhile_suffix Text.isSeparator
    have hrest : rest <:+ cs := (reader.isProperEnd hrun).1.trans hread
    refine List.forall_mem_cons.mpr ⟨h _ a rest hread hrun, ih ?_⟩
    exact fun ds b behind hds => h ds b behind (hds.trans hrest)

/-- What holds of all that a reader takes off any text holds of all items of a listing. -/
theorem Reader.forall_mem_listing {α : Type} {reader : Reader α} {P : α → Prop}
    (h : ∀ cs a rest, reader.run cs = some (a, rest) → P a) (cutAt : List Char → Cut)
    (cs : List Char) : ∀ a ∈ (reader.listing cutAt cs).items, P a :=
  forall_mem_listing_of_suffix cutAt fun ds a rest _ => h ds a rest

namespace Literal

/-- An entry is a key with what is read behind it. -/
theorem entryReader_eq_some_iff {reader : Reader Literal} {cs rest : List Char}
    {entry : String × Literal} :
    (entryReader reader).run cs = some (entry, rest) ↔
      ∃ key behind, key? cs = some (key, behind) ∧ entry.1 = String.ofList key ∧
        reader.run behind = some (entry.2, rest) := by
  simp only [entryReader, Option.bind_eq_bind, Option.bind_eq_some_iff]
  constructor
  · rintro ⟨⟨key, behind⟩, hkey, ⟨literal, rest'⟩, hliteral, heq⟩
    cases heq
    exact ⟨key, behind, hkey, rfl, hliteral⟩
  · rintro ⟨key, behind, hkey, hname, hliteral⟩
    refine ⟨(key, behind), hkey, (entry.2, rest), hliteral, ?_⟩
    rw [← hname]
    rfl

theorem eq_of_form? {inBrackets : List Char → Option (Literal × List Char)} {cs : List Char}
    {found : Literal × List Char} (h : form? inBrackets cs = some found) :
    inBrackets cs = some found ∨ scalar? cs = some found := by
  cases cs with
  | nil => cases h
  | cons c cs =>
    rw [form?] at h
    split at h
    · exact .inl h
    · exact .inr h

/-- Induction over what is taken off texts: a scalar, or a group whose members are read with less
room, either of them behind white space. -/
theorem read?_induction {motive : Nat → List Char → Literal → List Char → Prop}
    (scalar : ∀ room cs l rest, scalar? cs = some (l, rest) → motive room cs l rest)
    (group : ∀ room cs g, Text.group? cs = some g →
      (∀ ds l rest, (reader room).run ds = some (l, rest) → motive room ds l rest) →
      motive (room + 1) cs (ofGroup (reader room) g) g.rest)
    (blanks : ∀ room cs l rest, motive room (Text.trimStart cs) l rest → motive room cs l rest)
    (room : Nat) (cs : List Char) (l : Literal) (rest : List Char)
    (h : (reader room).run cs = some (l, rest)) : motive room cs l rest := by
  apply blanks
  induction room generalizing cs l rest with
  | zero =>
    have hform : form? (fun _ => none) (Text.trimStart cs) = some (l, rest) := h
    rcases eq_of_form? hform with hnone | hscalar
    · cases hnone
    · exact scalar 0 _ l rest hscalar
  | succ room ih =>
    have hform : form? (nested? (reader room)) (Text.trimStart cs) = some (l, rest) := h
    rcases eq_of_form? hform with hnested | hscalar
    · obtain ⟨g, hgroup, heq⟩ := Option.map_eq_some_iff.mp hnested
      cases heq
      apply group room _ g hgroup
      intro ds l' rest' hmember
      exact blanks room ds l' rest' (ih ds l' rest' hmember)
    · exact scalar (room + 1) _ l rest hscalar

theorem sound_ofToken (marked : Bool) {token : List Char} (hne : token ≠ []) :
    (ofToken marked token).Sound 0 := by
  intro filter
  unfold ofToken
  split
  · exact ⟨trivial, Nat.le_refl 0⟩
  split
  · next hnumeral =>
    rw [Bool.and_eq_true] at hnumeral
    refine ⟨?_, Nat.le_refl 0⟩
    show Numeral.IsCanonical (String.ofList (Numeral.normalize token)).toList
    rw [String.toList_ofList]
    exact Numeral.isCanonical_normalize hnumeral.2
  · refine ⟨?_, Nat.le_refl 0⟩
    show String.ofList token ≠ ""
    intro hempty
    exact hne (by simpa using congrArg String.toList hempty)

theorem sound_of_token? {marked : Bool} {cs rest : List Char} {l : Literal}
    (h : token? marked cs = some (l, rest)) : l.Sound 0 := by
  unfold token? at h
  split at h
  · cases h
  · next hne =>
    cases h
    exact sound_ofToken marked hne

theorem sound_of_quoted? {quote : Char} {cs rest : List Char} {l : Literal}
    (h : quoted? quote cs = some (l, rest)) : l.Sound 0 := by
  obtain ⟨found, -, heq⟩ := Option.map_eq_some_iff.mp h
  cases heq
  exact fun _ => ⟨trivial, Nat.le_refl 0⟩

theorem sound_of_callable? {source cs rest : List Char} {l : Literal}
    (h : callable? source cs = some (l, rest)) : l.Sound 0 := by
  unfold callable? at h
  split at h
  · cases h
    exact fun _ => ⟨trivial, Nat.le_refl 0⟩
  · cases h

theorem sound_of_scalar? {cs rest : List Char} {l : Literal}
    (h : scalar? cs = some (l, rest)) : l.Sound 0 := by
  unfold scalar? at h
  split at h
  · exact sound_of_quoted? h
  · exact sound_of_quoted? h
  · exact sound_of_callable? h
  · unfold bare? at h
    split at h <;> exact sound_of_token? h

section Nested

variable {reader : Reader Literal} {room : Nat}
  (hreader : ∀ cs l rest, reader.run cs = some (l, rest) → l.Sound room)

include hreader

theorem sound_items (filter : ArrayFilter) (cs : List Char) :
    ∀ value ∈ itemValues filter (itemsWith reader cs).items, value.Sound room := by
  have hall : ∀ item ∈ (itemsWith reader cs).items, item.Sound room :=
    Reader.forall_mem_listing hreader itemCut cs
  rw [itemValues_eq_filter]
  intro value hvalue
  obtain ⟨item, hitem, rfl⟩ := List.mem_map.mp (List.mem_filter.mp hvalue).1
  exact hall item hitem filter

theorem sound_entries (filter : ArrayFilter) (cs : List Char) :
    ∀ entry ∈ entryValues filter (entriesWith reader cs).items, entry.2.Sound room := by
  have hentry : ∀ cs (entry : String × Literal) rest,
      (entryReader reader).run cs = some (entry, rest) → entry.2.Sound room := by
    intro cs entry rest hrun
    obtain ⟨key, behind, -, -, hvalue⟩ := entryReader_eq_some_iff.mp hrun
    exact hreader behind entry.2 rest hvalue
  have hall := Reader.forall_mem_listing hentry entryCut cs
  rw [entryValues_eq_map]
  intro entry hmem
  obtain ⟨read, hread, rfl⟩ := List.mem_map.mp hmem
  exact hall read hread filter

/-- A list or a map needs one level more than its members. -/
theorem sound_ofGroup (group : Text.Group) : (ofGroup reader group).Sound (room + 1) := by
  intro filter
  unfold ofGroup
  cases group.bracket with
  | square => exact Value.sound_array (sound_items hreader filter group.inner)
  | curly => exact Value.sound_hash (Options.sound_ofEntries (sound_entries hreader filter _))

end Nested

theorem sound_of_read? {room : Nat} (cs : List Char) (l : Literal) (rest : List Char)
    (h : (reader room).run cs = some (l, rest)) : l.Sound room := by
  refine read?_induction (motive := fun room _ l _ => l.Sound room) ?_ ?_ ?_ room cs l rest h
  · intro room cs l rest hscalar filter
    exact (sound_of_scalar? hscalar filter).mono (Nat.zero_le room)
  · intro room cs group _ hmembers
    exact sound_ofGroup hmembers group
  · intro room cs l rest hread
    exact hread

end Literal

theorem sound_parseOptions (settings : Settings) (text : String) :
    (parseOptions settings text).Sound settings.maxDepth :=
  Options.sound_ofEntries
    (Literal.sound_entries Literal.sound_of_read? settings.arrayFilter _)

end RailsSchema
