import RailsSchema.Proofs.Literal.Spelling
import RailsSchema.Proofs.Text.LineBreaks
import RailsSchema.Value.Display

/-!
# Values that are read from one line

A value is on one line if none of its texts and keys has a line break; it is then shown without one
(`Value.OneLine.display`). All that is read from a text without line breaks is on one line
(`Literal.oneLine_of_read?`, `oneLine_parseOptions`): strings, callables and keys are pieces of the
text, tokens have no white space at all, and lists and maps are made of what is read from the text
between their brackets.
-/

namespace RailsSchema

open Text

/-! ## Values on one line -/

namespace Value

/-- Whether a value has no line break in a text or in a key of its own. -/
def OwnOneLine : Value → Prop
  | .str text => Text.OneLine text
  | .callable source => Text.OneLine source
  | .numeric text => Text.OneLine text
  | .symbol name => Text.OneLine name
  | .hash entries => ∀ entry ∈ entries, Text.OneLine entry.1
  | _ => True

/-- Whether there is no line break in any text or key inside a value. -/
def OneLine (value : Value) : Prop := value.Each OwnOneLine

end Value

/-- Whether an option map has no line break in its keys and values. -/
def Options.OneLine (options : Options) : Prop :=
  ∀ entry ∈ options, Text.OneLine entry.1 ∧ entry.2.OneLine

namespace Value

theorem oneLine_array {items : List Value} :
    (array items).OneLine ↔ ∀ item ∈ items, item.OneLine := by
  rw [OneLine, Each, eachItem_iff]
  exact and_iff_right trivial

theorem oneLine_hash {entries : Options} : (hash entries).OneLine ↔ entries.OneLine := by
  rw [OneLine, Each, eachEntry_iff]
  exact forall₂_and.symm

theorem OneLine.name? {value : Value} (h : value.OneLine) {name : String}
    (hname : value.name? = some name) : Text.OneLine name := by
  cases value with
  | str | numeric | symbol =>
    cases hname
    exact h
  | _ => cases hname

/-- A value on one line is shown on one line. -/
theorem OneLine.display {value : Value} (h : value.OneLine) : Text.OneLine value.display := by
  induction value using Value.induction with
  | hash entries ih =>
    have hentries : ∀ text ∈ displayEntries entries, Text.OneLine text := by
      rw [displayEntries_eq_map, List.forall_mem_map]
      intro entry hentry
      obtain ⟨hkey, hvalue⟩ := oneLine_hash.mp h entry hentry
      exact (hkey.append (by decide)).append (ih entry hentry hvalue)
    rw [Value.display]
    exact ((by decide : Text.OneLine "\x7b").append (.intercalate (by decide) hentries)).append
      (by decide)
  | array items ih =>
    have hitems : ∀ text ∈ displayItems items, Text.OneLine text := by
      rw [displayItems_eq_map, List.forall_mem_map]
      exact fun item hitem => ih item hitem (oneLine_array.mp h item hitem)
    rw [Value.display]
    exact ((by decide : Text.OneLine "[").append (.intercalate (by decide) hitems)).append
      (by decide)
  | keyword word => cases word <;> decide
  | _ => exact h

end Value

namespace Options

theorem OneLine.get? {options : Options} (h : options.OneLine) {key : String} {value : Value}
    (hvalue : OrderedMap.get? options key = some value) : value.OneLine :=
  (h _ (OrderedMap.mem_of_get? hvalue)).2

theorem OneLine.erase {options : Options} (h : options.OneLine) (key : String) :
    OneLine (OrderedMap.erase options key) :=
  fun entry hentry => h entry (List.mem_filter.mp hentry).1

theorem OneLine.insert {options : Options} (h : options.OneLine) {key : String} {value : Value}
    (hkey : Text.OneLine key) (hvalue : value.OneLine) :
    OneLine (OrderedMap.insert options key value) := by
  intro entry hentry
  rcases OrderedMap.mem_of_mem_insert hentry with rfl | hentry
  · exact ⟨hkey, hvalue⟩
  · exact h entry hentry

theorem oneLine_ofEntries {entries : List (String × Value)}
    (h : ∀ entry ∈ entries, Text.OneLine entry.1 ∧ entry.2.OneLine) :
    OneLine (OrderedMap.ofEntries entries) :=
  fun entry hentry => h entry (OrderedMap.mem_of_mem_ofEntries hentry)

end Options

/-! ## What is read from one line -/

/-- Whether all values that a literal can stand for are on one line. -/
def Literal.OneLine (literal : Literal) : Prop := ∀ filter, (literal.value filter).OneLine

namespace Literal

/-- A token is on one line, since there is no white space in it. -/
theorem oneLine_ofToken (marked : Bool) {token : List Char} (h : IsToken token) :
    (ofToken marked token).OneLine := by
  have htoken : '\n' ∉ token := fun hmem => absurd (h.2 _ hmem) (by decide)
  intro filter
  unfold ofToken
  split
  · trivial
  split
  · next hnumeral =>
    rw [Bool.and_eq_true] at hnumeral
    refine oneLine_ofList.mpr fun hmem => ?_
    exact absurd ((Numeral.isCanonical_normalize hnumeral.2).mem hmem) (by decide)
  · exact oneLine_ofList.mpr htoken

theorem oneLine_of_scalar? {cs rest : List Char} {l : Literal} (hcs : '\n' ∉ cs)
    (h : scalar? cs = some (l, rest)) : l.OneLine := by
  obtain ⟨taken, rfl, hspells⟩ := spells_of_scalar? 0 h
  have htaken : '\n' ∉ taken := fun hmem => hcs (List.mem_append_left _ hmem)
  cases hspells with
  | quoted hq h =>
    refine fun filter => oneLine_ofList.mpr fun hmem => htaken ?_
    exact List.mem_cons_of_mem _ (List.mem_append_left _ hmem)
  | callable hblanks hbody => exact fun filter => oneLine_ofList.mpr htaken
  | token htoken _ _ _ => exact oneLine_ofToken false htoken
  | marked htoken _ => exact oneLine_ofToken true htoken

/-- A key is a piece of the text that it is read from. -/
theorem SpellsKey.subset {taken : List Char} {next : Option Char} {key : List Char}
    (h : SpellsKey taken next key) : key ⊆ taken := by
  cases h with
  | quoted => exact fun c hc => List.mem_cons_of_mem _ (List.mem_append_left _ hc)
  | symbol => exact fun c hc => List.mem_cons_of_mem _ (List.mem_append_left _ hc)
  | label => exact fun c hc => List.mem_append_left _ hc

section Nested

variable {reader : Reader Literal}
  (hreader : ∀ cs l rest, reader.run cs = some (l, rest) → '\n' ∉ cs → l.OneLine)
  {cs : List Char} (hcs : '\n' ∉ cs)

include hreader hcs

theorem oneLine_items (filter : ArrayFilter) :
    ∀ value ∈ itemValues filter (itemsWith reader cs).items, value.OneLine := by
  have hall : ∀ item ∈ (itemsWith reader cs).items, item.OneLine :=
    Reader.forall_mem_listing_of_suffix itemCut fun ds l rest hds hrun =>
      hreader ds l rest hrun fun hmem => hcs (hds.subset hmem)
  rw [itemValues_eq_filter]
  intro value hvalue
  obtain ⟨item, hitem, rfl⟩ := List.mem_map.mp (List.mem_filter.mp hvalue).1
  exact hall item hitem filter

theorem oneLine_entries (filter : ArrayFilter) :
    Options.OneLine (OrderedMap.ofEntries (entryValues filter (entriesWith reader cs).items)) := by
  have hall : ∀ entry ∈ (entriesWith reader cs).items,
      Text.OneLine entry.1 ∧ entry.2.OneLine := by
    refine Reader.forall_mem_listing_of_suffix entryCut fun ds entry rest hds hrun => ?_
    obtain ⟨key, behind, hkey, hname, hvalue⟩ := entryReader_eq_some_iff.mp hrun
    obtain ⟨taken, rfl, hspells, -⟩ := key?_eq_some_iff.mp hkey
    rw [hname, oneLine_ofList]
    constructor
    · exact fun hmem => hcs (hds.subset (List.mem_append_left _ (hspells.subset hmem)))
    · exact hreader behind entry.2 rest hvalue fun hmem =>
        hcs (hds.subset (List.mem_append_right _ hmem))
  refine Options.oneLine_ofEntries ?_
  rw [entryValues_eq_map, List.forall_mem_map]
  exact fun entry hentry => ⟨(hall entry hentry).1, (hall entry hentry).2 filter⟩

end Nested

theorem oneLine_of_read? {room : Nat} (cs : List Char) (l : Literal) (rest : List Char)
    (h : (reader room).run cs = some (l, rest)) (hcs : '\n' ∉ cs) : l.OneLine := by
  revert hcs
  refine read?_induction (motive := fun _ cs l _ => '\n' ∉ cs → l.OneLine) ?_ ?_ ?_ room cs l rest h
  · exact fun _ _ _ _ hscalar hcs => oneLine_of_scalar? hcs hscalar
  · intro room cs group hgroup hmembers hcs
    have hinner : '\n' ∉ group.inner := by
      rw [Group.eq_text_append hgroup] at hcs
      exact fun hmem => hcs (by simp [Group.text, hmem])
    intro filter
    unfold ofGroup
    cases group.bracket with
    | square => exact Value.oneLine_array.mpr (oneLine_items hmembers hinner filter)
    | curly => exact Value.oneLine_hash.mpr (oneLine_entries hmembers hinner filter)
  · exact fun _ _ _ _ hread hcs => hread fun hmem => hcs ((trimStart_suffix _).subset hmem)

end Literal

/-- What is read as an option map from one line is on one line. -/
theorem oneLine_parseOptions (settings : Settings) {text : String} (h : Text.OneLine text) :
    (parseOptions settings text).OneLine := by
  refine Literal.oneLine_entries Literal.oneLine_of_read? (fun hmem => h ?_) settings.arrayFilter
  exact mem_of_mem_trim (mem_of_mem_stripOuter hmem)

end RailsSchema
