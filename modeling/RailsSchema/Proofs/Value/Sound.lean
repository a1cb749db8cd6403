import RailsSchema.Proofs.Entries
import RailsSchema.Proofs.Value.Numeral

/-!
# Sound values

What can be told of every value that was read from a text: no map in it has a key twice, its
numerals have a digit before the point, its symbols have a name, and its lists and maps are nested
no deeper than the settings allow. `Value.Sound depth` says so of a value and `Options.Sound depth`
of an option map; what is done with option maps keeps them sound (`Options.Sound.insert`,
`Options.Sound.erase`, `Options.sound_ofEntries`).
-/

namespace RailsSchema

/-- Whether a value is in order, whatever its members are. -/
def Value.InOrder : Value → Prop
  | .hash entries => (OrderedMap.keys entries).Nodup
  | .numeric text => Numeral.IsCanonical text.toList
  | .symbol name => name ≠ ""
  | _ => True

/-- Whether a value and all values inside it are in order, nested at most `depth` deep. -/
structure Value.Sound (depth : Nat) (value : Value) : Prop where
  inOrder : value.Each InOrder
  depth_le : value.depth ≤ depth

/-- Whether the keys of an option map are distinct and its values are sound. -/
structure Options.Sound (depth : Nat) (options : Options) : Prop where
  nodup : (OrderedMap.keys options).Nodup
  value : ∀ entry ∈ options, entry.2.Sound depth

namespace OrderedMap

variable {α : Type}

theorem mem_keys_erase {m : OrderedMap α} {key k : String} :
    k ∈ keys (erase m key) ↔ k ≠ key ∧ k ∈ keys m := by
  simp only [keys, erase, List.mem_map, List.mem_filter, decide_eq_true_eq]
  constructor
  · rintro ⟨entry, ⟨hmem, hne⟩, rfl⟩
    exact ⟨hne, entry, hmem, rfl⟩
  · rintro ⟨hne, entry, hmem, rfl⟩
    exact ⟨entry, ⟨hmem, hne⟩, rfl⟩

theorem mem_of_get? {m : OrderedMap α} {key : String} {value : α} (h : get? m key = some value) :
    (key, value) ∈ m := by
  induction m with
  | nil => cases h
  | cons entry m ih =>
    simp only [get?] at h
    split at h
    · next hkey =>
      cases h
      rw [← hkey]
      exact List.mem_cons_self
    · exact List.mem_cons_of_mem entry (ih h)

end OrderedMap

variable {depth : Nat}

namespace Value

theorem Sound.mono {value : Value} {depth' : Nat} (h : value.Sound depth) (hle : depth ≤ depth') :
    value.Sound depth' := ⟨h.inOrder, Nat.le_trans h.depth_le hle⟩

theorem sound_array {items : List Value} (h : ∀ item ∈ items, item.Sound depth) :
    (array items).Sound (depth + 1) where
  inOrder := ⟨trivial, eachItem_iff.mpr fun item hitem => (h item hitem).inOrder⟩
  depth_le := Nat.succ_le_succ (itemDepth_le_iff.mpr fun item hitem => (h item hitem).depth_le)

theorem sound_hash {options : Options} (h : options.Sound depth) :
    (hash options).Sound (depth + 1) where
  inOrder := ⟨h.nodup, eachEntry_iff.mpr fun entry hentry => (h.value entry hentry).inOrder⟩
  depth_le := Nat.succ_le_succ (entryDepth_le_iff.mpr fun entry hentry =>
    (h.value entry hentry).depth_le)

/-- The entries of a sound map are sound, even a level less deep than the map. -/
theorem Sound.entries? {value : Value} {options : Options} (h : value.Sound depth)
    (hentries : value.entries? = some options) : options.Sound depth := by
  cases value with
  | hash entries =>
    cases hentries
    refine ⟨h.inOrder.1, fun entry hentry => ⟨eachEntry_iff.mp h.inOrder.2 entry hentry, ?_⟩⟩
    have hdepth : entryDepth options + 1 ≤ depth := h.depth_le
    have hentry := entryDepth_le_iff.mp (Nat.le_refl (entryDepth options)) entry hentry
    omega
  | _ => cases hentries

end Value

namespace Options

theorem sound_nil : Options.Sound depth [] := ⟨by simp [OrderedMap.keys], by simp⟩

theorem Sound.insert {options : Options} (h : options.Sound depth) (key : String) {value : Value}
    (hvalue : value.Sound depth) : Options.Sound depth (OrderedMap.insert options key value) := by
  refine ⟨OrderedMap.nodup_keys_insert h.nodup key value, fun entry hentry => ?_⟩
  rcases OrderedMap.mem_of_mem_insert hentry with rfl | hentry
  · exact hvalue
  · exact h.value entry hentry

theorem Sound.erase {options : Options} (h : options.Sound depth) (key : String) :
    Options.Sound depth (OrderedMap.erase options key) := by
  refine ⟨OrderedMap.nodup_keys_erase h.nodup key, fun entry hentry => ?_⟩
  exact h.value entry (List.mem_filter.mp hentry).1

theorem Sound.get? {options : Options} (h : options.Sound depth) {key : String} {value : Value}
    (hvalue : OrderedMap.get? options key = some value) : value.Sound depth :=
  h.value _ (OrderedMap.mem_of_get? hvalue)

theorem sound_ofEntries {entries : List (String × Value)}
    (h : ∀ entry ∈ entries, entry.2.Sound depth) :
    Options.Sound depth (OrderedMap.ofEntries entries) := by
  refine ⟨OrderedMap.nodup_keys_ofEntries entries, fun entry hentry => ?_⟩
  exact h entry (OrderedMap.mem_of_mem_ofEntries hentry)

end Options

end RailsSchema
