/-!
# Maps in order of insertion

A map with text keys is the list of its entries in the order in which the keys first came in. A
second value for a key replaces the first where that stands, and a removed key leaves the order of
the others as it was. The keys of a map built by these operations are distinct:
`nodup_keys_insert`, `nodup_keys_erase` and `nodup_keys_ofEntries` say so, and `get?_insert` says
what is found under a key after an insertion.
-/

namespace RailsSchema

/-- The entries of a map, in order of insertion. -/
abbrev OrderedMap (α : Type) := List (String × α)

namespace OrderedMap

variable {α : Type}

/-- The keys, in order. -/
def keys (m : OrderedMap α) : List String := m.map (·.1)

/-- The value under a key. -/
def get? : OrderedMap α → String → Option α
  | [], _ => none
  | (k, v) :: m, key => if k = key then some v else get? m key

/-- Whether a key is present. -/
def contains (m : OrderedMap α) (key : String) : Bool := (get? m key).isSome

/-- Sets the value under a key: in its place if it is present, at the end if it is new. -/
def insert : OrderedMap α → String → α → OrderedMap α
  | [], key, value => [(key, value)]
  | (k, v) :: m, key, value =>
    if k = key then (key, value) :: m else (k, v) :: insert m key value

/-- Removes a key. -/
def erase (m : OrderedMap α) (key : String) : OrderedMap α := m.filter (·.1 ≠ key)

/-- Inserts a list of entries one after the other. -/
def insertAll (m : OrderedMap α) (entries : List (String × α)) : OrderedMap α :=
  entries.foldl (fun m entry => insert m entry.1 entry.2) m

/-- The map of a list of entries, the last entry for a key being the one that counts. -/
def ofEntries (entries : List (String × α)) : OrderedMap α := insertAll [] entries

/-- Changes the value under a key. -/
def modify (m : OrderedMap α) (key : String) (f : α → α) : OrderedMap α :=
  m.map fun entry => if entry.1 = key then (entry.1, f entry.2) else entry

@[simp] theorem get?_nil (key : String) : get? ([] : OrderedMap α) key = none := rfl

theorem mem_keys_insert {m : OrderedMap α} {key k : String} {value : α} :
    k ∈ keys (insert m key value) ↔ k = key ∨ k ∈ keys m := by
  induction m with
  | nil => simp [insert, keys]
  | cons e m ih =>
    simp only [insert]
    split
    · next h => simp [keys, h]
    · simp only [keys, List.map_cons, List.mem_cons] at ih ⊢
      rw [ih]
      exact or_left_comm

/-- Inserting keeps the keys distinct. -/
theorem nodup_keys_insert {m : OrderedMap α} (h : (keys m).Nodup) (key : String) (value : α) :
    (keys (insert m key value)).Nodup := by
  induction m with
  | nil => simp [insert, keys]
  | cons e m ih =>
    simp only [keys, List.map_cons, List.nodup_cons] at h
    simp only [insert]
    split
    · next hk => subst hk; simpa [keys] using h
    · next hk =>
      simp only [keys, List.map_cons, List.nodup_cons]
      refine ⟨fun hm => ?_, ih h.2⟩
      rcases mem_keys_insert.mp hm with h1 | h1
      · exact hk h1
      · exact h.1 h1

theorem nodup_keys_insertAll {m : OrderedMap α} (h : (keys m).Nodup)
    (entries : List (String × α)) : (keys (insertAll m entries)).Nodup := by
  induction entries generalizing m with
  | nil => exact h
  | cons e entries ih => exact ih (nodup_keys_insert h e.1 e.2)

theorem nodup_keys_ofEntries (entries : List (String × α)) : (keys (ofEntries entries)).Nodup :=
  nodup_keys_insertAll (by simp [keys]) entries

/-- Removing a key keeps the keys distinct. -/
theorem nodup_keys_erase {m : OrderedMap α} (h : (keys m).Nodup) (key : String) :
    (keys (erase m key)).Nodup :=
  h.sublist (List.filter_sublist.map _)

/-- Changing a value leaves all keys where they are. -/
@[simp] theorem keys_modify (m : OrderedMap α) (key : String) (f : α → α) :
    keys (modify m key f) = keys m := by
  simp only [keys, modify, List.map_map]
  refine List.map_congr_left fun entry _ => ?_
  simp only [Function.comp]
  split <;> rfl

theorem get?_insert {m : OrderedMap α} {key k : String} {value : α} :
    get? (insert m key value) k = if key = k then some value else get? m k := by
  induction m with
  | nil => simp [insert, get?]
  | cons e m ih =>
    simp only [insert]
    split
    · next h => simp only [get?]; split <;> simp_all
    · next h => simp only [get?, ih]; split <;> split <;> simp_all

theorem contains_iff_mem_keys {m : OrderedMap α} {key : String} :
    contains m key = true ↔ key ∈ keys m := by
  induction m with
  | nil => simp [contains, keys]
  | cons e m ih =>
    simp only [contains, keys, get?, List.map_cons, List.mem_cons] at ih ⊢
    split
    · next h => simp [h]
    · next h => simp [ih, Ne.symm h]

end OrderedMap

end RailsSchema
