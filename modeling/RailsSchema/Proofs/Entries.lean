import RailsSchema.OrderedMap
import Mathlib.Data.List.Induction

/-!
# Maps and lists of entries

What a map made from a list of entries holds: only entries of the list
(`OrderedMap.mem_of_mem_ofEntries`), and if the keys of the list are distinct, just the list
(`OrderedMap.ofEntries_of_nodup`). Two lists behind one another make the map of the first merged
with the map of the second (`OrderedMap.ofEntries_append`). Its keys are those of the list, each
where it first comes (`OrderedMap.keys_ofEntries`), and the last entry for a key is the one that is
found (`OrderedMap.get?_ofEntries`). Values can be changed before or after the map is made
(`OrderedMap.ofEntries_map`).
-/

namespace RailsSchema

variable {α : Type}

theorem map_eq_self {f : α → α} {l : List α} (h : ∀ a ∈ l, f a = a) : l.map f = l := by
  have hid : ∀ a ∈ l, f a = id a := h
  rw [List.map_congr_left hid, List.map_id]

namespace OrderedMap

theorem insert_of_not_mem {m : OrderedMap α} {key : String} (h : key ∉ keys m) (value : α) :
    insert m key value = m ++ [(key, value)] := by
  induction m with
  | nil => rfl
  | cons entry m ih =>
    simp only [keys, List.map_cons, List.mem_cons, not_or] at h
    rw [insert, if_neg (Ne.symm h.1), ih h.2, List.cons_append]

theorem insertAll_of_nodup {m entries : OrderedMap α} (h : (keys (m ++ entries)).Nodup) :
    insertAll m entries = m ++ entries := by
  induction entries generalizing m with
  | nil => exact (List.append_nil m).symm
  | cons entry entries ih =>
    have hnew : entry.1 ∉ keys m := by
      intro hmem
      simp only [keys, List.map_append, List.map_cons] at h hmem
      exact (List.nodup_append.mp h).2.2 entry.1 hmem entry.1 List.mem_cons_self rfl
    have hsplit : m ++ entry :: entries = (m ++ [entry]) ++ entries := by simp
    rw [hsplit] at h
    change insertAll (insert m entry.1 entry.2) entries = _
    rw [insert_of_not_mem hnew, ih h, hsplit]

/-- Entries with distinct keys are the map that they make. -/
theorem ofEntries_of_nodup {entries : OrderedMap α} (h : (keys entries).Nodup) :
    ofEntries entries = entries := insertAll_of_nodup h

theorem mem_of_mem_insert {m : OrderedMap α} {key : String} {value : α} {entry : String × α}
    (h : entry ∈ insert m key value) : entry = (key, value) ∨ entry ∈ m := by
  induction m with
  | nil => exact Or.inl (List.mem_singleton.mp h)
  | cons first m ih =>
    simp only [insert] at h
    split at h
    · rcases List.mem_cons.mp h with h | h
      · exact Or.inl h
      · exact Or.inr (List.mem_cons_of_mem first h)
    · rcases List.mem_cons.mp h with rfl | h
      · exact Or.inr List.mem_cons_self
      · rcases ih h with h | h
        · exact Or.inl h
        · exact Or.inr (List.mem_cons_of_mem first h)

theorem mem_of_mem_insertAll {m : OrderedMap α} {entries : List (String × α)}
    {entry : String × α} (h : entry ∈ insertAll m entries) : entry ∈ entries ∨ entry ∈ m := by
  induction entries generalizing m with
  | nil => exact Or.inr h
  | cons first entries ih =>
    rcases ih h with h | h
    · exact Or.inl (List.mem_cons_of_mem first h)
    · rcases mem_of_mem_insert h with rfl | h
      · exact Or.inl List.mem_cons_self
      · exact Or.inr h

/-- The entries of a map are among those that it was made from. -/
theorem mem_of_mem_ofEntries {entries : List (String × α)} {entry : String × α}
    (h : entry ∈ ofEntries entries) : entry ∈ entries := by
  rcases mem_of_mem_insertAll h with h | h
  · exact h
  · cases h

/-! ## Merging -/

/-- The entries of the first map with the values that the second has for their keys, if it has any,
and then the entries of the second with new keys. -/
def merge (first second : OrderedMap α) : OrderedMap α :=
  first.map (fun entry => (entry.1, (get? second entry.1).getD entry.2)) ++
    second.filter fun entry => entry.1 ∉ keys first

theorem insert_append (m more : OrderedMap α) (key : String) (value : α) :
    insert (m ++ more) key value =
      if key ∈ keys m then insert m key value ++ more else m ++ insert more key value := by
  induction m with
  | nil => rfl
  | cons entry m ih =>
    rw [List.cons_append, insert, insert]
    by_cases hkey : entry.1 = key
    · simp [keys, hkey]
    · have hmem : key ∈ keys (entry :: m) ↔ key ∈ keys m := by simp [keys, Ne.symm hkey]
      simp only [if_neg hkey, ih, hmem]
      split <;> rfl

theorem insert_of_mem {m : OrderedMap α} (hnodup : (keys m).Nodup) {key : String}
    (h : key ∈ keys m) (value : α) :
    insert m key value = m.map fun entry => if key = entry.1 then (entry.1, value) else entry := by
  induction m with
  | nil => cases h
  | cons entry m ih =>
    obtain ⟨hnew, hnodup⟩ := List.nodup_cons.mp hnodup
    rw [insert, List.map_cons]
    by_cases hkey : entry.1 = key
    · have hothers : ∀ other ∈ m, (if key = other.1 then (other.1, value) else other) = other := by
        intro other hother
        refine if_neg fun heq => hnew ?_
        show entry.1 ∈ keys m
        rw [hkey, heq]
        exact List.mem_map_of_mem hother
      rw [if_pos hkey, if_pos hkey.symm, map_eq_self hothers, hkey]
    · have hlater : key ∈ keys m := (List.mem_cons.mp h).resolve_left (Ne.symm hkey)
      rw [if_neg hkey, if_neg (Ne.symm hkey), ih hnodup hlater]

theorem filter_insert (p : String → Bool) (m : OrderedMap α) (key : String) (value : α) :
    (insert m key value).filter (fun entry => p entry.1) =
      if p key then insert (m.filter fun entry => p entry.1) key value
      else m.filter fun entry => p entry.1 := by
  induction m with
  | nil => cases h : p key <;> simp [insert, h]
  | cons entry m ih =>
    by_cases hkey : entry.1 = key
    · cases h : p key <;> simp [insert, hkey, h]
    · rw [insert, if_neg hkey, List.filter_cons, List.filter_cons, ih]
      cases hentry : p entry.1 <;> cases h : p key <;> simp [insert, hkey]

theorem merge_insert {first : OrderedMap α} (hnodup : (keys first).Nodup) (second : OrderedMap α)
    (key : String) (value : α) :
    merge first (insert second key value) = insert (merge first second) key value := by
  let found (entry : String × α) : String × α := (entry.1, (get? second entry.1).getD entry.2)
  have hkeys : keys (first.map found) = keys first := by simp [keys, found, Function.comp_def]
  have hfirst : (first.map fun entry =>
        (entry.1, (get? (insert second key value) entry.1).getD entry.2)) =
      (first.map found).map fun entry => if key = entry.1 then (entry.1, value) else entry := by
    rw [List.map_map]
    refine List.map_congr_left fun entry _ => ?_
    simp only [Function.comp, get?_insert, found]
    split <;> rfl
  have hsecond := filter_insert (fun k => decide (k ∉ keys first)) second key value
  show (first.map _) ++ (insert second key value).filter _ = insert (first.map found ++ _) key value
  rw [hfirst, hsecond, insert_append, hkeys]
  by_cases hmem : key ∈ keys first
  · rw [if_pos hmem, if_neg (by simpa using hmem),
      insert_of_mem (hkeys.symm ▸ hnodup) (hkeys.symm ▸ hmem)]
  · have hsame : ∀ entry ∈ first.map found,
        (if key = entry.1 then (entry.1, value) else entry) = entry := by
      intro entry hentry
      refine if_neg fun heq => hmem ?_
      rw [heq, ← hkeys]
      exact List.mem_map_of_mem hentry
    rw [if_neg hmem, if_pos (by simpa using hmem), map_eq_self hsame]

theorem insertAll_eq_merge {m : OrderedMap α} (hnodup : (keys m).Nodup)
    (entries : List (String × α)) : insertAll m entries = merge m (ofEntries entries) := by
  induction entries using List.reverseRecOn with
  | nil => simp [insertAll, ofEntries, merge]
  | append_singleton entries entry ih =>
    have hlast : ∀ m : OrderedMap α,
        insertAll m (entries ++ [entry]) = insert (insertAll m entries) entry.1 entry.2 := by
      intro m
      simp [insertAll]
    rw [ofEntries, hlast, hlast, ih, ← merge_insert hnodup]
    rfl

/-- The map of two lists behind one another is the map of the first merged with that of the
second. -/
theorem ofEntries_append (entries more : List (String × α)) :
    ofEntries (entries ++ more) = merge (ofEntries entries) (ofEntries more) := by
  rw [← insertAll_eq_merge (nodup_keys_ofEntries entries)]
  exact List.foldl_append ..

/-- Setting the entries of a map is setting all the entries it was made of. -/
theorem ofEntries_append_eq_insertAll (entries more : List (String × α)) :
    ofEntries (entries ++ more) = insertAll (ofEntries entries) (ofEntries more) := by
  rw [ofEntries_append, insertAll_eq_merge (nodup_keys_ofEntries entries),
    ofEntries_of_nodup (nodup_keys_ofEntries more)]

/-! ## Keys and values -/

theorem ofEntries_concat (entries : List (String × α)) (entry : String × α) :
    ofEntries (entries ++ [entry]) = insert (ofEntries entries) entry.1 entry.2 := by
  simp [ofEntries, insertAll]

theorem keys_insert (m : OrderedMap α) (key : String) (value : α) :
    keys (insert m key value) = if key ∈ keys m then keys m else keys m ++ [key] := by
  induction m with
  | nil => rfl
  | cons entry m ih =>
    by_cases hkey : entry.1 = key
    · simp [insert, keys, hkey]
    · have hmem : key ∈ keys (entry :: m) ↔ key ∈ keys m := by simp [keys, Ne.symm hkey]
      simp only [insert, if_neg hkey, hmem]
      show entry.1 :: keys (insert m key value) = _
      rw [ih]
      split <;> rfl

/-- The keys of a map are those of the entries that it was made from, without repetitions. -/
theorem keys_ofEntries (entries : List (String × α)) :
    keys (ofEntries entries) = (entries.map (·.1)).eraseDups := by
  induction entries using List.reverseRecOn with
  | nil => rfl
  | append_singleton entries entry ih =>
    rw [ofEntries_concat, keys_insert, ih, List.map_append, List.eraseDups_append]
    by_cases hmem : entry.1 ∈ entries.map (·.1)
    · rw [if_pos (List.mem_eraseDups.mpr hmem)]
      simp [List.removeAll, hmem]
    · rw [if_neg (fun h => hmem (List.mem_eraseDups.mp h))]
      simp [List.removeAll, hmem, List.eraseDups_cons]

/-- What a map has under a key is what the last of the entries for that key has. -/
theorem get?_ofEntries (entries : List (String × α)) (key : String) :
    get? (ofEntries entries) key =
      ((entries.filter (·.1 == key)).getLast?).map (·.2) := by
  induction entries using List.reverseRecOn with
  | nil => rfl
  | append_singleton entries entry ih =>
    rw [ofEntries_concat, get?_insert, ih, List.filter_append]
    by_cases hkey : entry.1 = key <;> simp [hkey]

theorem get?_ofEntries_append (entries more : List (String × α)) (key : String) :
    get? (ofEntries (entries ++ more)) key =
      (get? (ofEntries more) key).or (get? (ofEntries entries) key) := by
  simp only [get?_ofEntries, List.filter_append, List.getLast?_append, Option.map_or]

theorem get?_map {β : Type} (f : α → β) (m : OrderedMap α) (key : String) :
    get? (m.map fun entry => (entry.1, f entry.2)) key = (get? m key).map f := by
  induction m with
  | nil => rfl
  | cons entry m ih =>
    simp only [List.map_cons, get?, ih]
    split <;> rfl

theorem insert_map {β : Type} (f : α → β) (m : OrderedMap α) (key : String) (value : α) :
    insert (m.map fun entry => (entry.1, f entry.2)) key (f value) =
      (insert m key value).map fun entry => (entry.1, f entry.2) := by
  induction m with
  | nil => rfl
  | cons entry m ih =>
    simp only [List.map_cons, insert, ih]
    split <;> rfl

/-- Changing the values of all entries changes those of their map, and leaves the keys in place. -/
theorem ofEntries_map {β : Type} (f : α → β) (entries : List (String × α)) :
    ofEntries (entries.map fun entry => (entry.1, f entry.2)) =
      (ofEntries entries).map fun entry => (entry.1, f entry.2) := by
  induction entries using List.reverseRecOn with
  | nil => rfl
  | append_singleton entries entry ih =>
    rw [List.map_append, List.map_singleton, ofEntries_concat, ofEntries_concat, ih, insert_map]

theorem get?_eq_some_of_mem {m : OrderedMap α} (hnodup : (keys m).Nodup) {key : String} {value : α}
    (h : (key, value) ∈ m) : get? m key = some value := by
  induction m with
  | nil => cases h
  | cons entry m ih =>
    obtain ⟨hnew, hnodup⟩ := List.nodup_cons.mp hnodup
    rcases List.mem_cons.mp h with rfl | hlater
    · exact if_pos rfl
    · have hne : entry.1 ≠ key := by
        intro hkey
        refine hnew ?_
        show entry.1 ∈ keys m
        rw [hkey]
        exact List.mem_map_of_mem hlater
      rw [get?, if_neg hne, ih hnodup hlater]

theorem get?_eq_none_iff {m : OrderedMap α} {key : String} :
    get? m key = none ↔ key ∉ keys m := by
  rw [← contains_iff_mem_keys, contains, Bool.not_eq_true, Option.isSome_eq_false_iff,
    Option.isNone_iff_eq_none]

end OrderedMap

end RailsSchema
