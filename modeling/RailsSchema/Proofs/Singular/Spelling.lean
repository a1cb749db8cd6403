import RailsSchema.Proofs.Singular.Rules
import RailsSchema.Definition.ForeignKey

/-!
# Singulars, letter case and segments

The rules of singulars look at a word in small letters, cut the word as it is spelled, and take
letters from tables that have small ones. That all this comes to the same whatever the case of the
word, and that only the last segment of a name is touched, is proved here.

* `Parts`, `exists_parts`: a name is segments, of which the last is brought into the singular, or
  ends in an underscore and is one word;
* `toList_singular`, `parts_singular`: the singular in these parts;
* `not_mem_singularWord`: a singular has no new characters but letters;
* `singularWord_map`: letters can be changed into small or capital ones before or after;
* `singular_spelling`: case, segments and the default column of a foreign key.
-/

namespace RailsSchema

open Text

/-- Whether a text has ASCII characters only. -/
def Text.IsAscii (cs : List Char) : Prop := ∀ c ∈ cs, c.toNat < 0x80

namespace English

/-! ## Segments -/

/-- The part of a name that is brought into the singular: its last segment, or all of a name that
ends in an underscore. -/
def inflected (name : String) : List Char :=
  let last := lastSegment name.toList
  if last.isEmpty then name.toList else last

/-- What stands in a name before the part that is brought into the singular. -/
def leading (name : String) : List Char := upTo name.toList (inflected name)

theorem singular_eq_ofList (name : String) :
    singular name = String.ofList (leading name ++ singularWord (inflected name)) := rfl

theorem lastSegment_append {front last : List Char} (hlast : '_' ∉ last)
    (hfront : front = [] ∨ front.getLast? = some '_') : lastSegment (front ++ last) = last := by
  have hrun : ∀ c ∈ last.reverse, (c != '_') = true := by
    intro c hc
    rw [bne_iff_ne]
    rintro rfl
    exact hlast (List.mem_reverse.mp hc)
  have hstop : Stops (· != '_') front.reverse := by
    intro c hc
    rw [List.head?_reverse] at hc
    rcases hfront with rfl | hfront
    · cases hc
    · rw [hfront] at hc
      cases hc
      rfl
  rw [lastSegment, List.reverse_append, takeWhile_append_of_stops hrun hstop, List.reverse_reverse]

theorem exists_front (cs : List Char) :
    ∃ front, cs = front ++ lastSegment cs ∧ '_' ∉ lastSegment cs ∧
      (front = [] ∨ front.getLast? = some '_') := by
  refine ⟨(cs.reverse.dropWhile (· != '_')).reverse, ?_, ?_, ?_⟩
  · rw [lastSegment, ← List.reverse_append, List.takeWhile_append_dropWhile, List.reverse_reverse]
  · intro hmem
    simpa using List.mem_takeWhile_imp (List.mem_reverse.mp hmem)
  · rw [List.reverse_eq_nil_iff, List.getLast?_reverse]
    have hstop := stops_dropWhile (· != '_') cs.reverse
    cases hdrop : cs.reverse.dropWhile (· != '_') with
    | nil => exact .inl rfl
    | cons c others =>
      rw [hdrop, stops_cons] at hstop
      exact .inr (by simpa using hstop)

/-- The two shapes of a name: segments, the last of which is not empty, or a name with nothing
behind its last underscore. -/
inductive Parts : (name : List Char) → (front word : List Char) → Prop where
  | segment {front last : List Char} (hfront : front = [] ∨ front.getLast? = some '_')
      (hne : last ≠ []) (hlast : '_' ∉ last) : Parts (front ++ last) front last
  | whole {name : List Char} (hname : name = [] ∨ name.getLast? = some '_') : Parts name [] name

theorem Parts.eq {name : String} {front word : List Char} (h : Parts name.toList front word) :
    leading name = front ∧ inflected name = word := by
  unfold leading inflected
  generalize name.toList = cs at h
  cases h with
  | @segment front last hfront hne hlast =>
    rw [lastSegment_append hlast hfront, if_neg (by simpa using hne), upTo_append]
    exact ⟨rfl, rfl⟩
  | whole hname =>
    have hnil : lastSegment word = [] := by
      simpa using lastSegment_append List.not_mem_nil hname
    simp only [hnil, List.isEmpty_nil, if_true]
    exact ⟨upTo_append [] word, trivial⟩

theorem exists_parts (cs : List Char) : ∃ front word, Parts cs front word := by
  obtain ⟨front, hcs, hlast, hfront⟩ := exists_front cs
  cases hsegment : lastSegment cs with
  | nil =>
    rw [hsegment, List.append_nil] at hcs
    exact ⟨[], cs, .whole (hcs ▸ hfront)⟩
  | cons c others =>
    rw [hcs]
    exact ⟨front, _, .segment hfront (by rw [hsegment]; exact List.cons_ne_nil c others) hlast⟩

theorem parts_of (name : String) : Parts name.toList (leading name) (inflected name) := by
  obtain ⟨front, word, h⟩ := exists_parts name.toList
  obtain ⟨rfl, rfl⟩ := h.eq
  exact h

theorem Parts.append_eq {cs front word : List Char} (h : Parts cs front word) :
    front ++ word = cs := by
  cases h with
  | segment => rfl
  | whole => rfl

/-! ## What a singular is made of -/

/-- What changes letters only, and into letters, makes no other character and takes none away. -/
theorem eq_iff_of_not_alpha {f : Char → Char} (hletter : ∀ c : Char, (f c).isAlpha = c.isAlpha)
    (hother : ∀ c : Char, c.isAlpha = false → f c = c) {d : Char} (hd : d.isAlpha = false)
    (c : Char) : f c = d ↔ c = d := by
  constructor
  · intro h
    have hc := hletter c
    rw [h, hd] at hc
    rw [← hother c hc.symm, h]
  · rintro rfl
    exact hother c hd

theorem toLower_eq_iff {d : Char} (hd : d.isAlpha = false) (c : Char) :
    c.toLower = d ↔ c = d := by
  refine eq_iff_of_not_alpha Char.isAlpha_toLower_eq_isAlpha (fun c hc => ?_) hd c
  apply Char.toLower_eq_of_not_isUpper
  intro hupper
  simp [Char.isAlpha, hupper] at hc

theorem toUpper_eq_iff {d : Char} (hd : d.isAlpha = false) (c : Char) :
    c.toUpper = d ↔ c = d := by
  refine eq_iff_of_not_alpha Char.isAlpha_toUpper_eq_isAlpha (fun c hc => ?_) hd c
  apply Char.toUpper_eq_of_not_isLower
  intro hlower
  simp [Char.isAlpha, hlower] at hc

theorem mem_map_toLower_iff {d : Char} (hd : d.isAlpha = false) {cs : List Char} :
    d ∈ cs.map Char.toLower ↔ d ∈ cs := by
  simp only [List.mem_map, toLower_eq_iff hd, exists_eq_right]

/-- Case aside, a singular is made of characters of the word and of letters. -/
theorem mem_singularWord {word : List Char} {c : Char} (h : c ∈ (singularWord word).map Char.toLower) :
    c ∈ word.map Char.toLower ∨ c.isAlpha = true := by
  have hirregular : ∀ entry ∈ irregular, entry.2.toList.all Char.isAlpha = true := by decide
  have hendings : ∀ ending ∈ endings, ending.2.toList.all Char.isAlpha = true := by decide
  have hformed := formed_singularWord word
  generalize singularWord word = single at h hformed
  cases hformed with
  | kept => exact .inl h
  | irregular hmem =>
    rw [map_withCaseOf Char.toLower_toUpper_eq_toLower] at h
    obtain ⟨d, hd, rfl⟩ := List.mem_map.mp h
    exact .inr (by rw [Char.isAlpha_toLower_eq_isAlpha, List.all_eq_true.mp (hirregular _ hmem) d hd])
  | us _ _ hword =>
    rw [hword, List.map_append]
    exact .inl (List.mem_append_left _ h)
  | ending hfirst _ _ _ hword =>
    rw [map_withCaseOf Char.toLower_toUpper_eq_toLower, List.map_append] at h
    rcases List.mem_append.mp h with h | h
    · rw [hword, List.map_append]
      exact .inl (List.mem_append_left _ h)
    · obtain ⟨d, hd, rfl⟩ := List.mem_map.mp h
      have hletters := hendings _ (List.mem_of_find?_eq_some hfirst)
      exact .inr (by rw [Char.isAlpha_toLower_eq_isAlpha, List.all_eq_true.mp hletters d hd])

theorem length_withCaseOf (word text : List Char) : (withCaseOf word text).length = text.length := by
  have h := congrArg List.length (map_withCaseOf Char.toLower_toUpper_eq_toLower word text)
  rwa [List.length_map, List.length_map] at h

theorem singularWord_ne_nil {word : List Char} (h : word ≠ []) : singularWord word ≠ [] := by
  have hirregular : ∀ entry ∈ irregular, 0 < entry.2.toList.length := by decide
  have hformed := formed_singularWord word
  generalize singularWord word = single at hformed
  rw [← List.length_pos_iff]
  cases hformed with
  | kept => exact List.length_pos_iff.mpr h
  | irregular hmem =>
    rw [length_withCaseOf]
    exact hirregular _ hmem
  | us _ hne =>
    rw [List.length_append]
    exact Nat.add_pos_left (List.length_pos_iff.mpr hne) _
  | ending _ _ _ hne =>
    rw [length_withCaseOf, List.length_append]
    exact Nat.add_pos_left (List.length_pos_iff.mpr hne) _

/-- All in a singular that is no letter stands in the word. -/
theorem not_mem_singularWord {word : List Char} {d : Char} (hd : d.isAlpha = false)
    (h : d ∉ word) : d ∉ singularWord word := by
  rw [← mem_map_toLower_iff hd]
  intro hmem
  rcases mem_singularWord hmem with hmem | halpha
  · exact h ((mem_map_toLower_iff hd).mp hmem)
  · rw [hd] at halpha
    cases halpha

/-- A word that is no name of a thing, being empty or ending in an underscore, has no other
singular. -/
theorem singularWord_of_getLast? {word : List Char} (h : word = [] ∨ word.getLast? = some '_') :
    singularWord word = word := by
  have hlast : (word.map Char.toLower).getLast? = none ∨
      (word.map Char.toLower).getLast? = some '_' := by
    rcases h with rfl | h
    · exact .inl rfl
    · exact .inr (by rw [List.getLast?_map, h]; rfl)
  have hregular : ∀ entry ∈ irregular,
      entry.1.toList.getLast? ≠ none ∧ entry.1.toList.getLast? ≠ some '_' := by decide
  have hrule : Rule.of (word.map Char.toLower) = .keep := by
    refine Rule.of_of_not_s ?_ ?_
    · rcases hlast with hlast | hlast <;> rw [hlast] <;> decide
    · intro entry hmem heq
      rw [← heq] at hlast
      rcases hlast with hlast | hlast
      · exact (hregular entry hmem).1 hlast
      · exact (hregular entry hmem).2 hlast
  rw [singularWord_eq, hrule]
  rfl

/-- The parts of a singular are those of the name, the word being its singular. -/
theorem Parts.singular {cs front word : List Char} (h : Parts cs front word) :
    Parts (front ++ singularWord word) front (singularWord word) := by
  cases h with
  | segment hfront hne hlast =>
    exact .segment hfront (singularWord_ne_nil hne) (not_mem_singularWord (by decide) hlast)
  | whole hname =>
    rw [singularWord_of_getLast? hname]
    exact .whole hname

theorem toList_singular (name : String) :
    (singular name).toList = leading name ++ singularWord (inflected name) := by
  rw [singular_eq_ofList, String.toList_ofList]

theorem parts_singular (name : String) :
    leading (singular name) = leading name ∧
      inflected (singular name) = singularWord (inflected name) := by
  apply Parts.eq
  rw [toList_singular]
  exact (parts_of name).singular

/-! ## Letter case -/

theorem toNat_toLower_lt_iff {c : Char} : c.toLower.toNat < 0x80 ↔ c.toNat < 0x80 := by
  by_cases hupper : c.isUpper = true
  · have hhigh : c.toNat ≤ 90 := by
      simp only [Char.isUpper, decide_eq_true_eq, ge_iff_le, UInt32.le_iff_toNat_le] at hupper
      exact hupper.2
    have hvalid : (c.toNat + 32).isValidChar := by unfold Nat.isValidChar; omega
    rw [Char.toLower_eq_of_isUpper hupper, Char.toNat_ofNat, if_pos hvalid]
    omega
  · rw [Char.toLower_eq_of_not_isUpper hupper]

theorem isAscii_map_toLower_iff {cs : List Char} : IsAscii (cs.map Char.toLower) ↔ IsAscii cs := by
  unfold IsAscii
  simp only [List.forall_mem_map, toNat_toLower_lt_iff]

theorem isAscii_append {cs ds : List Char} : IsAscii (cs ++ ds) ↔ IsAscii cs ∧ IsAscii ds :=
  List.forall_mem_append

theorem toNat_toUpper_lt {c : Char} (h : c.toNat < 0x80) : c.toUpper.toNat < 0x80 := by
  rw [← toNat_toLower_lt_iff, Char.toLower_toUpper_eq_toLower, toNat_toLower_lt_iff]
  exact h

theorem isAlphabetic_of_ascii {c : Char} (h : c.toNat < 0x80) : isAlphabetic c = c.isAlpha := by
  simp [isAlphabetic, Nat.not_le.mpr h]

theorem isUppercase_toLower {c : Char} (h : c.toNat < 0x80) : isUppercase c.toLower = false := by
  simp [isUppercase, Nat.not_le.mpr (toNat_toLower_lt_iff.mpr h)]

variable {word : List Char}

/-- A word in small letters has no say. -/
theorem withCaseOf_map_toLower (hword : IsAscii word) (text : List Char) :
    withCaseOf (word.map Char.toLower) text = text := by
  cases word with
  | nil => rfl
  | cons first others =>
    have hfirst := isUppercase_toLower (hword first List.mem_cons_self)
    have hcapitals : inCapitals ((first :: others).map Char.toLower) = false := by
      rw [Bool.eq_false_iff]
      intro h
      obtain ⟨⟨d, hd, halpha⟩, hall⟩ := inCapitals_iff.mp h
      obtain ⟨c, hc, rfl⟩ := List.mem_map.mp hd
      have hupper := hall _ hd halpha
      rw [isUppercase_toLower (hword c hc)] at hupper
      cases hupper
    cases text with
    | nil => exact withCaseOf_nil_right _
    | cons c text =>
      rw [List.map_cons] at hcapitals ⊢
      rw [withCaseOf_cons hcapitals, hfirst, if_neg (by decide)]

/-- A word in capitals puts all letters into capitals. -/
theorem withCaseOf_map_toUpper (hword : IsAscii word) (hletter : ∃ c ∈ word, c.isAlpha = true)
    (text : List Char) : withCaseOf (word.map Char.toUpper) text = text.map Char.toUpper := by
  apply withCaseOf_of_inCapitals
  obtain ⟨c, hc, halpha⟩ := hletter
  refine inCapitals_iff.mpr ⟨⟨c.toUpper, List.mem_map_of_mem hc, ?_⟩, ?_⟩
  · exact isAlphabetic_of_isAlpha (by rw [Char.isAlpha_toUpper_eq_isAlpha, halpha])
  · intro d hd hdalpha
    obtain ⟨b, hb, rfl⟩ := List.mem_map.mp hd
    rw [isAlphabetic_of_ascii (toNat_toUpper_lt (hword b hb)),
      Char.isAlpha_toUpper_eq_isAlpha] at hdalpha
    exact isUppercase_toUpper hdalpha

/-- A word that a rule changes has a letter. -/
theorem exists_isAlpha_of_lower {part : List Char} (hpart : part <:+ word.map Char.toLower)
    (hne : part ≠ []) (halpha : part.all Char.isAlpha = true) : ∃ c ∈ word, c.isAlpha = true := by
  obtain ⟨d, hd⟩ := List.exists_mem_of_ne_nil part hne
  obtain ⟨c, hc, rfl⟩ := List.mem_map.mp (hpart.subset hd)
  exact ⟨c, hc, by simpa using List.all_eq_true.mp halpha _ hd⟩

/-- Whatever changes letters into small or into capital ones can be done before or after the
singular is formed, if the letters that a rule puts in are changed by the case of the word. -/
theorem singularWord_map {f : Char → Char} (hlower : ∀ c : Char, (f c).toLower = c.toLower)
    (hupper : ∀ c : Char, f c.toUpper = f c)
    (hcase : (∃ c ∈ word, c.isAlpha = true) → ∀ front other : List Char,
      other.map Char.toLower = other →
        withCaseOf (word.map f) (front.map f ++ other) = (front ++ other).map f) :
    singularWord (word.map f) = (singularWord word).map f := by
  have hirregular : ∀ entry ∈ irregular, entry.1.toList ≠ [] ∧
      entry.1.toList.all Char.isAlpha = true ∧
      entry.2.toList.map Char.toLower = entry.2.toList := by decide
  have hendings : ∀ ending ∈ endings, ending.1.toList ≠ [] ∧
      ending.1.toList.all Char.isAlpha = true ∧
      ending.2.toList.map Char.toLower = ending.2.toList := by decide
  have hsame : (word.map f).map Char.toLower = word.map Char.toLower := by
    rw [List.map_map]
    exact List.map_congr_left fun c _ => hlower c
  rw [singularWord_eq, singularWord_eq, hsame]
  have hchosen := Rule.chosen_of (word.map Char.toLower)
  generalize Rule.of (word.map Char.toLower) = rule at hchosen
  cases hchosen with
  | uncountable => rfl
  | irregular hmem hword =>
    obtain ⟨hne, halpha, hother⟩ := hirregular _ hmem
    have hletter := exists_isAlpha_of_lower ⟨[], hword⟩ hne halpha
    rw [Rule.apply, Rule.apply, map_withCaseOf hupper]
    exact hcase hletter [] _ hother
  | us =>
    rw [Rule.apply, Rule.apply, List.map_dropLast, List.map_dropLast]
  | ending hfirst =>
    obtain ⟨hne, halpha, hother⟩ := hendings _ (List.mem_of_find?_eq_some hfirst)
    obtain ⟨stem, -, hstem⟩ := hasEnding_iff.mp (List.find?_some hfirst)
    have hletter := exists_isAlpha_of_lower ⟨stem, hstem.symm⟩ hne halpha
    rw [Rule.apply, Rule.apply, map_withCaseOf hupper, List.length_map, ← List.map_take]
    exact hcase hletter _ _ hother
  | none => rfl

theorem singularWord_map_toLower (hword : IsAscii word) :
    singularWord (word.map Char.toLower) = (singularWord word).map Char.toLower := by
  refine singularWord_map Char.toLower_toLower_eq_toLower Char.toLower_toUpper_eq_toLower ?_
  intro _ front other hother
  rw [withCaseOf_map_toLower hword, List.map_append, hother]

theorem singularWord_map_toUpper (hword : IsAscii word) :
    singularWord (word.map Char.toUpper) = (singularWord word).map Char.toUpper := by
  refine singularWord_map Char.toLower_toUpper_eq_toLower Char.toUpper_toUpper_eq_toUpper ?_
  intro hletter front other _
  have htwice : (front.map Char.toUpper).map Char.toUpper = front.map Char.toUpper := by
    rw [List.map_map]
    exact List.map_congr_left fun c _ => Char.toUpper_toUpper_eq_toUpper c
  rw [withCaseOf_map_toUpper hword hletter, List.map_append, List.map_append, htwice]

/-! ## Names -/

theorem parts_map {f : Char → Char} (hf : ∀ c, f c = '_' ↔ c = '_') {cs front : List Char}
    (h : Parts cs front word) : Parts (cs.map f) (front.map f) (word.map f) := by
  have hlast {cs : List Char} (h : cs = [] ∨ cs.getLast? = some '_') :
      cs.map f = [] ∨ (cs.map f).getLast? = some '_' := by
    rcases h with rfl | h
    · exact .inl rfl
    · exact .inr (by rw [List.getLast?_map, h, Option.map_some, (hf '_').mpr rfl])
  cases h with
  | segment hfront hne hlast' =>
    rw [List.map_append]
    refine .segment (hlast hfront) (by simpa using hne) ?_
    intro hmem
    obtain ⟨c, hc, heq⟩ := List.mem_map.mp hmem
    exact hlast' ((hf c).mp heq ▸ hc)
  | whole hname => exact .whole (hlast hname)

theorem singular_map {f : Char → Char} (hf : ∀ c, f c = '_' ↔ c = '_') {name : String}
    (hword : singularWord ((inflected name).map f) = (singularWord (inflected name)).map f) :
    singular (name.map f) = (singular name).map f := by
  have hparts := parts_map hf (parts_of name)
  rw [← String.toList_map] at hparts
  obtain ⟨hleading, hinflected⟩ := hparts.eq
  apply String.toList_injective
  rw [toList_singular, hleading, hinflected, hword, String.toList_map, toList_singular,
    List.map_append]

theorem isAscii_singularWord (hword : IsAscii word) : IsAscii (singularWord word) := by
  rw [← isAscii_map_toLower_iff]
  intro c hc
  rcases mem_singularWord hc with hmem | halpha
  · exact isAscii_map_toLower_iff.mpr hword c hmem
  · simp only [Char.isAlpha, Char.isUpper, Char.isLower, Bool.or_eq_true, Bool.and_eq_true,
      decide_eq_true_eq, ge_iff_le, UInt32.le_iff_toNat_le] at halpha
    change (65 ≤ c.toNat ∧ c.toNat ≤ 90) ∨ (97 ≤ c.toNat ∧ c.toNat ≤ 122) at halpha
    omega

theorem isAscii_parts {name : String} (h : IsAscii name.toList) :
    IsAscii (leading name) ∧ IsAscii (inflected name) := by
  rw [← isAscii_append, (parts_of name).append_eq]
  exact h

/-- A segment behind others is brought into the singular by itself. -/
theorem singular_segment {head last : String} (hne : last ≠ "") (hlast : '_' ∉ last.toList) :
    singular (head ++ "_" ++ last) = head ++ "_" ++ singular last := by
  have hword : last.toList ≠ [] := by simpa using hne
  have hlist : (head ++ "_" ++ last).toList = (head.toList ++ ['_']) ++ last.toList := by
    simp only [String.toList_append]
    rfl
  have hname : Parts (head ++ "_" ++ last).toList (head.toList ++ ['_']) last.toList := by
    rw [hlist]
    exact .segment (.inr (by simp)) hword hlast
  have hself : Parts last.toList [] last.toList := .segment (.inl rfl) hword hlast
  apply String.toList_injective
  rw [toList_singular, hname.eq.1, hname.eq.2, String.toList_append, String.toList_append,
    toList_singular, hself.eq.1, hself.eq.2]
  rfl

theorem singular_ne_empty {name : String} (h : name ≠ "") : singular name ≠ "" := by
  have hparts := (parts_of name).append_eq
  intro hempty
  have hnil := toList_singular name
  rw [hempty] at hnil
  obtain ⟨hleading, hword⟩ := List.append_eq_nil_iff.mp hnil.symm
  have hinflected : inflected name = [] := by
    by_contra hne
    exact singularWord_ne_nil hne hword
  rw [hleading, hinflected] at hparts
  exact h (String.toList_injective hparts.symm)

/-- The default column of a foreign key to a table. -/
theorem ofStatement_column {settings : Settings} {statement : ForeignKeyStatement}
    (h : ForeignKey.text? (parseOptions settings statement.options) "column" = none) :
    (ForeignKey.ofStatement settings singular statement).column =
      singular statement.toTable ++ "_id" := by
  rw [ForeignKey.ofStatement, ForeignKey.ofOptions, h]
  rfl

/-- The singular of a name in small or in capital letters is that of the name, put into small or into
capital letters. Of a name that is not empty it is not empty, and it leaves all segments but the last
as they are. So it is with the column that a foreign key has by default; only where a statement
leaves the name of the table empty does nothing stand before the `_id`. -/
theorem singular_spelling :
    (∀ name : String, IsAscii name.toList → IsAscii (singular name).toList ∧
      (singular name).toLower = singular name.toLower ∧
      (singular name).toUpper = singular name.toUpper) ∧
    (∀ name : String, name ≠ "" → singular name ≠ "") ∧
    (∀ head last : String, last ≠ "" → '_' ∉ last.toList →
      singular (head ++ "_" ++ last) = head ++ "_" ++ singular last) ∧
    ∀ (settings : Settings) (statement : ForeignKeyStatement),
      ForeignKey.text? (parseOptions settings statement.options) "column" = none →
      statement.toTable ≠ "" →
        let column := (ForeignKey.ofStatement settings singular statement).column
        column = singular statement.toTable ++ "_id" ∧ column ≠ "_id" ∧
        ∀ head last : String, last ≠ "" → '_' ∉ last.toList →
          statement.toTable = head ++ "_" ++ last →
            column = head ++ "_" ++ singular last ++ "_id" := by
  refine ⟨fun name hname => ?_, fun name => singular_ne_empty,
    fun head last => singular_segment, fun settings statement hcolumn htable => ⟨?_, ?_, ?_⟩⟩
  · have hparts := (isAscii_parts hname)
    refine ⟨?_, ?_, ?_⟩
    · rw [toList_singular, isAscii_append]
      exact ⟨hparts.1, isAscii_singularWord hparts.2⟩
    · exact (singular_map (toLower_eq_iff (by decide)) (singularWord_map_toLower hparts.2)).symm
    · exact (singular_map (toUpper_eq_iff (by decide)) (singularWord_map_toUpper hparts.2)).symm
  · exact ofStatement_column hcolumn
  · rw [ofStatement_column hcolumn]
    intro heq
    have hempty : singular statement.toTable ++ "_id" = "" ++ "_id" := heq
    exact singular_ne_empty htable (String.append_left_inj _ |>.mp hempty)
  · intro head last hne hlast heq
    rw [ofStatement_column hcolumn, heq, singular_segment hne hlast]

theorem singular_spelling_boxes :
    IsAscii "admin_Boxes".toList ∧
    (singular "admin_Boxes").toLower = singular "admin_Boxes".toLower ∧
    (singular "admin_Boxes").toUpper = singular "admin_Boxes".toUpper ∧
    singular "admin_Boxes" ≠ "" ∧
    singular "admin_Boxes" = "admin_" ++ singular "Boxes" ∧
    (ForeignKey.ofStatement {} singular ⟨"posts", "admin_Boxes", ""⟩).column =
      "admin_" ++ singular "Boxes" ++ "_id" := by
  have hascii : IsAscii "admin_Boxes".toList := by
    simp [IsAscii]
  obtain ⟨hcase, hne, hsegment, hcolumn⟩ := singular_spelling
  have hoption : ForeignKey.text? (parseOptions {} "") "column" = none := by cbv
  refine ⟨hascii, (hcase _ hascii).2.1, (hcase _ hascii).2.2, hne _ (by decide),
    hsegment "admin" "Boxes" (by decide) (by decide), ?_⟩
  exact (hcolumn {} ⟨"posts", "admin_Boxes", ""⟩ hoption (by decide)).2.2
    "admin" "Boxes" (by decide) (by decide) rfl

end English

end RailsSchema
