import RailsSchema.Proofs.Singular.Spelling

/-!
# Singulars of singulars

A singular is mostly its own singular: the rule for it keeps it, or gives it the ending that it has.
There are two sorts of words whose singular changes again. One plural is taken off at a time, so a
plural with another `s` behind it becomes the plural; and an ending is put in with the case of the
word as a whole, so the first letters of `uses`, which stay as they are spelled when the others are
dropped, may change when the singular is given its ending.

* `singularWord_eq_self_of_keep`, `singularWord_eq_self_iff_of_swap`: when a word is its own singular;
* `inCapitals_or_suffix`: letters that were put in stand there as they are, or in a word in capitals;
* `singularWord_twice_iff`, `singular_twice_iff`: which words and names are settled in one step.
-/

namespace RailsSchema.English

open Text

/-- The plurals of irregular plurals: an irregular plural that does not end in `s`, and an `s`. -/
def doublePlurals : List (List Char) :=
  ((irregular.map (·.1.toList)).filter (·.getLast? ≠ some 's')).map (· ++ ['s'])

theorem mem_doublePlurals_iff {lower : List Char} :
    lower ∈ doublePlurals ↔ ∃ entry ∈ irregular, entry.1.toList.getLast? ≠ some 's' ∧
      lower = entry.1.toList ++ ['s'] := by
  simp only [doublePlurals, List.mem_map, List.mem_filter, decide_eq_true_eq]
  constructor
  · rintro ⟨plural, ⟨⟨entry, hmem, rfl⟩, hlast⟩, rfl⟩
    exact ⟨entry, hmem, hlast, rfl⟩
  · rintro ⟨entry, hmem, hlast, rfl⟩
    exact ⟨_, ⟨⟨entry, hmem, rfl⟩, hlast⟩, rfl⟩

theorem rule_of_doublePlurals : ∀ lower ∈ doublePlurals, Rule.of lower = .swap 1 [] := by
  decide

/-! ## Words that are their own singular -/

variable {word : List Char}

theorem singularWord_eq_self_of_keep (h : Rule.of (word.map Char.toLower) = .keep) :
    singularWord word = word := by
  rw [singularWord_eq, h]
  rfl

/-- A word that is given the ending it has, in small letters, is its own singular if it is in
capitals or has the ending in small letters. -/
theorem singularWord_eq_self_iff_of_swap {stem other : List Char} (hne : stem ≠ [])
    (hword : word.map Char.toLower = stem ++ other)
    (hrule : Rule.of (word.map Char.toLower) = .swap other.length other) :
    singularWord word = word ↔ inCapitals word = true ∨ other <:+ word := by
  obtain ⟨front, taken, rfl, hfront, htaken⟩ := List.map_eq_append_iff.mp hword
  have hlength : taken.length = other.length := by rw [← htaken, List.length_map]
  have htake : (front ++ taken).length - other.length = front.length := by
    rw [List.length_append, hlength, Nat.add_sub_cancel]
  have happly : singularWord (front ++ taken) = withCaseOf (front ++ taken) (front ++ other) := by
    rw [singularWord_eq, hrule, Rule.apply, htake, List.take_left]
  have hfrontne : front ≠ [] := by
    rintro rfl
    exact hne hfront.symm
  rw [happly]
  cases hcapitals : inCapitals (front ++ taken) with
  | true =>
    have hkept := map_toUpper_of_inCapitals hcapitals (List.Subset.refl _)
    have hother : other.map Char.toUpper = taken.map Char.toUpper := by
      rw [← htaken, List.map_map]
      exact List.map_congr_left fun c _ => Char.toUpper_toLower_eq_toUpper c
    rw [withCaseOf_of_inCapitals hcapitals, List.map_append, hother, ← List.map_append, hkept]
    simp
  | false =>
    rw [withCaseOf_append hcapitals hfrontne, List.append_cancel_left_eq]
    constructor
    · rintro rfl
      exact .inr (List.suffix_append _ _)
    · rintro (h | h)
      · cases h
      · exact (List.suffix_of_suffix_length_le h (List.suffix_append _ _) hlength.ge).eq_of_length
          hlength.symm

/-- Where small letters are put behind some of a word's characters, in the case of the word, they
stand there as they are, or all that came about is in capitals. -/
theorem inCapitals_or_suffix {front other : List Char} (hne : front ≠ [])
    (hfront : ∀ c ∈ front, c ∈ word ∨ c.isAlpha = true)
    (hother : ∀ c ∈ other, c.isAlpha = true) :
    inCapitals (withCaseOf word (front ++ other)) = true ∨
      other <:+ withCaseOf word (front ++ other) := by
  cases hcapitals : inCapitals word with
  | true =>
    rw [withCaseOf_of_inCapitals hcapitals]
    cases other with
    | nil => exact .inr (List.nil_suffix)
    | cons d other =>
      refine .inl (inCapitals_iff.mpr ⟨⟨d.toUpper, ?_, ?_⟩, ?_⟩)
      · simp
      · have hd := hother d List.mem_cons_self
        exact isAlphabetic_of_isAlpha (by rw [Char.isAlpha_toUpper_eq_isAlpha, hd])
      · intro c hc halpha
        obtain ⟨b, hb, rfl⟩ := List.mem_map.mp hc
        have hb' : b ∈ word ∨ b.isAlpha = true := by
          rcases List.mem_append.mp hb with hb | hb
          · exact hfront b hb
          · exact .inr (hother b hb)
        rcases hb' with hb' | hb'
        · have hupper := (inCapitals_iff.mp hcapitals).2 b hb'
          rw [toUpper_of_isUppercase hupper] at halpha ⊢
          exact hupper halpha
        · exact isUppercase_toUpper hb'
  | false =>
    right
    cases word with
    | nil => exact List.suffix_append _ _
    | cons first others =>
      cases front with
      | nil => exact absurd rfl hne
      | cons c front =>
        rw [List.cons_append, withCaseOf_cons hcapitals]
        exact (List.suffix_append _ _).trans (List.suffix_cons _ _)

/-- What was given an ending that its own rule gives as well is its own singular. -/
theorem singularWord_withCaseOf {front other : List Char} (hne : front ≠ [])
    (hfront : ∀ c ∈ front, c ∈ word ∨ c.isAlpha = true)
    (hother : ∀ c ∈ other, c.isAlpha = true) (hlower : other.map Char.toLower = other)
    (hrule : Rule.of (front.map Char.toLower ++ other) = .swap other.length other) :
    singularWord (withCaseOf word (front ++ other)) = withCaseOf word (front ++ other) := by
  have hword : (withCaseOf word (front ++ other)).map Char.toLower =
      front.map Char.toLower ++ other := by
    rw [map_withCaseOf Char.toLower_toUpper_eq_toLower, List.map_append, hlower]
  rw [singularWord_eq_self_iff_of_swap (by simpa using hne) hword (by rw [hword, hrule])]
  exact inCapitals_or_suffix hne hfront hother

/-! ## Singulars, rule by rule -/

theorem isPluralOfUs_of_keep {lower : List Char} (h : Rule.of lower = .keep) :
    isPluralOfUs lower = false := by
  have hwords : ∀ word ∈ uncountable, isPluralOfUs word.toList = false := by decide
  have hchosen := Rule.chosen_of lower
  rw [h] at hchosen
  cases hchosen with
  | uncountable hmem hword => exact hword ▸ hwords _ hmem
  | none _ hus => exact hus

/-- The singulars of the table are settled, all but `alias`, which is taken for a plural. -/
theorem singularWord_irregular (word : List Char) {entry : String × String} (hmem : entry ∈ irregular)
    (halias : entry.1 ≠ "aliases") :
    singularWord (withCaseOf word entry.2.toList) = withCaseOf word entry.2.toList ∧
      entry.1.toList ∉ doublePlurals ∧
      (isPluralOfUs entry.1.toList = true → inCapitals (withCaseOf word entry.2.toList) = true ∨
        ['u', 's'] <:+ withCaseOf word entry.2.toList) := by
  have hletters : ∀ entry ∈ irregular, entry.1.toList ∉ doublePlurals ∧
      entry.2.toList.map Char.toLower = entry.2.toList ∧
      entry.2.toList.all Char.isAlpha = true := by decide
  have hrules : ∀ entry ∈ irregular, entry.1 ≠ "aliases" →
      Rule.of entry.2.toList = .keep ∧ isPluralOfUs entry.1.toList = false ∨
      ∃ other ∈ [['u', 's'], ['i', 's']], other <:+ entry.2.toList ∧ other ≠ entry.2.toList ∧
        Rule.of entry.2.toList = .swap other.length other ∧
        (isPluralOfUs entry.1.toList = true → other = ['u', 's']) := by decide
  obtain ⟨hdouble, hlower, halpha⟩ := hletters entry hmem
  rcases hrules entry hmem halias with ⟨hkeep, hus⟩ | ⟨other, -, hsuffix, hne, hrule, hus⟩
  · refine ⟨singularWord_eq_self_of_keep ?_, hdouble, fun h => ?_⟩
    · rw [map_withCaseOf Char.toLower_toUpper_eq_toLower, hlower, hkeep]
    · rw [hus] at h
      cases h
  · obtain ⟨front, hsplit⟩ := hsuffix
    rw [← hsplit] at hlower halpha hrule hne ⊢
    rw [List.map_append] at hlower
    obtain ⟨hfrontlower, hotherlower⟩ :=
      List.append_inj hlower (by rw [List.length_map])
    rw [List.all_append, Bool.and_eq_true, List.all_eq_true, List.all_eq_true] at halpha
    have hfrontne : front ≠ [] := by
      rintro rfl
      exact hne rfl
    have hfront : ∀ c ∈ front, c ∈ word ∨ c.isAlpha = true := fun c hc => .inr (halpha.1 c hc)
    refine ⟨?_, hdouble, fun h => ?_⟩
    · exact singularWord_withCaseOf hfrontne hfront halpha.2 hotherlower
        (by rw [hfrontlower, hrule])
    · rw [← hus h]
      exact inCapitals_or_suffix hfrontne hfront halpha.2

/-- A word that loses an `s` does not lose another, unless it is left as an irregular plural. -/
theorem Rule.of_stem {stem : List Char} (hne : stem ≠ [])
    (hfirst : endings.find? (hasEnding (stem ++ ['s'])) = some ("s", ""))
    (hregular : ∀ entry ∈ irregular, entry.1.toList = stem → stem.getLast? = some 's') :
    Rule.of stem = .keep := by
  by_cases hlast : stem.getLast? = some 's'
  · obtain ⟨front, rfl⟩ := List.getLast?_eq_some_iff.mp hlast
    by_cases hfront : front = []
    · rw [hfront]
      decide
    · rw [List.append_assoc, List.singleton_append,
        find?_hasEnding_append hfront (.inl rfl)] at hfirst
      exact absurd hfirst (by decide)
  · exact Rule.of_of_not_s hlast fun entry hentry hword => hlast (hregular entry hentry hword)

/-- What the rules do with a word that was given an ending: they keep it or give it that ending. -/
theorem Rule.of_append_ending {stem : List Char} (hne : stem ≠ []) {ending : String × String}
    (hmem : ending ∈ endings) (hother : ending.2 ≠ "")
    (hrule : Rule.of (stem ++ ending.1.toList) =
      .swap ending.1.toList.length ending.2.toList) :
    Rule.of (stem ++ ending.2.toList) = .keep ∨
      Rule.of (stem ++ ending.2.toList) = .swap ending.2.toList.length ending.2.toList := by
  have hcases : ∀ ending ∈ endings, ending.2 ≠ "" → ending.1 = ending.2 ∨ ending.2 = "ss" ∨
      ending.2.toList ≠ [] ∧ ending.2.toList.getLast? ≠ some 's' ∧
        ∀ entry ∈ irregular, ¬ ending.2.toList <:+ entry.1.toList := by decide
  rcases hcases ending hmem hother with hsame | hss | ⟨hnonempty, hlast, hregular⟩
  · rw [hsame] at hrule
    exact .inr hrule
  · rw [hss]
    exact .inr (Rule.of_append_s hne (.inl rfl))
  · refine .inl (Rule.of_of_not_s ?_ fun entry hentry heq => ?_)
    · rw [List.getLast?_append_of_ne_nil _ hnonempty]
      exact hlast
    · exact hregular entry hentry (heq ▸ List.suffix_append _ _)

/-- What is left of a word without its `s` is settled if no irregular plural is left. -/
theorem singularWord_dropped {stem : List Char} {single : List Char} (hne : stem ≠ [])
    (hfirst : endings.find? (hasEnding (stem ++ ['s'])) = some ("s", ""))
    (hsingle : single.map Char.toLower = stem) :
    singularWord single = single ↔ stem ++ ['s'] ∉ doublePlurals := by
  constructor
  · intro hself hdouble
    have hregular : ∀ entry ∈ irregular, Rule.of entry.1.toList = .replace entry.2.toList ∧
        entry.2.toList.map Char.toLower ≠ entry.1.toList := by decide
    obtain ⟨entry, hentry, -, heq⟩ := mem_doublePlurals_iff.mp hdouble
    obtain ⟨hrule, hother⟩ := hregular entry hentry
    have hleft : single.map Char.toLower = entry.1.toList := by
      rw [hsingle, List.append_cancel_right heq]
    have hagain : (singularWord single).map Char.toLower = entry.2.toList.map Char.toLower := by
      rw [singularWord_eq, hleft, hrule, Rule.apply,
        map_withCaseOf Char.toLower_toUpper_eq_toLower]
    rw [hself, hleft] at hagain
    exact hother hagain.symm
  · intro hdouble
    apply singularWord_eq_self_of_keep
    rw [hsingle]
    refine Rule.of_stem hne hfirst fun entry hentry hword => ?_
    by_contra hlast
    exact hdouble (mem_doublePlurals_iff.mpr ⟨entry, hentry, hword ▸ hlast, by rw [hword]⟩)

/-- A word whose ending was changed is settled if it was not the plural of a plural. -/
theorem singularWord_ending {stem taken : List Char} {ending : String × String}
    (hfirst : endings.find? (hasEnding (word.map Char.toLower)) = some ending)
    (hrule : Rule.of (word.map Char.toLower) = .swap ending.1.toList.length ending.2.toList)
    (hne : stem ≠ []) (hword : word = stem ++ taken)
    (htaken : taken.map Char.toLower = ending.1.toList) :
    singularWord (withCaseOf word (stem ++ ending.2.toList)) =
        withCaseOf word (stem ++ ending.2.toList) ↔
      word.map Char.toLower ∉ doublePlurals := by
  have hletters : ∀ ending ∈ endings, ending.2.toList.all Char.isAlpha = true ∧
      ending.2.toList.map Char.toLower = ending.2.toList ∧
      (ending.2 = "" → ending = ("s", "")) := by decide
  have hmem := List.mem_of_find?_eq_some hfirst
  obtain ⟨halpha, hlower, hempty⟩ := hletters ending hmem
  have hplural : word.map Char.toLower = stem.map Char.toLower ++ ending.1.toList := by
    rw [hword, List.map_append, htaken]
  have hsingle : (withCaseOf word (stem ++ ending.2.toList)).map Char.toLower =
      stem.map Char.toLower ++ ending.2.toList := by
    rw [map_withCaseOf Char.toLower_toUpper_eq_toLower, List.map_append, hlower]
  have hstem : stem.map Char.toLower ≠ [] := by simpa using hne
  by_cases hother : ending.2 = ""
  · obtain rfl := hempty hother
    rw [hplural] at hfirst ⊢
    exact singularWord_dropped hstem hfirst (hsingle.trans (List.append_nil _))
  · have hdouble : word.map Char.toLower ∉ doublePlurals := by
      intro h
      rw [rule_of_doublePlurals _ h, Rule.swap.injEq] at hrule
      exact hother (String.toList_injective hrule.2.symm)
    refine iff_of_true ?_ hdouble
    rw [hplural] at hrule
    rcases Rule.of_append_ending hstem hmem hother hrule with hkeep | hswap
    · exact singularWord_eq_self_of_keep (by rw [hsingle, hkeep])
    · refine singularWord_withCaseOf hne (fun c hc => ?_) ?_ hlower hswap
      · rw [hword]
        exact .inl (List.mem_append_left _ hc)
      · exact List.all_eq_true.mp halpha

/-! ## Words and names -/

/-- Which words are settled in one step. -/
theorem singularWord_twice_iff (h : word.map Char.toLower ≠ "aliases".toList) :
    singularWord (singularWord word) = singularWord word ↔
      word.map Char.toLower ∉ doublePlurals ∧
      (isPluralOfUs (word.map Char.toLower) = true →
        inCapitals (singularWord word) = true ∨ ['u', 's'] <:+ singularWord word) := by
  have hdoubles : ∀ lower ∈ doublePlurals, isPluralOfUs lower = false := by decide
  have hformed := formed_singularWord word
  generalize singularWord word = single at hformed ⊢
  cases hformed with
  | kept hrule =>
    have hdouble : word.map Char.toLower ∉ doublePlurals := by
      intro hmem
      rw [rule_of_doublePlurals _ hmem] at hrule
      cases hrule
    refine iff_of_true (singularWord_eq_self_of_keep hrule) ⟨hdouble, fun hus => ?_⟩
    rw [isPluralOfUs_of_keep hrule] at hus
    cases hus
  | @irregular entry hmem hword =>
    have halias : entry.1 ≠ "aliases" := by
      intro heq
      rw [hword, heq] at h
      exact h rfl
    obtain ⟨hself, hdouble, hus⟩ := singularWord_irregular word hmem halias
    rw [hword]
    exact iff_of_true hself ⟨hdouble, hus⟩
  | @us stem us es hplural hne hword hus hes =>
    have hdouble : word.map Char.toLower ∉ doublePlurals := by
      intro hmem
      rw [hdoubles _ hmem] at hplural
      cases hplural
    have hstem : stem.map Char.toLower ≠ [] := by simpa using hne
    have hsingle : (stem ++ us).map Char.toLower = stem.map Char.toLower ++ ['u', 's'] := by
      rw [List.map_append, hus]
    rw [singularWord_eq_self_iff_of_swap hstem hsingle
      (by rw [hsingle]; exact Rule.of_append_s hstem (.inr rfl))]
    simp only [hdouble, hplural, not_false_eq_true, true_and, true_imp_iff]
  | ending hfirst hrule hplural hne hword htaken =>
    rw [singularWord_ending hfirst hrule hne hword htaken, hplural]
    simp

/-- Unless its last segment is `aliases`, a name is brought into the singular in one step if and
only if the segment is not an irregular plural with a further `s`, and, if it is the plural of a
noun in `us`, its singular is in capitals or keeps a small `us`. -/
theorem singular_twice_iff (name : String)
    (h : (inflected name).map Char.toLower ≠ "aliases".toList) :
    singular (singular name) = singular name ↔
      (inflected name).map Char.toLower ∉ doublePlurals ∧
      (isPluralOfUs ((inflected name).map Char.toLower) = true →
        inCapitals (inflected (singular name)) = true ∨
          ['u', 's'] <:+ inflected (singular name)) := by
  obtain ⟨hleading, hinflected⟩ := parts_singular name
  rw [hinflected, ← singularWord_twice_iff h, ← String.toList_inj, toList_singular,
    toList_singular, hleading, hinflected, List.append_cancel_left_eq]

theorem singular_twice_campuses :
    (inflected "admin_Campuses").map Char.toLower ≠ "aliases".toList ∧
    singular (singular "admin_Campuses") = singular "admin_Campuses" := by
  have hother : (inflected "admin_Campuses").map Char.toLower ≠ "aliases".toList := by decide
  refine ⟨hother, (singular_twice_iff "admin_Campuses" hother).mpr ⟨by decide, fun _ => .inr ?_⟩⟩
  decide

/-- Two plurals take two steps. -/
theorem singular_twice_peoples :
    singular "peoples" = "people" ∧ singular "people" = "person" ∧
    ¬ ∀ name : String, singular (singular name) = singular name := by
  have hpeoples : singular "peoples" = "people" := by decide
  have hpeople : singular "people" = "person" := by decide
  refine ⟨hpeoples, hpeople, fun h => ?_⟩
  have hagain := h "peoples"
  rw [hpeoples, hpeople] at hagain
  exact absurd hagain (by decide)

end RailsSchema.English
