import RailsSchema.Singular
import RailsSchema.Proofs.Text.Runs
import Mathlib

/-!
# The rules of English singulars

Which rule brings a word into the singular is seen from its copy in lower case alone. What the rule
does keeps the spelling of the word, and gives the spelling of the word to the letters that it puts
in.

* `Rule.of`, `Rule.apply`: the choice of a rule and what it does; `singularWord_eq`: the two make up
  the singular of a word;
* `Rule.chosen_of`: all that can be chosen for a word, each with what is then known of the word;
* `Rule.of_of_not_s`: nothing but a table changes a word that does not end in `s`;
* `withCaseOf_append`, `map_withCaseOf`: the case of a word and of the letters put in;
* `Formed`, `formed_singularWord`: how the singular of a word is made of the word, rule by rule.
-/

namespace RailsSchema.English

open Text

/-! ## Choosing a rule -/

/-- What is done to a word to bring it into the singular. -/
inductive Rule where
  /-- It stays as it is. -/
  | keep
  /-- A word from the table of irregular plurals takes its place. -/
  | replace (single : List Char)
  /-- Its last two characters are dropped. -/
  | dropTwo
  /-- Other characters take the place of its last ones. -/
  | swap (count : Nat) (other : List Char)
  deriving DecidableEq

/-- Whether a word ends in the first of two endings and has more than that. -/
def hasEnding (lower : List Char) (ending : String × String) : Bool :=
  match stem? ending.1.toList lower with
  | none => false
  | some [] => false
  | some _ => true

/-- The rule for a word in lower case. -/
def Rule.of (lower : List Char) : Rule :=
  if uncountable.any (·.toList == lower) then .keep
  else
    match irregular.find? fun entry => entry.1.toList == lower with
    | some entry => .replace entry.2.toList
    | none =>
      if isPluralOfUs lower then .dropTwo
      else
        match endings.find? (hasEnding lower) with
        | some ending => .swap ending.1.toList.length ending.2.toList
        | none => .keep

/-- What a rule makes of a word. -/
def Rule.apply (rule : Rule) (word : List Char) : List Char :=
  match rule with
  | .keep => word
  | .replace single => withCaseOf word single
  | .dropTwo => word.dropLast.dropLast
  | .swap count other => withCaseOf word (word.take (word.length - count) ++ other)

theorem hasEnding_iff {lower : List Char} {ending : String × String} :
    hasEnding lower ending = true ↔ ∃ stem, stem ≠ [] ∧ lower = stem ++ ending.1.toList := by
  unfold hasEnding
  constructor
  · intro h
    split at h
    · cases h
    · cases h
    · next stem hne hstem => exact ⟨stem, hne, stem?_eq_some_iff.mp hstem⟩
  · rintro ⟨stem, hne, hlower⟩
    rw [stem?_eq_some_iff.mpr hlower]
    cases stem with
    | nil => exact absurd rfl hne
    | cons c stem => rfl

theorem replaceEnding?_eq (word : List Char) (ending : String × String) :
    replaceEnding? word (word.map Char.toLower) ending =
      if hasEnding (word.map Char.toLower) ending then
        some ((Rule.swap ending.1.toList.length ending.2.toList).apply word)
      else none := by
  unfold replaceEnding? hasEnding
  cases hstem : stem? ending.1.toList (word.map Char.toLower) with
  | none => rfl
  | some stem =>
    cases stem with
    | nil => rfl
    | cons c stem =>
      have hlength := congrArg List.length (stem?_eq_some_iff.mp hstem)
      rw [List.length_map, List.length_append] at hlength
      have hcount : word.length - ending.1.toList.length = (c :: stem).length := by omega
      simp only [if_true, Rule.apply, hcount]

theorem findSome?_replaceEnding? (word : List Char) (endings : List (String × String)) :
    endings.findSome? (replaceEnding? word (word.map Char.toLower)) =
      (endings.find? (hasEnding (word.map Char.toLower))).map fun ending =>
        (Rule.swap ending.1.toList.length ending.2.toList).apply word := by
  induction endings with
  | nil => rfl
  | cons ending endings ih =>
    rw [List.findSome?_cons, List.find?_cons, replaceEnding?_eq]
    cases hasEnding (word.map Char.toLower) ending with
    | true => rfl
    | false => exact ih

/-- The singular of a word is what the rule for its lower case makes of it. -/
theorem singularWord_eq (word : List Char) :
    singularWord word = (Rule.of (word.map Char.toLower)).apply word := by
  unfold singularWord Rule.of
  dsimp only
  split
  · rfl
  cases irregular.find? fun entry => entry.1.toList == word.map Char.toLower with
  | some entry => rfl
  | none =>
    dsimp only
    split
    · rfl
    rw [findSome?_replaceEnding?]
    cases endings.find? (hasEnding (word.map Char.toLower)) with
    | some ending => rfl
    | none => rfl

/-! ## What is known of a word when its rule is chosen -/

theorem isPluralOfUs_iff {lower : List Char} :
    isPluralOfUs lower = true ↔
      ∃ stem c, isConsonant c = true ∧ lower = stem ++ c :: ['u', 's', 'e', 's'] := by
  unfold isPluralOfUs
  constructor
  · intro h
    split at h
    · next stem hstem =>
      have hlower := stem?_eq_some_iff.mp hstem
      cases hlast : stem.getLast? with
      | none =>
        rw [hlast] at h
        cases h
      | some c =>
        rw [hlast] at h
        obtain ⟨front, rfl⟩ := List.getLast?_eq_some_iff.mp hlast
        exact ⟨front, c, h, by rw [hlower, List.append_assoc]; rfl⟩
    · cases h
  · rintro ⟨stem, c, hc, rfl⟩
    have hstem : stem? "uses".toList (stem ++ c :: ['u', 's', 'e', 's']) = some (stem ++ [c]) :=
      stem?_eq_some_iff.mpr (by simp)
    rw [hstem]
    simp [hc]

/-- All that can be chosen for a word in lower case. -/
inductive Rule.Chosen (lower : List Char) : Rule → Prop where
  /-- The word is its own plural. -/
  | uncountable {word : String} (hmem : word ∈ uncountable) (hword : word.toList = lower) :
      Chosen lower .keep
  | irregular {entry : String × String} (hmem : entry ∈ irregular)
      (hword : entry.1.toList = lower) : Chosen lower (.replace entry.2.toList)
  | us (hus : isPluralOfUs lower = true) : Chosen lower .dropTwo
  | ending {ending : String × String} (hfirst : endings.find? (hasEnding lower) = some ending)
      (hus : isPluralOfUs lower = false) :
      Chosen lower (.swap ending.1.toList.length ending.2.toList)
  | none (hno : ∀ ending ∈ endings, hasEnding lower ending = false)
      (hus : isPluralOfUs lower = false) : Chosen lower .keep

theorem Rule.chosen_of (lower : List Char) : Chosen lower (Rule.of lower) := by
  unfold Rule.of
  split
  · next h =>
    obtain ⟨word, hmem, hword⟩ := List.any_eq_true.mp h
    exact .uncountable hmem (by simpa using hword)
  split
  · next entry hentry =>
    exact .irregular (List.mem_of_find?_eq_some hentry) (by simpa using List.find?_some hentry)
  split
  · next hus => exact .us hus
  · next hus =>
    rw [Bool.not_eq_true] at hus
    split
    · next ending hfirst => exact .ending hfirst hus
    · next hnone =>
      refine .none (fun ending hmem => ?_) hus
      simpa using List.find?_eq_none.mp hnone ending hmem

/-- What no table and no ending changes stays as it is. -/
theorem Rule.of_of_not_s {lower : List Char} (hlast : lower.getLast? ≠ some 's')
    (hregular : ∀ entry ∈ irregular, entry.1.toList ≠ lower) : Rule.of lower = .keep := by
  have hchosen := Rule.chosen_of lower
  generalize Rule.of lower = rule at hchosen
  cases hchosen with
  | uncountable => rfl
  | irregular hmem hword => exact absurd hword (hregular _ hmem)
  | us hus =>
    obtain ⟨stem, c, -, rfl⟩ := isPluralOfUs_iff.mp hus
    simp at hlast
  | @ending ending hfirst =>
    obtain ⟨stem, -, rfl⟩ := hasEnding_iff.mp (List.find?_some hfirst)
    have hs : ∀ ending ∈ endings, ending.1.toList.getLast? = some 's' := by decide
    have hending := hs ending (List.mem_of_find?_eq_some hfirst)
    rw [List.getLast?_append, hending] at hlast
    exact absurd rfl hlast
  | none => rfl

theorem find?_hasEnding_append {stem : List Char} (hne : stem ≠ []) {c : Char}
    (hc : c = 's' ∨ c = 'u') :
    endings.find? (hasEnding (stem ++ [c, 's'])) =
      some (String.ofList [c, 's'], String.ofList [c, 's']) := by
  obtain ⟨front, last, rfl⟩ := (List.eq_nil_or_concat' stem).resolve_left hne
  rcases hc with rfl | rfl
  · simp [endings, hasEnding, stem?, after?]
  · simp [endings, hasEnding, stem?, after?]

/-- The endings `ss` and `us` stand in the singular as well. -/
theorem Rule.of_append_s {stem : List Char} (hne : stem ≠ []) {c : Char} (hc : c = 's' ∨ c = 'u') :
    Rule.of (stem ++ [c, 's']) = .swap 2 [c, 's'] := by
  have htables : ∀ c, c = 's' ∨ c = 'u' → (∀ word ∈ uncountable, ¬ [c, 's'] <:+ word.toList) ∧
      ∀ entry ∈ irregular, ¬ [c, 's'] <:+ entry.1.toList := by
    rintro c (rfl | rfl) <;> decide
  have hfind := find?_hasEnding_append hne hc
  have hchosen := Rule.chosen_of (stem ++ [c, 's'])
  generalize Rule.of (stem ++ [c, 's']) = rule at hchosen
  cases hchosen with
  | uncountable hmem hword => exact absurd ⟨stem, hword.symm⟩ ((htables c hc).1 _ hmem)
  | irregular hmem hword => exact absurd ⟨stem, hword.symm⟩ ((htables c hc).2 _ hmem)
  | us hus =>
    obtain ⟨front, d, -, heq⟩ := isPluralOfUs_iff.mp hus
    have hc' : c = 'e' := by simpa using congrArg (fun cs => cs.reverse.tail.head?) heq
    rcases hc with rfl | rfl <;> cases hc'
  | ending hfirst =>
    rw [hfind, Option.some.injEq] at hfirst
    rw [← hfirst]
    simp
  | none hno =>
    have hsome := hno _ (List.mem_of_find?_eq_some hfind)
    rw [List.find?_some hfind] at hsome
    cases hsome

/-! ## Case -/

/-- Whether a word has letters and all of them are capitals. -/
def inCapitals (word : List Char) : Bool :=
  let letters := word.filter isAlphabetic
  !letters.isEmpty && letters.all isUppercase

theorem inCapitals_iff {word : List Char} :
    inCapitals word = true ↔ (∃ c ∈ word, isAlphabetic c = true) ∧
      ∀ c ∈ word, isAlphabetic c = true → isUppercase c = true := by
  have hletters : (word.filter isAlphabetic).isEmpty = false ↔
      ∃ c ∈ word, isAlphabetic c = true := by
    simp
  have hall : (word.filter isAlphabetic).all isUppercase = true ↔
      ∀ c ∈ word, isAlphabetic c = true → isUppercase c = true := by
    simp only [List.all_eq_true, List.mem_filter, and_imp]
  rw [inCapitals, Bool.and_eq_true, Bool.not_eq_true', hletters, hall]

theorem isAlphabetic_of_isAlpha {c : Char} (h : c.isAlpha = true) : isAlphabetic c = true := by
  simp [isAlphabetic, h]

theorem isUppercase_toUpper {c : Char} (h : c.isAlpha = true) : isUppercase c.toUpper = true := by
  simp [isUppercase, h]

/-- Only small ASCII letters are changed, and these are letters and no capitals. -/
theorem toUpper_of_isUppercase {c : Char} (h : isAlphabetic c = true → isUppercase c = true) :
    c.toUpper = c := by
  apply Char.toUpper_eq_of_not_isLower
  intro hlower
  have hupper := h (isAlphabetic_of_isAlpha (by simp [Char.isAlpha, hlower]))
  have hascii : ¬ 0x80 ≤ c.toNat := by
    simp only [Char.isLower, Bool.and_eq_true, decide_eq_true_eq, ge_iff_le,
      UInt32.le_iff_toNat_le] at hlower
    have hhigh : c.toNat ≤ 122 := hlower.2
    omega
  have hnot : c.isUpper = false := by
    simpa using Char.not_isUpper_of_isLower hlower
  simp [isUppercase, hnot, hascii] at hupper

theorem map_toUpper_of_inCapitals {word text : List Char} (h : inCapitals word = true)
    (htext : text ⊆ word) : text.map Char.toUpper = text := by
  rw [List.map_congr_left fun c hc => toUpper_of_isUppercase ((inCapitals_iff.mp h).2 c (htext hc)),
    List.map_id']

theorem withCaseOf_of_inCapitals {word : List Char} (h : inCapitals word = true)
    (text : List Char) : withCaseOf word text = text.map Char.toUpper := by
  unfold withCaseOf
  exact if_pos h

/-- A word that is not in capitals has a say in the first character only. -/
theorem withCaseOf_cons {first : Char} {others : List Char}
    (h : inCapitals (first :: others) = false) (c : Char) (text : List Char) :
    withCaseOf (first :: others) (c :: text) =
      (if isUppercase first then c.toUpper else c) :: text := by
  unfold withCaseOf
  rw [if_neg (by rw [← inCapitals, h]; decide)]
  cases hfirst : isUppercase first with
  | true => exact if_pos hfirst
  | false => exact if_neg (by rw [hfirst]; decide)

theorem withCaseOf_nil_left (text : List Char) : withCaseOf [] text = text := rfl

theorem withCaseOf_nil_right (word : List Char) : withCaseOf word [] = [] := by
  unfold withCaseOf
  dsimp only
  split
  · rfl
  · cases word <;> rfl

/-- A word that is not in capitals leaves a text with the same beginning as it is. -/
theorem withCaseOf_append {front rest : List Char} (h : inCapitals (front ++ rest) = false)
    (hne : front ≠ []) (text : List Char) :
    withCaseOf (front ++ rest) (front ++ text) = front ++ text := by
  cases front with
  | nil => exact absurd rfl hne
  | cons c front =>
    rw [List.cons_append] at h
    rw [List.cons_append, List.cons_append, withCaseOf_cons h]
    split
    · next hc => rw [toUpper_of_isUppercase fun _ => hc]
    · rfl

/-- Giving a text the case of a word changes nothing but the case. -/
theorem map_withCaseOf {f : Char → Char} (hf : ∀ c : Char, f c.toUpper = f c)
    (word text : List Char) : (withCaseOf word text).map f = text.map f := by
  cases h : inCapitals word with
  | true =>
    rw [withCaseOf_of_inCapitals h, List.map_map]
    exact List.map_congr_left fun c _ => hf c
  | false =>
    cases word with
    | nil => rw [withCaseOf_nil_left]
    | cons first others =>
      cases text with
      | nil => rw [withCaseOf_nil_right]
      | cons c text =>
        rw [withCaseOf_cons h, List.map_cons, List.map_cons]
        split
        · rw [hf]
        · rfl

/-! ## What a singular is made of -/

/-- How a word is brought into the singular, rule by rule. -/
inductive Formed (word : List Char) : List Char → Prop where
  | kept (hrule : Rule.of (word.map Char.toLower) = .keep) : Formed word word
  | irregular {entry : String × String} (hmem : entry ∈ irregular)
      (hword : word.map Char.toLower = entry.1.toList) : Formed word (withCaseOf word entry.2.toList)
  /-- Of `uses` the first two letters stay as they are. -/
  | us {stem us es : List Char} (hplural : isPluralOfUs (word.map Char.toLower) = true)
      (hne : stem ≠ []) (hword : word = stem ++ us ++ es)
      (hus : us.map Char.toLower = ['u', 's']) (hes : es.map Char.toLower = ['e', 's']) :
      Formed word (stem ++ us)
  | ending {stem taken : List Char} {ending : String × String}
      (hfirst : endings.find? (hasEnding (word.map Char.toLower)) = some ending)
      (hrule : Rule.of (word.map Char.toLower) =
        .swap ending.1.toList.length ending.2.toList)
      (hplural : isPluralOfUs (word.map Char.toLower) = false)
      (hne : stem ≠ []) (hword : word = stem ++ taken)
      (htaken : taken.map Char.toLower = ending.1.toList) :
      Formed word (withCaseOf word (stem ++ ending.2.toList))

theorem formed_singularWord (word : List Char) : Formed word (singularWord word) := by
  rw [singularWord_eq]
  have hchosen := Rule.chosen_of (word.map Char.toLower)
  generalize hrule : Rule.of (word.map Char.toLower) = rule at hchosen
  cases hchosen with
  | uncountable => exact .kept hrule
  | irregular hmem hword => exact .irregular hmem hword.symm
  | us hplural =>
    obtain ⟨stem, c, -, heq⟩ := isPluralOfUs_iff.mp hplural
    have hsplit : word.map Char.toLower = (stem ++ [c]) ++ (['u', 's'] ++ ['e', 's']) := by
      rw [heq, List.append_assoc]
      rfl
    obtain ⟨front, back, rfl, hfront, hback⟩ := List.map_eq_append_iff.mp hsplit
    obtain ⟨us, es, rfl, hus, hes⟩ := List.map_eq_append_iff.mp hback
    have hne : front ≠ [] := by
      rintro rfl
      simp at hfront
    have hdrop : (front ++ (us ++ es)).dropLast.dropLast = front ++ us := by
      obtain ⟨e, s, rfl⟩ : ∃ e s, es = [e, s] := by
        have hlength := congrArg List.length hes
        rw [List.length_map] at hlength
        exact List.length_eq_two.mp hlength
      rw [← List.append_assoc]
      simp
    rw [Rule.apply, hdrop]
    exact .us hplural hne (List.append_assoc _ _ _).symm hus hes
  | @ending ending hfirst hplural =>
    obtain ⟨stem, hne, heq⟩ := hasEnding_iff.mp (List.find?_some hfirst)
    obtain ⟨front, taken, rfl, hfront, htaken⟩ := List.map_eq_append_iff.mp heq
    have hlength : (front ++ taken).length - ending.1.toList.length = front.length := by
      rw [← htaken, List.length_map, List.length_append, Nat.add_sub_cancel]
    rw [Rule.apply, hlength, List.take_left]
    refine .ending hfirst hrule hplural ?_ rfl htaken
    rintro rfl
    exact hne hfront.symm
  | none => exact .kept hrule

end RailsSchema.English
