import RailsSchema.Proofs.Dump.Values

/-!
# The options in a dump

Options are written one behind the other, each behind a comma. `bareText` is their text without the
first comma, which is what scanners take of it, and `parseOptions_text` reads it back.
`silent_optionsText` and `newline_not_mem_optionsText` carry over what holds of the values.
-/

namespace RailsSchema

open Text

namespace Dump

variable {plain : String → Prop} {depth : Nat} {options : Options}

/-- Options without a comma in front. -/
def bareText (options : Options) : List Char := comma.intercalate (options.map optionText)

theorem bareText_cons (option : String × Value) (options : Options) :
    bareText (option :: options) = optionText option ++ optionsText options := by
  induction options generalizing option with
  | nil => simp [bareText, optionsText]
  | cons next options ih =>
    rw [bareText, List.map_cons, List.map_cons, List.intercalate_cons_cons]
    have htail := ih next
    rw [bareText, List.map_cons] at htail
    rw [htail, optionsText, optionsText, List.flatMap_cons]
    simp only [List.append_assoc]

theorem optionsText_of_ne_nil (h : options ≠ []) :
    optionsText options = ',' :: ' ' :: bareText options := by
  cases options with
  | nil => exact absurd rfl h
  | cons option options =>
    rw [bareText_cons]
    rfl

/-! ## Where options begin and end -/

theorem CanonicalOptions.writable (h : CanonicalOptions plain depth options)
    {option : String × Value} (hoption : option ∈ options) : option.2.labelled.value.Writable := by
  rw [Value.value_labelled]
  exact (h.value option hoption).writable

theorem CanonicalOptions.mono {other : String → Prop}
    (himp : ∀ content, plain content → other content) (h : CanonicalOptions plain depth options) :
    CanonicalOptions other depth options :=
  ⟨h.nodup, h.word, fun option hoption => (h.value option hoption).mono himp, h.depth_le⟩

theorem endsSolid_enclosed (c : Char) (cs : List Char) {d : Char} (hd : isBlank d = false) :
    EndsSolid (c :: (cs ++ [d])) := ⟨c :: cs, d, by simp, hd⟩

theorem endsSolid_text {value : Value} (h : value.Canonical plain) :
    EndsSolid value.labelled.text := by
  cases value with
  | str content => exact endsSolid_enclosed '"' content.toList (by decide)
  | callable source =>
    obtain ⟨blanks, body, inner, heq, -, hgroup, -⟩ := Literal.exists_of_isCallable h.1
    have hbody := Group.eq_text_append hgroup
    rw [List.append_nil] at hbody
    show EndsSolid source.toList
    rw [heq, hbody]
    have hgroup : EndsSolid ('\x7b' :: (inner ++ ['\x7d'])) := endsSolid_enclosed _ inner (by decide)
    exact hgroup.append ('-' :: '>' :: blanks)
  | hash entries =>
    rw [text_hash]
    exact endsSolid_enclosed _ _ (by decide)
  | array items =>
    rw [text_array]
    exact endsSolid_enclosed _ _ (by decide)
  | numeric digits =>
    refine EndsSolid.of_forall ?_ ?_
    · rcases Numeral.IsCanonical.head h with ⟨d, ds, heq, -⟩ | ⟨d, ds, heq, -⟩ <;>
        simp [Value.labelled, Written.text, heq]
    · exact fun c hc => Literal.isBlank_of_isTokenChar (Literal.isTokenChar_of_isCanonical h c hc)
  | symbol name =>
    have hname : EndsSolid name.toList :=
      EndsSolid.of_forall h.1.1 fun c hc => isBlank_eq_false_of_isWordChar (h.1.2 c hc)
    exact hname.append [':']
  | keyword word =>
    refine EndsSolid.of_forall (by cases word <;> decide) fun c hc => ?_
    exact isBlank_eq_false_of_isWordChar (Literal.isWordChar_of_mem_word word c hc)

theorem endsSolid_bareText (h : CanonicalOptions plain depth options) (hne : options ≠ []) :
    EndsSolid (bareText options) := by
  refine EndsSolid.intercalate (by simpa using hne) fun part hpart => ?_
  obtain ⟨option, hoption, rfl⟩ := List.mem_map.mp hpart
  exact (endsSolid_text (h.value option hoption)).append _

/-- The text of options begins with the first character of a key. -/
theorem exists_bareText (h : CanonicalOptions plain depth options) (hne : options ≠ []) :
    ∃ c cs, bareText options = c :: cs ∧ isWordChar c = true := by
  cases options with
  | nil => exact absurd rfl hne
  | cons option options =>
    obtain ⟨hkey, hword⟩ := h.word option List.mem_cons_self
    cases hcs : option.1.toList with
    | nil => exact absurd hcs hkey
    | cons c cs =>
      refine ⟨c, cs ++ ([':', ' '] ++ option.2.labelled.text) ++ optionsText options, ?_,
        hword c (by rw [hcs]; exact List.mem_cons_self)⟩
      rw [bareText_cons, optionText, KeyForm.text, hcs]
      simp

/-- What is left of options between white space. -/
theorem trim_bareText (h : CanonicalOptions plain depth options) {front back : List Char}
    (hfront : ∀ c ∈ front, isBlank c = true) (hback : ∀ c ∈ back, isBlank c = true) :
    trim (front ++ (bareText options ++ back)) = bareText options := by
  by_cases hne : options = []
  · subst hne
    refine trim_of_blank fun c hc => ?_
    rcases List.mem_append.mp hc with hc | hc
    · exact hfront c hc
    · exact hback c hc
  · obtain ⟨c, cs, heq, hc⟩ := exists_bareText h hne
    have hstop : Stops isBlank (bareText options) := by
      rw [heq]
      exact stops_cons.mpr (isBlank_eq_false_of_isWordChar hc)
    exact trim_append hfront hstop (endsSolid_bareText h hne) hback

/-! ## Lines and searches -/

theorem newline_not_mem_optionsText (h : CanonicalOptions plain depth options) :
    '\n' ∉ optionsText options := by
  intro hmem
  obtain ⟨option, hoption, hc⟩ := List.mem_flatMap.mp hmem
  rcases List.mem_append.mp hc with hc | hc
  · revert hc
    decide
  · have hvalue := Value.newline_not_mem_text (h.value option hoption)
    exact newline_not_mem_optionText (h.word option hoption) hvalue hc

/-- Nothing is met in options, whatever stands before them, if nothing is met in their strings. -/
theorem silent_optionsText {p : Probe} (hp : p.Regular)
    (hplain : ∀ content, plain content → p.Mutes content)
    (h : CanonicalOptions plain depth options) (before : Option Char) {rest : List Char}
    (hrest : Follows rest) : p.Silent before (optionsText options) rest := by
  have hwords := h.word
  have hvalues := h.value
  clear h
  induction options generalizing before with
  | nil => trivial
  | cons option options ih =>
    have hfollows : Follows (optionsText options ++ rest) := by
      cases options with
      | nil => exact hrest
      | cons next options => exact follows_comma _
    refine Probe.silent_append.mpr ⟨Probe.silent_append.mpr ⟨?_, ?_⟩,
      ih _ (fun o ho => hwords o (List.mem_cons_of_mem option ho))
        (fun o ho => hvalues o (List.mem_cons_of_mem option ho))⟩
    · exact Probe.silent_marks hp (by decide) before _
    · refine Probe.silent_append.mpr ⟨silent_key hp (hwords option List.mem_cons_self) _ _, ?_⟩
      exact Value.silent_text hp hplain (hvalues option List.mem_cons_self) _ hfollows

end Dump

/-! ## Reading back -/

open Dump

/-- The text of options, with or without white space around it, is read back. -/
theorem parseOptions_text {plain : String → Prop} {settings : Settings} {options : Options}
    (h : CanonicalOptions plain settings.maxDepth options) {cs : List Char}
    (hcs : trim cs = bareText options) :
    parseOptions settings (String.ofList cs) = optionsUnder settings.arrayFilter options := by
  have hstrip : stripOuter '\x7b' '\x7d' (bareText options) = bareText options := by
    by_cases hne : options = []
    · rw [hne]
      rfl
    · obtain ⟨c, cs, heq, hc⟩ := exists_bareText h hne
      rw [heq]
      exact stripOuter_of_head?_ne (by simpa using ne_of_class hc (by decide))
  have hread : Literal.entries settings.maxDepth (bareText options) =
      ⟨options.map fun option => (option.1, option.2.labelled.literal), none⟩ := by
    have hentries := @Literal.entries_text settings.maxDepth
      (options.map fun option => (KeyForm.label, option.1, option.2.labelled)) ?_ ?_
    · rw [List.map_map, List.map_map] at hentries
      exact hentries
    · intro entry hentry
      obtain ⟨option, hoption, rfl⟩ := List.mem_map.mp hentry
      exact ⟨h.word option hoption, h.writable hoption⟩
    · intro entry hentry rest hrest
      obtain ⟨option, hoption, rfl⟩ := List.mem_map.mp hentry
      refine Literal.read?_text (h.writable hoption) ?_ hrest
      rw [Value.value_labelled]
      exact h.depth_le option hoption
  have hkeys : OrderedMap.keys (optionsUnder settings.arrayFilter options) =
      OrderedMap.keys options := by
    simp [OrderedMap.keys, optionsUnder, Function.comp_def]
  rw [parseOptions, Literal.hashText, String.toList_ofList, hcs, hstrip, hread,
    Literal.entryValues_eq_map, List.map_map]
  exact OrderedMap.ofEntries_of_nodup (by
    show (OrderedMap.keys (optionsUnder settings.arrayFilter options)).Nodup
    rw [hkeys]
    exact h.nodup)

end RailsSchema
