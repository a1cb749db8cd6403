import RailsSchema.Proofs.Literal.Locality
import RailsSchema.Proofs.Literal.Truncation

/-!
# Literals and groups in another place

A literal is read from its own characters. What stands in front of it counts for its offsets only,
and of what stands behind it the first character counts, and this for bare tokens only. So it is
with groups, for which nothing behind them counts.

* `Literal.Spells.beforeAny`: all literals but bare tokens are spelled in front of any text;
* `Literal.read?_replace`: a literal is read again in front of another text;
* `parseValue_placed`: what is read and found at a place of a text is read and found where the rest
  of the text stands behind and in front of other texts.
-/

namespace RailsSchema

open Text

/-- Whether a value is written as a bare token. -/
def Value.IsBare (value : Value) : Prop :=
  value.kind = .numeric ∨ value.kind = .symbol ∨ value.kind = .keyword

namespace Literal

theorem isBare_ofToken (marked : Bool) (token : List Char) (filter : ArrayFilter) :
    ((ofToken marked token).value filter).IsBare := by
  unfold ofToken
  split
  · exact .inr (.inr rfl)
  · split
    · exact .inl rfl
    · exact .inr (.inl rfl)

variable {room : Nat} {taken cs rest : List Char} {l : Literal}

/-- What is no bare token ends with a character of its own. -/
theorem Spells.beforeAny {next : Option Char} (h : Spells room taken next l)
    {filter : ArrayFilter} (hbare : ¬ (l.value filter).IsBare) (next' : Option Char) :
    Spells room taken next' l := by
  cases h with
  | quoted hq h => exact .quoted hq h
  | callable hblanks hbody => exact .callable hblanks hbody
  | group hgroup hrest => exact .group hgroup hrest
  | token => exact absurd (isBare_ofToken _ _ filter) hbare
  | marked => exact absurd (isBare_ofToken _ _ filter) hbare

/-- A literal is read again in front of another text, if the text can replace the one that it was
read in front of or the literal is no bare token. -/
theorem read?_replace (h : read? room cs = some (l, rest)) :
    ∃ taken, cs = taken ++ rest ∧ ∀ (rest' : List Char) (filter : ArrayFilter),
      CanReplace rest' rest ∨ ¬ (l.value filter).IsBare →
        read? room (taken ++ rest') = some (l, rest') := by
  obtain ⟨blanks, taken, rfl, hblanks, hspells⟩ := read?_eq_some_iff.mp h
  refine ⟨blanks ++ taken, (List.append_assoc _ _ _).symm, fun rest' filter hrest' => ?_⟩
  have hspells' : Spells room taken rest'.head? l := by
    rcases hrest' with hrest' | hbare
    · exact hspells.withNext hrest'
    · exact hspells.beforeAny hbare _
  rw [List.append_assoc]
  exact read?_eq_some_iff.mpr ⟨blanks, taken, rfl, hblanks, hspells'⟩

end Literal

/-! ## Texts -/

variable {front cs : List Char}

/-- The offset behind some characters, wherever they stand. -/
theorem offsetOf_taken (front taken rest : List Char) :
    offsetOf (front ++ (taken ++ rest)) rest = byteLength front + byteLength taken := by
  rw [← List.append_assoc, offsetOf_append, byteLength_append]

/-- What takes some bytes behind one text takes as many behind another. -/
theorem add_taken_sub (before front taken : Nat) :
    before + (front + taken) - front = before + taken := by
  omega

theorem parseValue_between {settings : Settings} {value : Value} {stop : Nat}
    (before : List Char) {more : List Char}
    (h : parseValue settings (front ++ cs) (byteLength front) = .ok (some (value, stop)))
    (hmore : stop < byteLength (front ++ cs) ∨ Stops Literal.isTokenChar more ∨ ¬ value.IsBare) :
    byteLength front ≤ stop ∧
    parseValue settings (before ++ (cs ++ more)) (byteLength before) =
      .ok (some (value, byteLength before + stop - byteLength front)) := by
  rw [parseValue_append, Except.ok.injEq, Option.map_eq_some_iff] at h
  obtain ⟨⟨l, rest⟩, hread, heq⟩ := h
  cases heq
  obtain ⟨taken, rfl, hagain⟩ := Literal.read?_replace hread
  have hrest : Literal.CanReplace (rest ++ more) rest ∨
      ¬ (l.value settings.arrayFilter).IsBare := by
    rcases hmore with hlt | hstops | hbare
    · refine .inl (Literal.canReplace_append (.inl ?_))
      rintro rfl
      rw [offsetOf_nil] at hlt
      exact Nat.lt_irrefl _ hlt
    · exact .inl (Literal.canReplace_append (.inr hstops))
    · exact .inr hbare
  have hread' := hagain (rest ++ more) settings.arrayFilter hrest
  rw [List.append_assoc, parseValue_append, hread', Option.map_some]
  simp only [offsetOf_taken, add_taken_sub]
  exact ⟨Nat.le_add_right _ _, trivial⟩

theorem groupEnd?_between {stop : Nat} (before more : List Char)
    (h : groupEnd? (front ++ cs) (byteLength front) = .ok (some stop)) :
    byteLength front ≤ stop ∧
    groupEnd? (before ++ (cs ++ more)) (byteLength before) =
      .ok (some (byteLength before + stop - byteLength front)) := by
  rw [groupEnd?_append, Except.ok.injEq, Option.map_eq_some_iff] at h
  obtain ⟨group, hgroup, rfl⟩ := h
  refine ⟨Nat.le_add_right _ _, ?_⟩
  rw [groupEnd?_append, group?_append hgroup more, Option.map_some, add_taken_sub]
  rfl

/-- What is read at a place of a text is read again, over the same number of bytes, where the rest of
the text stands behind another text and has more text behind it: always if the literal ends before
the text does or is no bare token, and else if the text behind begins with no token character. The
end of a bracket group is found again whatever stands in front of the group and behind it. -/
theorem parseValue_placed {text cs : List Char} {start : Nat}
    (hplace : dropBytes start text = .ok cs) (settings : Settings) :
    (∀ value stop, parseValue settings text start = .ok (some (value, stop)) →
      start ≤ stop ∧ ∀ before more : List Char,
        (stop < byteLength text ∨ more = [] ∨ Stops Literal.isTokenChar more ∨ ¬ value.IsBare) →
          parseValue settings (before ++ (cs ++ more)) (byteLength before) =
            .ok (some (value, byteLength before + stop - start))) ∧
    (∀ stop, groupEnd? text start = .ok (some stop) →
      start ≤ stop ∧ ∀ before more : List Char,
        groupEnd? (before ++ (cs ++ more)) (byteLength before) =
          .ok (some (byteLength before + stop - start))) := by
  obtain ⟨front, rfl, rfl⟩ := dropBytes_eq_ok_iff.mp hplace
  constructor
  · intro value stop hread
    refine ⟨(parseValue_between [] hread (.inr (.inl (stops_nil _)))).1, ?_⟩
    intro before more hmore
    refine (parseValue_between before hread ?_).2
    rcases hmore with hlt | rfl | hmore
    · exact .inl hlt
    · exact .inr (.inl (stops_nil _))
    · exact .inr hmore
  · intro stop hend
    exact ⟨(groupEnd?_between [] [] hend).1,
      fun before more => (groupEnd?_between before more hend).2⟩

/-- A list behind three bytes, at the end of a text. -/
def listAtEnd : List Char := "a: [1]".toList

theorem parseValue_placed_list :
    dropBytes 3 listAtEnd = .ok "[1]".toList ∧
    parseValue {} listAtEnd 3 = .ok (some (.array [.numeric "1"], 6)) ∧
    groupEnd? listAtEnd 3 = .ok (some 6) ∧
    parseValue {} ("né ".toList ++ ("[1]".toList ++ "x".toList)) (byteLength "né ".toList) =
      .ok (some (.array [.numeric "1"], byteLength "né ".toList + 6 - 3)) ∧
    groupEnd? ("né ".toList ++ ("[1]".toList ++ "x".toList)) (byteLength "né ".toList) =
      .ok (some (byteLength "né ".toList + 6 - 3)) := by
  have hplace : dropBytes 3 listAtEnd = .ok "[1]".toList := by decide
  have hread : parseValue {} listAtEnd 3 = .ok (some (.array [.numeric "1"], 6)) := by cbv
  have hend : groupEnd? listAtEnd 3 = .ok (some 6) := by decide
  have hbare : ¬ (Value.array [.numeric "1"]).IsBare := by
    rintro (h | h | h) <;> cases h
  obtain ⟨hplaced, hgroup⟩ := parseValue_placed hplace {}
  exact ⟨hplace, hread, hend,
    (hplaced _ _ hread).2 "né ".toList "x".toList (.inr (.inr (.inr hbare))),
    (hgroup _ hend).2 "né ".toList "x".toList⟩

end RailsSchema
