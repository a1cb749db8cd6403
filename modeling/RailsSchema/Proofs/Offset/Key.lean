import RailsSchema.Proofs.Literal.Spelling

/-!
# Keys, all or nothing

A key is taken piece by piece, and the last piece may be missing after the others have been passed:
the closing quote, the arrow, or the one colon that has no other behind it. `Offset.passKey` is the
way through the pieces, which ends where a piece is missing, and `Offset.takeKey` goes back to the
start from there.

* `Literal.HasKey`: the four forms of a key in front of a text;
  `Literal.key?_eq_some_iff_hasKey`: these are read, and nothing else;
* `Offset.key_eq_passKey`, `Offset.takeKey_offsetOf`: the program by offsets that remembers where it
  began finds what the others find;
* `Offset.takeKey_hasKey`: it takes a key with all white space behind it, or nothing.
-/

namespace RailsSchema

open Text

namespace Literal

/-- Whether a text begins with a key and an arrow or a colon, with `behind` following these. -/
inductive HasKey : (key behind cs : List Char) → Prop where
  | quoted {q : Char} {key blanks behind : List Char} (hq : q = '"' ∨ q = '\'') (hkey : q ∉ key)
      (hblanks : ∀ c ∈ blanks, isBlank c = true) :
      HasKey key behind (q :: (key ++ q :: (blanks ++ '=' :: '>' :: behind)))
  /-- The key is a run of word characters as long as possible, as it is in the last form. -/
  | symbol {key blanks behind : List Char} (hkey : IsWord key)
      (hstop : Stops isWordChar (blanks ++ '=' :: '>' :: behind))
      (hblanks : ∀ c ∈ blanks, isBlank c = true) :
      HasKey key behind (':' :: (key ++ (blanks ++ '=' :: '>' :: behind)))
  | label {key behind : List Char} (hkey : IsWord key) (hstop : Stops isWordChar (':' :: behind))
      (hcolon : behind.head? ≠ some ':') : HasKey key behind (key ++ ':' :: behind)

variable {key cs rest : List Char}

theorem isQuote_iff {c : Char} : isQuote c = true ↔ c = '"' ∨ c = '\'' := by
  simp [isQuote]

/-- The forms of keys are what spells a key, up to the white space in front of the value. -/
theorem hasKey_iff_spellsKey :
    (∃ behind, HasKey key behind cs ∧ rest = trimStart behind) ↔
      ∃ taken, cs = taken ++ rest ∧ SpellsKey taken rest.head? key ∧ Stops isBlank rest := by
  have hsplit : ∀ behind : List Char, behind = behind.takeWhile isBlank ++ trimStart behind :=
    fun behind => List.takeWhile_append_dropWhile.symm
  have hrun : ∀ behind : List Char, ∀ c ∈ behind.takeWhile isBlank, isBlank c = true :=
    fun behind c hc => List.mem_takeWhile_imp hc
  constructor
  · rintro ⟨behind, hkey, rfl⟩
    have hstop : Stops isBlank (trimStart behind) := stops_dropWhile isBlank behind
    cases hkey with
    | @quoted q _ blanks _ hq hkey hblanks =>
      refine ⟨_, ?_, .quoted (isQuote_iff.mpr hq) hkey hblanks (hrun behind), hstop⟩
      conv_lhs => rw [hsplit behind]
      simp
    | @symbol _ blanks _ hkey _ hblanks =>
      refine ⟨_, ?_, .symbol hkey hblanks (hrun behind), hstop⟩
      conv_lhs => rw [hsplit behind]
      simp
    | label hkey _ hcolon =>
      refine ⟨_, ?_, .label hkey (hrun behind) ?_, hstop⟩
      · conv_lhs => rw [hsplit behind]
        simp
      · intro hnil
        rwa [hsplit behind, hnil, List.nil_append] at hcolon
  · rintro ⟨taken, rfl, hspells, hstop⟩
    cases hspells with
    | @quoted _ q _ blanks blanks' hq hkey hblanks hblanks' =>
      refine ⟨blanks' ++ rest, ?_, (trimStart_append hblanks' hstop).symm⟩
      simpa using HasKey.quoted (isQuote_iff.mp hq) hkey hblanks
    | @symbol _ _ blanks blanks' hkey hblanks hblanks' =>
      refine ⟨blanks' ++ rest, ?_, (trimStart_append hblanks' hstop).symm⟩
      simpa using HasKey.symbol hkey (stops_arrow hblanks (blanks' ++ rest)) hblanks
    | @label _ _ blanks hkey hblanks hcolon =>
      refine ⟨blanks ++ rest, ?_, (trimStart_append hblanks hstop).symm⟩
      have hone : (blanks ++ rest).head? ≠ some ':' := by
        cases blanks with
        | nil => exact hcolon rfl
        | cons c blanks =>
          intro heq
          cases heq
          exact absurd (hblanks ':' List.mem_cons_self) (by decide)
      simpa using HasKey.label hkey (stops_cons.mpr (by decide)) hone

/-- Exactly the four forms are read as keys, and reading goes on behind all white space. -/
theorem key?_eq_some_iff_hasKey :
    key? cs = some (key, rest) ↔ ∃ behind, HasKey key behind cs ∧ rest = trimStart behind :=
  key?_eq_some_iff.trans hasKey_iff_spellsKey.symm

end Literal

namespace Offset

/-- Passes an arrow and the white space around it; says whether there was one. -/
def passArrow (text : List Char) (pos : Nat) : Except OffsetError (Bool × Nat) := do
  let (_, next) ← eatWhile isBlank text pos
  let (found, next) ← eat ['=', '>'] text next
  if !found then return (false, next)
  let (_, next) ← eatWhile isBlank text next
  return (true, next)

/-- Passes the pieces of a key as far as they come, and says which key it is if all of them do. -/
def passKey (text : List Char) (pos : Nat) : Except OffsetError (Option (List Char) × Nat) := do
  match ← bump text pos with
  | none => return (none, pos)
  | some (c, behind) =>
    if isQuote c then
      let (name, next) ← eatWhile (· != c) text behind
      let (closed, next) ← eatChar c text next
      if !closed then return (none, next)
      let (found, next) ← passArrow text next
      return (if found then some name else none, next)
    else if c = ':' then
      let (name, next) ← eatWhile isWordChar text behind
      if name.isEmpty then return (none, next)
      let (found, next) ← passArrow text next
      return (if found then some name else none, next)
    else
      let (name, next) ← eatWhile isWordChar text pos
      if name.isEmpty then return (none, next)
      let (colon, next) ← eatChar ':' text next
      if !colon then return (none, next)
      if (← peek text next) = some ':' then return (none, next)
      let (_, next) ← eatWhile isBlank text next
      return (some name, next)

/-- Takes a key; where there is none, goes back to the start. -/
def takeKey (text : List Char) (pos : Nat) : Except OffsetError (Option (List Char) × Nat) := do
  let (found, next) ← passKey text pos
  return (found, if found.isNone then pos else next)

variable {text cs : List Char} {pos : Nat}

/-! ## The way back -/

/-- The key with the offset behind it, if there is a key. -/
def located (passed : Option (List Char) × Nat) : Option (List Char × Nat) :=
  passed.1.map fun name => (name, passed.2)

/-- An arrow behind a name, with and without the place at which a missing one is noticed. -/
theorem ifFound_arrow (name text : List Char) (pos : Nat) :
    (ifFound (arrow text pos) fun stop => return some (name, stop)) = do
      let passed ← (do
        let (found, stop) ← passArrow text pos
        return (if found then some name else none, stop))
      return located passed := by
  rw [ifFound, arrow, passArrow]
  cases eatWhile isBlank text pos with
  | error e => rfl
  | ok blanks =>
    simp only [ok_bind]
    cases eat ['=', '>'] text blanks.2 with
    | error e => rfl
    | ok found =>
      obtain ⟨found, next⟩ := found
      cases found with
      | false => rfl
      | true =>
        simp only [ok_bind, Bool.not_true, Bool.false_eq_true, if_false]
        cases eatWhile isBlank text next <;> rfl

/-- The search that knows only of the keys it has found takes the same way. -/
theorem key_eq_passKey (text : List Char) (pos : Nat) :
    key text pos = do
      let passed ← passKey text pos
      return located passed := by
  rw [key, ifFound, passKey]
  cases bump text pos with
  | error e => rfl
  | ok first =>
  cases first with
  | none => rfl
  | some first =>
  obtain ⟨c, behind⟩ := first
  simp only [ok_bind]
  split_ifs with hquote hcolon
  · rw [ifFound, untilQuote]
    cases eatWhile (· != c) text behind with
    | error e => rfl
    | ok run =>
      simp only [ok_bind]
      cases eatChar c text run.2 with
      | error e => rfl
      | ok closed =>
        obtain ⟨closed, next⟩ := closed
        cases closed with
        | false => rfl
        | true => exact ifFound_arrow run.1 text next
  · cases eatWhile isWordChar text behind with
    | error e => rfl
    | ok run =>
      simp only [ok_bind]
      cases run.1.isEmpty with
      | true => rfl
      | false => exact ifFound_arrow run.1 text run.2
  · cases eatWhile isWordChar text pos with
    | error e => rfl
    | ok run =>
      simp only [ok_bind]
      cases run.1.isEmpty with
      | true => rfl
      | false =>
        simp only [Bool.false_eq_true, if_false]
        cases eatChar ':' text run.2 with
        | error e => rfl
        | ok colon =>
          obtain ⟨colon, next⟩ := colon
          cases colon with
          | false => rfl
          | true =>
            simp only [ok_bind, Bool.not_true, Bool.false_eq_true, if_false]
            cases peek text next with
            | error e => rfl
            | ok second =>
              simp only [ok_bind]
              split_ifs with hsecond
              · rfl
              · cases eatWhile isBlank text next <;> rfl

theorem takeKey_offsetOf (h : cs <:+ text) :
    takeKey text (offsetOf text cs) =
      .ok (match Literal.key? cs with
        | some (name, rest) => (some name, offsetOf text rest)
        | none => (none, offsetOf text cs)) := by
  have hkey := key_offsetOf h
  rw [key_eq_passKey] at hkey
  rw [takeKey]
  cases hpass : passKey text (offsetOf text cs) with
  | error e =>
    rw [hpass] at hkey
    cases hkey
  | ok passed =>
    obtain ⟨found, stop⟩ := passed
    rw [hpass] at hkey
    simp only [ok_bind, pure_eq_ok, Except.ok.injEq, located] at hkey ⊢
    cases found with
    | none =>
      rw [Option.map_none, eq_comm, Option.map_eq_none_iff] at hkey
      rw [hkey]
      rfl
    | some name =>
      rw [Option.map_some, eq_comm, Option.map_eq_some_iff] at hkey
      obtain ⟨⟨name', rest⟩, hread, heq⟩ := hkey
      cases heq
      rw [hread]
      rfl

/-- At every place a key is taken or nothing. A key is taken just where the text has one of the four
forms, and the cursor then stands further on, behind all white space after the arrow or the colon;
where nothing is taken it stands where it stood. -/
theorem takeKey_hasKey {text cs : List Char} {pos : Nat} (hplace : dropBytes pos text = .ok cs) :
    (∃ found stop, takeKey text pos = .ok (found, stop)) ∧
    (∀ key, (∃ stop, takeKey text pos = .ok (some key, stop)) ↔
      ∃ behind, Literal.HasKey key behind cs) ∧
    (∀ key stop, takeKey text pos = .ok (some key, stop) →
      pos < stop ∧ ∃ behind, Literal.HasKey key behind cs ∧
        dropBytes stop text = .ok (trimStart behind) ∧
        Literal.key? cs = some (key, trimStart behind)) ∧
    (∀ stop, takeKey text pos = .ok (none, stop) → stop = pos ∧ Literal.key? cs = none) := by
  obtain ⟨hcs, rfl⟩ := dropBytes_eq_ok_iff_offsetOf.mp hplace
  have htake := takeKey_offsetOf hcs
  cases hread : Literal.key? cs with
  | none =>
    rw [hread] at htake
    refine ⟨⟨_, _, htake⟩, fun key => ⟨?_, ?_⟩, ?_, ?_⟩
    · rintro ⟨stop, hstop⟩
      rw [htake] at hstop
      cases hstop
    · rintro ⟨behind, hkey⟩
      rw [Literal.key?_eq_some_iff_hasKey.mpr ⟨behind, hkey, rfl⟩] at hread
      cases hread
    · intro key stop hstop
      rw [htake] at hstop
      cases hstop
    · intro stop hstop
      rw [htake] at hstop
      cases hstop
      exact ⟨rfl, rfl⟩
  | some found =>
    obtain ⟨name, rest⟩ := found
    rw [hread] at htake
    have hend := Literal.isProperEnd_of_key? hread
    obtain ⟨behind, hkey, rfl⟩ := Literal.key?_eq_some_iff_hasKey.mp hread
    refine ⟨⟨_, _, htake⟩, fun key => ⟨?_, ?_⟩, ?_, ?_⟩
    · rintro ⟨stop, hstop⟩
      rw [htake] at hstop
      cases hstop
      exact ⟨behind, hkey⟩
    · rintro ⟨behind', hkey'⟩
      have hread' := Literal.key?_eq_some_iff_hasKey.mpr ⟨behind', hkey', rfl⟩
      rw [hread, Option.some.injEq, Prod.mk.injEq] at hread'
      exact ⟨_, hread'.1 ▸ htake⟩
    · intro key stop hstop
      rw [htake] at hstop
      cases hstop
      exact ⟨offsetOf_lt_offsetOf hend hcs, behind, hkey,
        dropBytes_offsetOf (hend.1.trans hcs), rfl⟩
    · intro stop hstop
      rw [htake] at hstop
      cases hstop

/-- A key at the offset 0, and a name with two colons at the offset 8. -/
def keyThenNone : List Char := "né: 1, a::b".toList

/-- The quoted name has been passed before its arrow is missed. -/
example : passKey "'é' = ".toList 0 = .ok (none, 5) := by cbv

theorem takeKey_hasKey_colons :
    dropBytes 0 keyThenNone = .ok keyThenNone ∧ dropBytes 8 keyThenNone = .ok "a::b".toList ∧
    (∃ stop, takeKey keyThenNone 0 = .ok (some "né".toList, stop)) ∧
    takeKey keyThenNone 8 = .ok (none, 8) := by
  have hfirst : dropBytes 0 keyThenNone = .ok keyThenNone := rfl
  have hsecond : dropBytes 8 keyThenNone = .ok "a::b".toList := by decide
  refine ⟨hfirst, hsecond, ?_, ?_⟩
  · refine ((takeKey_hasKey hfirst).2.1 "né".toList).mpr ⟨" 1, a::b".toList, ?_⟩
    exact .label (by decide) (stops_cons.mpr (by decide)) (by decide)
  · obtain ⟨⟨found, stop, htake⟩, -, hfound, hnone⟩ := takeKey_hasKey hsecond
    cases found with
    | none => rw [htake, (hnone stop htake).1]
    | some name =>
      obtain ⟨-, behind, -, -, hread⟩ := hfound name stop htake
      have hnokey : Literal.key? "a::b".toList = none := by decide
      rw [hnokey] at hread
      cases hread

end Offset

end RailsSchema
