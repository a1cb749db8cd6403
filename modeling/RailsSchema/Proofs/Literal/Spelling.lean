import RailsSchema.Proofs.Literal.Scalars
import RailsSchema.Proofs.Literal.Sound
import RailsSchema.Proofs.Offset.Literal
import RailsSchema.Proofs.Text.Language

/-!
# How literals and keys are spelled

Which characters a literal is read from is said here without reference to the order in which the
reader tries its forms. A quoted text, a callable and a group end with a character of their own. A
bare token ends where no token character follows, so one character behind it can matter, and no
more than one: `Spells room taken next l` says that the text `taken` spells the literal `l` when the
character `next` follows. The same is done for keys with `SpellsKey`, where the next character
decides whether a colon is the first of two.

* `read?_eq_some_iff`: what is read is spelled by the text that was taken, behind white space, and
  all that is spelled is read;
* `Spells.endsSolid`: no spelling ends with white space;
* `key?_eq_some_iff`: so it is with keys.
-/

namespace RailsSchema

open Text

/-! ## Runs and groups -/

namespace Text

theorem untilQuote?_eq_some_iff {q : Char} {cs inner rest : List Char} :
    untilQuote? q cs = some (inner, rest) ↔ cs = inner ++ q :: rest ∧ q ∉ inner := by
  constructor
  · intro h
    refine ⟨eq_of_untilQuote? h, ?_⟩
    unfold untilQuote? at h
    split at h
    · cases h
    · cases h
      intro hmem
      simpa using List.mem_takeWhile_imp hmem
  · rintro ⟨rfl, hq⟩
    exact Literal.untilQuote?_append hq rest

end Text

namespace Literal

/-! ## Literals -/

/-- Whether a text is a token, without a colon in front. -/
def IsToken (cs : List Char) : Prop := cs ≠ [] ∧ ∀ c ∈ cs, isTokenChar c = true

/-- Whether a text spells a literal in front of the character `next`, or at the end of a text, when
lists and maps may be nested `room` deep. -/
inductive Spells : (room : Nat) → (taken : List Char) → (next : Option Char) → Literal → Prop where
  | quoted {room : Nat} {next : Option Char} {q : Char} {inner : List Char}
      (hq : isQuote q = true) (h : q ∉ inner) :
      Spells room (q :: (inner ++ [q])) next (.str (String.ofList inner))
  | callable {room : Nat} {next : Option Char} {blanks body inner : List Char}
      (hblanks : ∀ c ∈ blanks, isBlank c = true) (hbody : group? body = some ⟨.curly, inner, []⟩) :
      Spells room ('-' :: '>' :: (blanks ++ body)) next
        (.callable (String.ofList ('-' :: '>' :: (blanks ++ body))))
  | group {room : Nat} {next : Option Char} {taken : List Char} {g : Group}
      (hgroup : group? taken = some g) (hrest : g.rest = []) :
      Spells (room + 1) taken next (ofGroup (reader room) g)
  /-- A token that is neither the beginning of a quoted text nor that of a callable. -/
  | token {room : Nat} {next : Option Char} {token : List Char} (h : IsToken token)
      (hquote : token.head? ≠ some '\'') (harrow : ¬ ['-', '>'] <+: token)
      (hnext : ∀ c ∈ next, isTokenChar c = false) :
      Spells room token next (ofToken false token)
  | marked {room : Nat} {next : Option Char} {token : List Char} (h : IsToken token)
      (hnext : ∀ c ∈ next, isTokenChar c = false) :
      Spells room (':' :: token) next (ofToken true token)

namespace Spells

variable {room : Nat} {taken : List Char} {next : Option Char} {l : Literal}

/-- Another character may follow if it is no token character. -/
theorem withNext (h : Spells room taken next l) {next' : Option Char}
    (hnext : (∀ c ∈ next', isTokenChar c = false) ∨ next' = next) : Spells room taken next' l := by
  rcases hnext with hstop | rfl
  · cases h with
    | quoted hq h => exact .quoted hq h
    | callable hblanks hbody => exact .callable hblanks hbody
    | group hgroup hrest => exact .group hgroup hrest
    | token h hquote harrow _ => exact .token h hquote harrow hstop
    | marked h _ => exact .marked h hstop
  · exact h

theorem endsSolid (h : Spells room taken next l) : EndsSolid taken := by
  have htoken : ∀ {token}, IsToken token → EndsSolid token := by
    intro token h
    exact .of_forall h.1 fun c hc => isBlank_of_isTokenChar (h.2 c hc)
  cases h with
  | @quoted _ _ q inner hq h =>
    refine ⟨q :: inner, q, rfl, ?_⟩
    simp only [isQuote, Bool.or_eq_true, beq_iff_eq] at hq
    rcases hq with rfl | rfl <;> decide
  | @callable _ _ blanks body inner hblanks hbody =>
    have hbody : EndsSolid body := by
      rw [text_of_group? hbody rfl]
      exact endsSolid_group _
    exact hbody.append ('-' :: '>' :: blanks)
  | group hgroup hrest =>
    rw [text_of_group? hgroup hrest]
    exact endsSolid_group _
  | token h _ _ _ => exact htoken h
  | marked h _ => exact (htoken h).append [':']

end Spells

/-! ### What is read is spelled -/

variable {room : Nat} {cs rest : List Char} {l : Literal}

theorem exists_of_token? {marked : Bool} (h : token? marked cs = some (l, rest)) :
    ∃ token, cs = token ++ rest ∧ IsToken token ∧ l = ofToken marked token ∧
      Stops isTokenChar rest := by
  unfold token? at h
  split at h
  · cases h
  · next hne =>
    cases h
    refine ⟨cs.takeWhile isTokenChar, ?_, ⟨hne, ?_⟩, rfl, stops_dropWhile _ _⟩
    · exact List.takeWhile_append_dropWhile.symm
    · intro c hc
      exact List.mem_takeWhile_imp hc

theorem spells_of_quoted? {q : Char} (hq : isQuote q = true) (room : Nat)
    (h : quoted? q cs = some (l, rest)) :
    ∃ taken, q :: cs = taken ++ rest ∧ Spells room taken rest.head? l := by
  obtain ⟨⟨inner, behind⟩, hinner, heq⟩ := Option.map_eq_some_iff.mp h
  cases heq
  obtain ⟨rfl, hmem⟩ := untilQuote?_eq_some_iff.mp hinner
  exact ⟨q :: (inner ++ [q]), by simp, .quoted hq hmem⟩

theorem spells_of_callable? (room : Nat)
    (h : callable? ('-' :: '>' :: cs) cs = some (l, rest)) :
    ∃ taken, '-' :: '>' :: cs = taken ++ rest ∧ Spells room taken rest.head? l := by
  unfold callable? at h
  split at h
  · next inner behind hgroup =>
    cases h
    have hblanks : ∀ c ∈ cs.takeWhile isBlank, isBlank c = true := fun c hc =>
      List.mem_takeWhile_imp hc
    have hcs : cs = cs.takeWhile isBlank ++ (Group.text ⟨.curly, inner, rest⟩ ++ rest) := by
      conv_lhs => rw [← List.takeWhile_append_dropWhile (p := isBlank) (l := cs)]
      exact congrArg _ (Group.eq_text_append hgroup)
    generalize cs.takeWhile isBlank = blanks at hblanks hcs
    have htaken : '-' :: '>' :: cs =
        ('-' :: '>' :: (blanks ++ Group.text ⟨.curly, inner, rest⟩)) ++ rest := by
      rw [hcs]
      simp
    refine ⟨_, htaken, ?_⟩
    rw [htaken, upTo_append]
    exact .callable hblanks (group?_text hgroup)
  · cases h

theorem spells_of_scalar? (room : Nat) (h : scalar? cs = some (l, rest)) :
    ∃ taken, cs = taken ++ rest ∧ Spells room taken rest.head? l := by
  unfold scalar? at h
  split at h
  · exact spells_of_quoted? (by decide) room h
  · exact spells_of_quoted? (by decide) room h
  · exact spells_of_callable? room h
  · next hdouble hsingle harrow =>
    unfold bare? at h
    split at h
    · obtain ⟨token, rfl, htoken, rfl, hrest⟩ := exists_of_token? h
      exact ⟨':' :: token, rfl, .marked htoken hrest⟩
    · obtain ⟨token, rfl, htoken, rfl, hrest⟩ := exists_of_token? h
      refine ⟨token, rfl, .token htoken ?_ ?_ hrest⟩
      · intro hquote
        obtain ⟨behind, rfl⟩ := List.head?_eq_some_iff.mp hquote
        exact hsingle _ rfl
      · rintro ⟨behind, rfl⟩
        exact harrow _ rfl

/-! ### What is spelled is read -/

theorem scalar?_of_isToken {token : List Char} (h : IsToken token)
    (hquote : token.head? ≠ some '\'') (harrow : ¬ ['-', '>'] <+: token)
    (hrest : Stops isTokenChar rest) :
    scalar? (token ++ rest) = some (ofToken false token, rest) := by
  have hread := token?_append false h.1 h.2 hrest
  cases token with
  | nil => exact absurd rfl h.1
  | cons c token =>
    have hc := h.2 c List.mem_cons_self
    unfold scalar?
    split
    · next heq =>
      cases heq
      exact absurd hc (by decide)
    · next heq =>
      cases heq
      exact absurd rfl hquote
    · next heq =>
      -- an arrow would begin in the token and end behind it
      obtain ⟨rfl, htail⟩ := List.cons.inj heq
      cases token with
      | nil =>
        have hbehind : rest = '>' :: _ := htail
        rw [hbehind, stops_cons] at hrest
        exact absurd hrest (by decide)
      | cons d token =>
        obtain ⟨rfl, -⟩ := List.cons.inj htail
        exact absurd ⟨token, rfl⟩ harrow
    · unfold bare?
      split
      · next heq =>
        cases heq
        exact absurd hc (by decide)
      · exact hread

theorem read?_of_spells {taken : List Char} (h : Spells room taken rest.head? l) :
    read? room (taken ++ rest) = some (l, rest) := by
  cases h with
  | @quoted _ _ q inner hq h =>
    have hread : quoted? q (inner ++ q :: rest) = some (.str (String.ofList inner), rest) := by
      unfold quoted?
      rw [untilQuote?_append h, Option.map_some]
    rw [List.cons_append, List.append_assoc, List.singleton_append]
    simp only [isQuote, Bool.or_eq_true, beq_iff_eq] at hq
    rcases hq with rfl | rfl
    · exact read?_of_scalar? (by decide) (by decide) hread
    · exact read?_of_scalar? (by decide) (by decide) hread
  | @callable _ _ blanks body inner hblanks hbody =>
    have hbehind : group? (body ++ rest) = some ⟨.curly, inner, rest⟩ := group?_append hbody rest
    have htrim : trimStart (blanks ++ (body ++ rest)) = body ++ rest := by
      apply trimStart_append hblanks
      rw [text_of_group? hbody rfl]
      exact Group.stops_text _ rest
    have hread : callable? ('-' :: '>' :: (blanks ++ body) ++ rest) (blanks ++ (body ++ rest)) =
        some (.callable (String.ofList ('-' :: '>' :: (blanks ++ body))), rest) := by
      unfold callable?
      rw [htrim, hbehind]
      simp only [upTo_append]
    rw [List.cons_append, List.cons_append, List.append_assoc] at hread ⊢
    exact read?_of_scalar? (by decide) (by decide) hread
  | @group room _ _ g hgroup hrest =>
    have hread := read?_of_group? (group?_append hgroup rest) room
    rw [hrest] at hread
    rw [hread]
    rfl
  | @token _ _ _ h hquote harrow hnext =>
    have hread := scalar?_of_isToken h hquote harrow hnext
    cases taken with
    | nil => exact absurd rfl h.1
    | cons c token =>
      have hc := h.2 c List.mem_cons_self
      exact read?_of_scalar? (isBlank_of_isTokenChar hc) (ofOpening?_of_isTokenChar hc) hread
  | @marked _ _ token h hnext =>
    exact read?_of_scalar? (by decide) (by decide) (token?_append true h.1 h.2 hnext)

/-- A literal is read where it is spelled, behind white space. -/
theorem read?_eq_some_iff :
    read? room cs = some (l, rest) ↔
      ∃ blanks taken, cs = blanks ++ (taken ++ rest) ∧ (∀ c ∈ blanks, isBlank c = true) ∧
        Spells room taken rest.head? l := by
  constructor
  · intro h
    refine read?_induction (motive := fun room cs l rest =>
      ∃ blanks taken, cs = blanks ++ (taken ++ rest) ∧ (∀ c ∈ blanks, isBlank c = true) ∧
        Spells room taken rest.head? l) ?_ ?_ ?_ room cs l rest h
    · intro room cs l rest hscalar
      obtain ⟨taken, hcs, hspells⟩ := spells_of_scalar? room hscalar
      exact ⟨[], taken, hcs, List.forall_mem_nil _, hspells⟩
    · intro room cs g hgroup _
      have hspells : Spells (room + 1) g.text g.rest.head?
          (ofGroup (reader room) { g with rest := [] }) := .group (group?_text hgroup) rfl
      exact ⟨[], g.text, Group.eq_text_append hgroup, List.forall_mem_nil _, hspells⟩
    · rintro room cs l rest ⟨blanks, taken, hcs, hblanks, hspells⟩
      refine ⟨cs.takeWhile isBlank ++ blanks, taken, ?_, ?_, hspells⟩
      · rw [List.append_assoc, ← hcs]
        exact List.takeWhile_append_dropWhile.symm
      · intro c hc
        rcases List.mem_append.mp hc with hc | hc
        · exact List.mem_takeWhile_imp hc
        · exact hblanks c hc
  · rintro ⟨blanks, taken, rfl, hblanks, hspells⟩
    have htrim : trimStart (blanks ++ (taken ++ rest)) = trimStart (taken ++ rest) :=
      List.dropWhile_append_of_pos hblanks
    rw [← read?_trimStart, htrim, read?_trimStart]
    exact read?_of_spells hspells

/-! ## Keys -/

/-- Whether a text spells a key, up to the character `next` with which the value begins. -/
inductive SpellsKey : (taken : List Char) → (next : Option Char) → (key : List Char) → Prop where
  | quoted {next : Option Char} {q : Char} {key blanks blanks' : List Char}
      (hq : isQuote q = true) (h : q ∉ key) (hblanks : ∀ c ∈ blanks, isBlank c = true)
      (hblanks' : ∀ c ∈ blanks', isBlank c = true) :
      SpellsKey (q :: (key ++ q :: (blanks ++ '=' :: '>' :: blanks'))) next key
  | symbol {next : Option Char} {key blanks blanks' : List Char} (h : IsWord key)
      (hblanks : ∀ c ∈ blanks, isBlank c = true) (hblanks' : ∀ c ∈ blanks', isBlank c = true) :
      SpellsKey (':' :: (key ++ (blanks ++ '=' :: '>' :: blanks'))) next key
  /-- A word with one colon behind it, not with two. -/
  | label {next : Option Char} {key blanks : List Char} (h : IsWord key)
      (hblanks : ∀ c ∈ blanks, isBlank c = true) (hnext : blanks = [] → next ≠ some ':') :
      SpellsKey (key ++ ':' :: blanks) next key

theorem afterArrow?_eq_some_iff :
    afterArrow? cs = some rest ↔
      ∃ blanks blanks', cs = blanks ++ '=' :: '>' :: (blanks' ++ rest) ∧
        (∀ c ∈ blanks, isBlank c = true) ∧ (∀ c ∈ blanks', isBlank c = true) ∧
        Stops isBlank rest := by
  unfold afterArrow?
  constructor
  · intro h
    obtain ⟨behind, hbehind, rfl⟩ := Option.map_eq_some_iff.mp h
    refine ⟨cs.takeWhile isBlank, behind.takeWhile isBlank, ?_, ?_, ?_, stops_dropWhile _ _⟩
    · have hvalue : behind.takeWhile isBlank ++ trimStart behind = behind :=
        List.takeWhile_append_dropWhile
      have harrow : cs.dropWhile isBlank = '=' :: '>' :: behind := after?_eq_some_iff.mp hbehind
      rw [hvalue, ← harrow, List.takeWhile_append_dropWhile]
    · exact fun c hc => List.mem_takeWhile_imp hc
    · exact fun c hc => List.mem_takeWhile_imp hc
  · rintro ⟨blanks, blanks', rfl, hblanks, hblanks', hrest⟩
    rw [trimStart_append hblanks (stops_cons.mpr (by decide))]
    show Option.map trimStart (some (blanks' ++ rest)) = some rest
    rw [Option.map_some, trimStart_append hblanks' hrest]

theorem isWordChar_eq_false_of_isBlank {c : Char} (h : isBlank c = true) :
    isWordChar c = false := by
  rw [Bool.eq_false_iff]
  intro hword
  rw [isBlank_eq_false_of_isWordChar hword] at h
  cases h

/-- A word ends in front of white space and an arrow. -/
theorem stops_arrow {blanks : List Char} (hblanks : ∀ c ∈ blanks, isBlank c = true)
    (rest : List Char) : Stops isWordChar (blanks ++ '=' :: '>' :: rest) := by
  cases blanks with
  | nil => exact stops_cons.mpr (by decide)
  | cons c blanks =>
    exact stops_cons.mpr (isWordChar_eq_false_of_isBlank (hblanks c List.mem_cons_self))

variable {key : List Char}

theorem quotedKey?_eq_some_iff {q : Char} :
    quotedKey? q cs = some (key, rest) ↔
      ∃ behind, cs = key ++ q :: behind ∧ q ∉ key ∧ afterArrow? behind = some rest := by
  unfold quotedKey?
  simp only [Option.bind_eq_bind, Option.bind_eq_some_iff, Option.pure_def, Option.some.injEq]
  constructor
  · rintro ⟨⟨key', behind⟩, hquoted, rest', hafter, heq⟩
    cases heq
    obtain ⟨hcs, hq⟩ := untilQuote?_eq_some_iff.mp hquoted
    exact ⟨behind, hcs, hq, hafter⟩
  · rintro ⟨behind, hcs, hq, hafter⟩
    exact ⟨(key, behind), untilQuote?_eq_some_iff.mpr ⟨hcs, hq⟩, rest, hafter, rfl⟩

theorem symbolKey?_eq_some_iff :
    symbolKey? cs = some (key, rest) ↔
      ∃ behind, cs = key ++ behind ∧ IsWord key ∧ afterArrow? behind = some rest := by
  unfold symbolKey?
  constructor
  · intro h
    split at h
    · cases h
    · next hne =>
      obtain ⟨rest', hafter, heq⟩ := Option.map_eq_some_iff.mp h
      cases heq
      refine ⟨cs.dropWhile isWordChar, List.takeWhile_append_dropWhile.symm, ⟨hne, ?_⟩, hafter⟩
      exact fun c hc => List.mem_takeWhile_imp hc
  · rintro ⟨behind, rfl, hkey, hafter⟩
    obtain ⟨blanks, blanks', rfl, hblanks, -⟩ := afterArrow?_eq_some_iff.mp hafter
    have hstop := stops_arrow hblanks (blanks' ++ rest)
    rw [takeWhile_append_of_stops hkey.2 hstop, dropWhile_append_of_stops hkey.2 hstop, hafter]
    cases key with
    | nil => exact absurd rfl hkey.1
    | cons c key => rfl

theorem labelKey?_eq_some_iff :
    labelKey? cs = some (key, rest) ↔
      ∃ blanks, cs = key ++ ':' :: (blanks ++ rest) ∧ IsWord key ∧
        (∀ c ∈ blanks, isBlank c = true) ∧ (blanks = [] → rest.head? ≠ some ':') ∧
        Stops isBlank rest := by
  rw [Offset.labelKey?_eq]
  constructor
  · intro h
    split at h
    · cases h
    next hne =>
    obtain ⟨behind, hbehind, h⟩ := Option.bind_eq_some_iff.mp h
    split at h
    · cases h
    next hcolon =>
    cases h
    have hcs : cs = cs.takeWhile isWordChar ++ ':' :: behind := by
      conv_lhs => rw [← List.takeWhile_append_dropWhile (p := isWordChar) (l := cs)]
      exact congrArg _ (after?_eq_some_iff.mp hbehind)
    have hsplit : behind = behind.takeWhile isBlank ++ trimStart behind :=
      List.takeWhile_append_dropWhile.symm
    refine ⟨behind.takeWhile isBlank, ?_, ⟨?_, ?_⟩, ?_, ?_, stops_dropWhile _ _⟩
    · rwa [← hsplit]
    · simpa using hne
    · exact fun c hc => List.mem_takeWhile_imp hc
    · exact fun c hc => List.mem_takeWhile_imp hc
    · intro hnil
      rw [hnil, List.nil_append] at hsplit
      rwa [← hsplit]
  · rintro ⟨blanks, rfl, hkey, hblanks, hcolon, hrest⟩
    have hstop : Stops isWordChar (':' :: (blanks ++ rest)) := stops_cons.mpr (by decide)
    have hone : ¬ (blanks ++ rest).head? = some ':' := by
      cases blanks with
      | nil => exact hcolon rfl
      | cons c blanks =>
        intro heq
        cases heq
        exact absurd (hblanks ':' List.mem_cons_self) (by decide)
    have hne : ¬ key.isEmpty = true := by
      simpa using hkey.1
    rw [takeWhile_append_of_stops hkey.2 hstop, dropWhile_append_of_stops hkey.2 hstop, if_neg hne]
    show (if (blanks ++ rest).head? = some ':' then none
      else some (key, trimStart (blanks ++ rest))) = _
    rw [if_neg hone, trimStart_append hblanks hrest]

/-- A key is read where it is spelled, up to the beginning of its value. -/
theorem key?_eq_some_iff :
    key? cs = some (key, rest) ↔
      ∃ taken, cs = taken ++ rest ∧ SpellsKey taken rest.head? key ∧ Stops isBlank rest := by
  constructor
  · intro h
    cases cs with
    | nil => cases h
    | cons c cs =>
    rw [Offset.key?_cons] at h
    split at h
    · next hq =>
      obtain ⟨behind, rfl, hkey, hafter⟩ := quotedKey?_eq_some_iff.mp h
      obtain ⟨blanks, blanks', rfl, hblanks, hblanks', hrest⟩ := afterArrow?_eq_some_iff.mp hafter
      exact ⟨_, by simp, .quoted hq hkey hblanks hblanks', hrest⟩
    split at h
    · next hcolon =>
      subst hcolon
      obtain ⟨behind, rfl, hkey, hafter⟩ := symbolKey?_eq_some_iff.mp h
      obtain ⟨blanks, blanks', rfl, hblanks, hblanks', hrest⟩ := afterArrow?_eq_some_iff.mp hafter
      exact ⟨_, by simp, .symbol hkey hblanks hblanks', hrest⟩
    · obtain ⟨blanks, hcs, hkey, hblanks, hcolon, hrest⟩ := labelKey?_eq_some_iff.mp h
      exact ⟨key ++ ':' :: blanks, by simp [hcs], .label hkey hblanks hcolon, hrest⟩
  · rintro ⟨taken, rfl, hspells, hrest⟩
    cases hspells with
    | @quoted _ q _ blanks blanks' hq hkey hblanks hblanks' =>
      have hafter := afterArrow?_eq_some_iff.mpr ⟨blanks, blanks', rfl, hblanks, hblanks', hrest⟩
      have hread := quotedKey?_eq_some_iff.mpr ⟨_, rfl, hkey, hafter⟩
      rw [List.cons_append, Offset.key?_cons, if_pos hq, ← hread]
      simp
    | @symbol _ _ blanks blanks' hkey hblanks hblanks' =>
      have hafter := afterArrow?_eq_some_iff.mpr ⟨blanks, blanks', rfl, hblanks, hblanks', hrest⟩
      have hread := symbolKey?_eq_some_iff.mpr ⟨_, rfl, hkey, hafter⟩
      rw [List.cons_append, Offset.key?_cons, if_neg (by decide), if_pos rfl, ← hread]
      simp
    | @label _ _ blanks hkey hblanks hcolon =>
      have hread := labelKey?_eq_some_iff.mpr ⟨blanks, rfl, hkey, hblanks, hcolon, hrest⟩
      rw [List.append_assoc, List.cons_append]
      cases key with
      | nil => exact absurd rfl hkey.1
      | cons c key =>
        have hc := hkey.2 c List.mem_cons_self
        rw [List.cons_append, Offset.key?_cons, if_neg, if_neg]
        · exact hread
        · rintro rfl
          exact absurd hc (by decide)
        · intro hq
          simp only [isQuote, Bool.or_eq_true, beq_iff_eq] at hq
          rcases hq with rfl | rfl <;> exact absurd hc (by decide)

end Literal

end RailsSchema
