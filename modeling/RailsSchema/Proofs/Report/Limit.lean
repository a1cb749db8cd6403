import RailsSchema.Report.ColumnType
import RailsSchema.Proofs.Value.Rational

/-!
# Sizes of column types

The size in a column type is the whole number with which the displayed `limit` option begins. It is
computed here in words of 64 bits, digit by digit with checks for overflow and then times the sign,
and compared with the number that the digits stand for.

* `Text.LeadsWith`: the sign and the digits with which a text begins, by what the text is made of;
* `Word.digits?_eq`: the checked computation gives up exactly on the numbers that are too large;
* `leadingWord_eq`: the sign can always be multiplied in;
* `Field.displayType_leadsWith`: the number in front of a text, and the column type with it.
-/

namespace RailsSchema

open Text

/-! ## Digits -/

/-- Digits are a small number if there are any and they fit into 64 bits with a sign. -/
theorem smallNumber?_eq (digits : List Char) :
    smallNumber? digits =
      if digits ≠ [] ∧ Nat.ofDigits 10 (digits.reverse.map Numeral.digitValue) ≤ 2 ^ 63 - 1 then
        some (Nat.ofDigits 10 (digits.reverse.map Numeral.digitValue))
      else none := by
  rw [← Numeral.digitsValue_eq_ofDigits]
  have hpow : Nat.pow 2 63 = 2 ^ 63 := rfl
  unfold smallNumber?
  rw [hpow]
  cases digits with
  | nil => rfl
  | cons c digits =>
    simp only [List.isEmpty_cons, Bool.false_eq_true, if_false, ne_eq, reduceCtorEq,
      not_false_eq_true, true_and]
    split_ifs with h h' h'
    · rfl
    · omega
    · omega
    · rfl

theorem lt_of_smallNumber? {digits : List Char} {n : Nat} (h : smallNumber? digits = some n) :
    n < 2 ^ 63 := by
  rw [smallNumber?_eq] at h
  split at h
  · next hsmall =>
    cases h
    omega
  · cases h

/-! ## Words of 64 bits -/

namespace Word

/-- The word that stands for an integer, if the integer fits into 64 bits with its sign. -/
def fit? (n : Int) : Option Int64 := if -2 ^ 63 ≤ n ∧ n < 2 ^ 63 then some (.ofInt n) else none

/-- The product, unless it overflows. -/
def mul? (a b : Int64) : Option Int64 := fit? (a.toInt * b.toInt)

/-- The sum, unless it overflows. -/
def add? (a b : Int64) : Option Int64 := fit? (a.toInt + b.toInt)

/-- A word with one more digit behind it. -/
def push? (n : Int64) (c : Char) : Option Int64 :=
  (mul? n 10).bind fun tens => add? tens (.ofNat (Numeral.digitValue c))

/-- The word that decimal digits stand for, unless there are none or the computation overflows. -/
def digits? : List Char → Option Int64
  | [] => none
  | c :: digits => (c :: digits).foldlM push? 0

theorem fit?_eq_some_iff {n : Int} {w : Int64} : fit? n = some w ↔ w.toInt = n := by
  unfold fit?
  split
  · next h =>
    rw [Option.some.injEq]
    constructor
    · rintro rfl
      exact Int64.toInt_ofInt_of_le h.1 h.2
    · rintro rfl
      exact Int64.ofInt_toInt w
  · next h =>
    refine iff_of_false (by simp) ?_
    rintro rfl
    exact h ⟨w.le_toInt, w.toInt_lt⟩

theorem fit?_eq_none_iff {n : Int} : fit? n = none ↔ n < -2 ^ 63 ∨ 2 ^ 63 ≤ n := by
  unfold fit?
  split <;> simp <;> omega

/-- One more digit fits or does not as the number with that digit does. -/
theorem push?_eq {m : Nat} {n : Int64} (hn : n.toInt = m) {c : Char} (hc : c.isDigit = true) :
    push? n c = fit? (10 * m + Numeral.digitValue c : Nat) := by
  have hdigit : (Int64.ofNat (Numeral.digitValue c)).toInt = Numeral.digitValue c := by
    have hle := Numeral.digitValue_le hc
    exact Int64.toInt_ofNat_of_lt (by omega)
  have hten : (10 : Int64).toInt = 10 := by decide
  unfold push? mul?
  rw [hn, hten]
  cases htens : fit? (m * 10) with
  | none =>
    rcases fit?_eq_none_iff.mp htens with hlow | hhigh
    · omega
    · rw [Option.bind_none, eq_comm, fit?_eq_none_iff]
      right
      push_cast
      omega
  | some tens =>
    have hsum : (m : Int) * 10 + Numeral.digitValue c =
        (10 * m + Numeral.digitValue c : Nat) := by
      push_cast
      omega
    rw [Option.bind_some, add?, fit?_eq_some_iff.mp htens, hdigit, hsum]

/-- A number grows with every digit behind it. -/
theorem le_foldl_digits (digits : List Char) (n : Nat) :
    n ≤ digits.foldl (fun n c => 10 * n + Numeral.digitValue c) n := by
  induction digits generalizing n with
  | nil => exact Nat.le_refl n
  | cons c digits ih =>
    rw [List.foldl_cons]
    exact Nat.le_trans (by omega) (ih _)

theorem foldlM_push? {digits : List Char} (hdigits : ∀ c ∈ digits, c.isDigit = true) {m : Nat}
    {n : Int64} (hn : n.toInt = m) :
    digits.foldlM push? n =
      fit? (digits.foldl (fun n c => 10 * n + Numeral.digitValue c) m : Nat) := by
  induction digits generalizing m n with
  | nil => exact (fit?_eq_some_iff.mpr hn).symm
  | cons c digits ih =>
    have ih := fun {m n} => @ih (fun d hd => hdigits d (List.mem_cons_of_mem c hd)) m n
    rw [List.foldlM_cons, push?_eq hn (hdigits c List.mem_cons_self), List.foldl_cons]
    cases hnext : fit? (10 * m + Numeral.digitValue c : Nat) with
    | some next => exact ih (fit?_eq_some_iff.mp hnext)
    | none =>
      -- Once the number is too large it stays so, whatever digits follow.
      rcases fit?_eq_none_iff.mp hnext with hlow | hhigh
      · omega
      · have hgrows := le_foldl_digits digits (10 * m + Numeral.digitValue c)
        symm
        rw [Option.bind_eq_bind, Option.bind_none, fit?_eq_none_iff]
        right
        omega

/-- The checked computation finds the number of the digits, and gives up only where that number does
not fit. -/
theorem digits?_eq {digits : List Char} (hdigits : ∀ c ∈ digits, c.isDigit = true) :
    digits? digits = (smallNumber? digits).bind fun n => fit? n := by
  cases digits with
  | nil => rfl
  | cons c digits =>
    rw [digits?, foldlM_push? hdigits (rfl : (0 : Int64).toInt = (0 : Nat))]
    show fit? (Numeral.digitsValue (c :: digits) : Nat) = _
    rw [smallNumber?_eq, ← Numeral.digitsValue_eq_ofDigits]
    split
    · rw [Option.bind_some]
    · next h =>
      have hlarge : ¬ Numeral.digitsValue (c :: digits) ≤ 2 ^ 63 - 1 :=
        fun hle => h ⟨List.cons_ne_nil c digits, hle⟩
      rw [Option.bind_none, fit?_eq_none_iff]
      right
      omega

end Word

/-! ## The number in front of a text -/

/-- Whether a text begins with these digits, as many as there are, behind white space and an optional
sign, `negative` if the sign is a minus sign. -/
def Text.LeadsWith (cs : List Char) (negative : Bool) (digits : List Char) : Prop :=
  ∃ blanks sign rest, cs = blanks ++ (sign ++ (digits ++ rest)) ∧
    (∀ c ∈ blanks, isBlank c = true) ∧ Stops isBlank (sign ++ (digits ++ rest)) ∧
    (sign = ['-'] ∧ negative = true ∨ sign = ['+'] ∧ negative = false ∨
      (sign = [] ∧ ∀ c ∈ (digits ++ rest).head?, c ≠ '-' ∧ c ≠ '+') ∧ negative = false) ∧
    (∀ c ∈ digits, c.isDigit = true) ∧ Stops Char.isDigit rest

/-- A number with a sign. -/
def withSign (negative : Bool) (n : Nat) : Int := if negative then -(n : Int) else n

/-- Whether a text has a minus sign in front, and what follows the sign if there is one. -/
def signed : List Char → Bool × List Char
  | '-' :: cs => (true, cs)
  | '+' :: cs => (false, cs)
  | cs => (false, cs)

theorem signed_of_unsigned {cs : List Char} (hminus : ∀ behind, cs = '-' :: behind → False)
    (hplus : ∀ behind, cs = '+' :: behind → False) : signed cs = (false, cs) := by
  unfold signed
  split
  · exact (hminus _ rfl).elim
  · exact (hplus _ rfl).elim
  · rfl

/-- A product left the 64 bits. -/
inductive Overflow where
  | product
  deriving DecidableEq, Repr

/-- The whole number that a text begins with, computed in words of 64 bits. Digits that do not fit
are no number; a product that did not fit would be an error. -/
def leadingWord (text : String) : Except Overflow (Option Int64) :=
  let (negative, cs) := signed (trimStart text.toList)
  match Word.digits? (cs.takeWhile Char.isDigit) with
  | none => .ok none
  | some n =>
    match Word.mul? (if negative then -1 else 1) n with
    | none => .error .product
    | some k => .ok (some k)

/-- Every text begins with some digits, if only with none. -/
theorem Text.exists_leadsWith (cs : List Char) : ∃ negative digits, LeadsWith cs negative digits := by
  have hblanks : cs = cs.takeWhile isBlank ++ trimStart cs :=
    List.takeWhile_append_dropWhile.symm
  have hrun : ∀ c ∈ cs.takeWhile isBlank, isBlank c = true := fun c hc => List.mem_takeWhile_imp hc
  have hstop : Stops isBlank (trimStart cs) := stops_dropWhile isBlank cs
  have hdigits : ∀ behind : List Char,
      behind = behind.takeWhile Char.isDigit ++ behind.dropWhile Char.isDigit :=
    fun behind => List.takeWhile_append_dropWhile.symm
  have hsign : ∃ sign behind negative, trimStart cs = sign ++ behind ∧
      (sign = ['-'] ∧ negative = true ∨ sign = ['+'] ∧ negative = false ∨
        (sign = [] ∧ ∀ c ∈ behind.head?, c ≠ '-' ∧ c ≠ '+') ∧ negative = false) := by
    cases hfront : trimStart cs with
    | nil => exact ⟨[], [], false, rfl, .inr (.inr ⟨⟨rfl, by simp⟩, rfl⟩)⟩
    | cons c behind =>
      by_cases hminus : c = '-'
      · exact ⟨[c], behind, true, rfl, .inl ⟨by rw [hminus], rfl⟩⟩
      by_cases hplus : c = '+'
      · exact ⟨[c], behind, false, rfl, .inr (.inl ⟨by rw [hplus], rfl⟩)⟩
      · exact ⟨[], c :: behind, false, rfl, .inr (.inr ⟨⟨rfl, by simp [hminus, hplus]⟩, rfl⟩)⟩
  obtain ⟨sign, behind, negative, hfront, hsign⟩ := hsign
  refine ⟨negative, behind.takeWhile Char.isDigit, cs.takeWhile isBlank, sign,
    behind.dropWhile Char.isDigit, ?_, hrun, ?_, ?_, fun c hc => List.mem_takeWhile_imp hc,
    stops_dropWhile Char.isDigit behind⟩
  · rw [← hdigits, ← hfront]
    exact hblanks
  · rw [← hdigits, ← hfront]
    exact hstop
  · rw [← hdigits]
    exact hsign

theorem leadingInt?_eq (text : String) :
    leadingInt? text =
      (smallNumber? ((signed (trimStart text.toList)).2.takeWhile Char.isDigit)).map
        (withSign (signed (trimStart text.toList)).1) := by
  unfold leadingInt?
  split
  · next cs heq =>
    rw [heq]
    show _ = (smallNumber? (cs.takeWhile Char.isDigit)).map (withSign true)
    cases smallNumber? (cs.takeWhile Char.isDigit) <;> rfl
  · next cs heq =>
    rw [heq]
    show _ = (smallNumber? (cs.takeWhile Char.isDigit)).map (withSign false)
    cases smallNumber? (cs.takeWhile Char.isDigit) <;> rfl
  · next hminus hplus =>
    rw [signed_of_unsigned hminus hplus]
    cases smallNumber? ((trimStart text.toList).takeWhile Char.isDigit) <;> rfl

/-- The multiplication with the sign never overflows, so the words compute the number. -/
theorem leadingWord_eq (text : String) :
    ∃ word, leadingWord text = .ok word ∧ word.map Int64.toInt = leadingInt? text := by
  obtain ⟨negative, cs, hsigned⟩ : ∃ negative cs,
      signed (trimStart text.toList) = (negative, cs) := ⟨_, _, rfl⟩
  have hdigits : ∀ c ∈ cs.takeWhile Char.isDigit, c.isDigit = true :=
    fun c hc => List.mem_takeWhile_imp hc
  rw [leadingInt?_eq, leadingWord, hsigned]
  dsimp only
  rw [Word.digits?_eq hdigits]
  cases hsmall : smallNumber? (cs.takeWhile Char.isDigit) with
  | none => exact ⟨none, rfl, rfl⟩
  | some n =>
    have hlt := lt_of_smallNumber? hsmall
    obtain ⟨w, hw⟩ : ∃ w, Word.fit? n = some w := by
      rw [← Option.ne_none_iff_exists', ne_eq, Word.fit?_eq_none_iff]
      omega
    have htoInt := Word.fit?_eq_some_iff.mp hw
    have hproduct : (if negative then -1 else 1 : Int64).toInt * w.toInt = withSign negative n := by
      have hminus : (-1 : Int64).toInt = -1 := by decide
      have hone : (1 : Int64).toInt = 1 := by decide
      rw [htoInt]
      cases negative <;> simp [withSign, hminus, hone]
    obtain ⟨k, hk⟩ : ∃ k, Word.fit? (withSign negative n) = some k := by
      rw [← Option.ne_none_iff_exists', ne_eq, Word.fit?_eq_none_iff]
      cases negative <;> simp only [withSign, Bool.false_eq_true, if_false, if_true] <;> omega
    refine ⟨some k, ?_, ?_⟩
    · rw [Option.bind_some, hw]
      dsimp only
      rw [Word.mul?, hproduct, hk]
    · rw [Option.map_some, Option.map_some, Word.fit?_eq_some_iff.mp hk]

section

variable {text : String} {negative : Bool} {digits : List Char}

/-- The sign and the digits are what the text is cut into. -/
theorem Text.LeadsWith.signed_eq (h : LeadsWith text.toList negative digits) :
    ∃ rest, signed (trimStart text.toList) = (negative, digits ++ rest) ∧
      (digits ++ rest).takeWhile Char.isDigit = digits := by
  obtain ⟨blanks, sign, rest, hcs, hblanks, hstop, hsign, hdigits, hrest⟩ := h
  refine ⟨rest, ?_, takeWhile_append_of_stops hdigits hrest⟩
  rw [hcs, trimStart_append hblanks hstop]
  rcases hsign with ⟨rfl, rfl⟩ | ⟨rfl, rfl⟩ | ⟨⟨rfl, hhead⟩, rfl⟩
  · rfl
  · rfl
  · rw [List.nil_append]
    refine signed_of_unsigned (fun cs heq => ?_) (fun cs heq => ?_)
    · exact (hhead '-' (by rw [heq]; rfl)).1 rfl
    · exact (hhead '+' (by rw [heq]; rfl)).2 rfl

/-- The number of the digits with the sign, if there are any and they fit. -/
theorem Text.LeadsWith.leadingInt?_eq (h : LeadsWith text.toList negative digits) :
    leadingInt? text =
      if digits ≠ [] ∧ Nat.ofDigits 10 (digits.reverse.map Numeral.digitValue) ≤ 2 ^ 63 - 1 then
        some (withSign negative (Nat.ofDigits 10 (digits.reverse.map Numeral.digitValue)))
      else none := by
  obtain ⟨rest, hsigned, htake⟩ := h.signed_eq
  rw [RailsSchema.leadingInt?_eq, hsigned, htake, smallNumber?_eq]
  split <;> rfl

end

/-! ## The size in a column type -/

/-- The text of an option, or none. -/
def Field.optionText (field : Field) (key : String) : String :=
  ((field.option? key).map Value.display).getD ""

/-- The number with which the displayed `limit` option begins. -/
def Field.GivesLimit (field : Field) (k : Int) : Prop :=
  ∃ value, field.option? "limit" = some value ∧ leadingInt? value.display = some k

theorem Field.limit?_eq_some {field : Field} {k : Int} (h : field.GivesLimit k) (hk : k ≠ 0) :
    field.limit? = some k := by
  obtain ⟨value, hvalue, hnumber⟩ := h
  unfold limit?
  rw [hvalue, Option.bind_some, hnumber]
  simp [hk]

theorem Field.limit?_of_no_limit {field : Field} (h : ∀ k, field.GivesLimit k → k = 0) :
    field.limit? = if field.type = "string" then some 255 else none := by
  have hnone : ((field.option? "limit").bind fun value => leadingInt? value.display).filter
      (· != 0) = none := by
    rw [Option.filter_eq_none_iff]
    intro k hk
    obtain ⟨value, hvalue, hnumber⟩ := Option.bind_eq_some_iff.mp hk
    simp [h k ⟨value, hvalue, hnumber⟩]
  unfold limit?
  rw [hnone]
  rfl

/-- The number in front of a text is that of its first digits, however many there are, if there are
any and they fit into 64 bits with a sign, and computing it in words never overflows. The types that
have a size show, behind what the `size` option says and their name, the number in front of the
displayed `limit` option if there is one and it is not zero, and else 255 for strings and nothing for
the others; the `unsigned` mark comes last. -/
theorem Field.displayType_leadsWith :
    (∀ text : String,
      (∃ word, leadingWord text = .ok word ∧ word.map Int64.toInt = leadingInt? text) ∧
      (∃ negative digits, LeadsWith text.toList negative digits) ∧
      ∀ negative digits, LeadsWith text.toList negative digits →
        leadingInt? text =
          if digits ≠ [] ∧
              Nat.ofDigits 10 (digits.reverse.map Numeral.digitValue) ≤ 2 ^ 63 - 1 then
            some (withSign negative (Nat.ofDigits 10 (digits.reverse.map Numeral.digitValue)))
          else none) ∧
    ∀ field : Field,
      field.type ∈ ["integer", "float", "decimal", "text", "string"] → ∃ limit,
        field.displayType =
            field.optionText "size" ++
              (if field.type = "string" then "varchar" else field.type) ++ limit ++
              (if ∃ value ∈ field.option? "unsigned", value.isTruthy then " unsigned" else "") ∧
          (∀ k, field.GivesLimit k → k ≠ 0 → limit = "(" ++ toString k ++ ")") ∧
          ((∀ k, field.GivesLimit k → k = 0) →
            limit = if field.type = "string" then "(255)" else "") := by
  refine ⟨fun text => ⟨leadingWord_eq text, exists_leadsWith _, fun negative digits h =>
    h.leadingInt?_eq⟩, fun field htype => ?_⟩
  have hsized : field.displayType = field.sizedType :=
    if_pos (List.contains_iff_mem.mpr htype)
  refine ⟨(field.limit?.map fun n => "(" ++ toString n ++ ")").getD "", ?_, ?_, ?_⟩
  · rw [hsized]
    unfold sizedType optionText
    cases field.option? "unsigned" <;> cases field.limit? <;> simp
  · intro k hk hne
    rw [limit?_eq_some hk hne]
    rfl
  · intro hzero
    rw [limit?_of_no_limit hzero]
    by_cases hstring : field.type = "string"
    · rw [if_pos hstring, if_pos hstring]
      rfl
    · rw [if_neg hstring, if_neg hstring]
      rfl

/-- The largest number with a sign that fits, and the first that does not. -/
example : leadingInt? " -9223372036854775807x" = some (-9223372036854775807) ∧
    leadingInt? "9223372036854775808" = none := by decide +kernel

end RailsSchema
