import RailsSchema.Proofs.Statement.Concat
import RailsSchema.Proofs.Text.Runs

/-!
# Where blocks begin and end

What the search for table blocks finds, in terms of the text alone. A keyword that can begin a block
does so if it is followed by a complete header and, further on, by an `end` that stands alone. The
header ends at the first `do` that opens a block, since a `do` in front of another with its `|t|` has
its own `|t|` in front of that other `do` (`exists_of_opening_append`).

* `TableBlock.Parts`: what a block is made of;
* `TableBlock.exists_parts_of_at?`, `TableBlock.exists_at?`: a block is found at a place if and only
  if its parts stand there;
* `TableBlock.pairwise_all`: blocks come from left to right and do not overlap;
* `TableBlock.exists_parts_of_mem_all`, `TableBlock.covered_of_header`: all blocks have their parts,
  and every place with a header and an `end` lies in a block.
-/

namespace RailsSchema

open Text

/-! ## Commas -/

namespace Text

variable {cs rest : List Char}

theorem skipComma_cons_of_ne {c : Char} (hc : c ≠ ',') (cs : List Char) :
    skipComma (c :: cs) = c :: cs := by
  unfold skipComma
  split
  · next heq => exact absurd (List.cons.inj heq).1 hc
  · rfl

theorem skipComma_append_cons {d : Char} (hd : d ≠ ',') (cs rest : List Char) :
    skipComma (cs ++ d :: rest) = skipComma cs ++ d :: rest := by
  cases cs with
  | nil => exact skipComma_cons_of_ne hd rest
  | cons c cs =>
    by_cases hc : c = ','
    · rw [hc]
      rfl
    · rw [List.cons_append, skipComma_cons_of_ne hc, skipComma_cons_of_ne hc, List.cons_append]

/-- What a comma may be taken from is the beginning that it may be taken from, and the rest. -/
theorem exists_of_skipComma {line : List Char} (h : skipComma cs = line ++ rest) :
    ∃ whole, cs = whole ++ rest ∧ skipComma whole = line := by
  unfold skipComma at h
  split at h
  · exact ⟨',' :: line, by rw [h]; rfl, rfl⟩
  · next hother =>
    refine ⟨line, h, ?_⟩
    cases line with
    | nil => rfl
    | cons c line =>
      refine skipComma_cons_of_ne (fun hc => ?_) line
      rw [hc] at h
      exact hother _ h

theorem exists_skipComma (cs : List Char) :
    ∃ comma, cs = comma ++ skipComma cs ∧ '\n' ∉ comma := by
  unfold skipComma
  split
  · exact ⟨[','], rfl, by decide⟩
  · exact ⟨[], rfl, by simp⟩

theorem mem_skipComma_iff {d : Char} (hd : d ≠ ',') : d ∈ skipComma cs ↔ d ∈ cs := by
  unfold skipComma
  split
  · rw [List.mem_cons, or_iff_right hd]
  · rfl

end Text

/-! ## Headers -/

/-- What opens the body of a block. -/
def TableBlock.opening (gap : List Char) : List Char := 'd' :: 'o' :: (gap ++ ['|', 't', '|'])

/-- What stands between the keyword of a block and its body: white space, a name in double quotes,
and on the line of the name a `do` with its `|t|`. -/
structure TableHeader where
  blanks : List Char
  name : List Char
  /-- What stands between the name and the `do`. -/
  line : List Char
  /-- What stands between the `do` and its `|t|`. -/
  gap : List Char
  blanks_ne_nil : blanks ≠ []
  blanks_blank : ∀ c ∈ blanks, isBlank c = true
  name_plain : ∀ c ∈ name, c ≠ '"' ∧ c ≠ '\n'
  newline_not_mem : '\n' ∉ line
  gap_blank : ∀ c ∈ gap, isBlank c = true

/-- The text of a header. -/
def TableHeader.text (header : TableHeader) : List Char :=
  header.blanks ++ '"' :: (header.name ++ '"' ::
    (header.line ++ TableBlock.opening header.gap))

/-- Whether a header ends at the first `do` that opens a body. -/
def TableHeader.IsFirst (header : TableHeader) : Prop :=
  ∀ other : TableHeader, other.text <+: header.text → other.text = header.text

namespace TableBlock

variable {cs body gap rest : List Char}

/-! ## Openers -/

theorem afterOpener?_opening (hgap : ∀ c ∈ gap, isBlank c = true) (rest : List Char) :
    afterOpener? (opening gap ++ rest) = some (trimStart rest) :=
  afterOpener?_eq_some_iff.mpr ⟨gap, rest, by simp [opening], hgap, rfl⟩

theorem exists_of_afterOpener? (h : afterOpener? cs = some body) :
    ∃ gap rest, cs = opening gap ++ rest ∧ (∀ c ∈ gap, isBlank c = true) ∧
      body = trimStart rest := by
  obtain ⟨gap, rest, rfl, hgap, rfl⟩ := afterOpener?_eq_some_iff.mp h
  exact ⟨gap, rest, by simp [opening], hgap, rfl⟩

/-- There is no other `do` in what opens a body. -/
theorem not_mem_tail_opening (hgap : ∀ c ∈ gap, isBlank c = true) : 'd' ∉ (opening gap).tail := by
  intro hmem
  rcases List.mem_cons.mp hmem with hmem | hmem
  · cases hmem
  rcases List.mem_append.mp hmem with hmem | hmem
  · exact absurd (hgap 'd' hmem) (by decide)
  · exact absurd hmem (by decide)

/-- What opens a body in front of another opening lies in front of that other one as a whole. -/
theorem exists_of_opening_append {c : Char} {line next rest' : List Char}
    (hgap : ∀ c ∈ gap, isBlank c = true)
    (h : opening gap ++ rest = c :: line ++ (opening next ++ rest')) :
    ∃ more, rest = more ++ rest' := by
  rcases List.append_eq_append_iff.mp h with ⟨more, -, hrest⟩ | ⟨extra, hopening, hnext⟩
  · exact ⟨more ++ opening next, by rw [hrest, List.append_assoc]⟩
  · cases extra with
    | nil => exact ⟨opening next, by simpa using hnext.symm⟩
    | cons d extra =>
      -- the other `do` would stand inside the first opening
      have hd : 'd' = d := (List.cons.inj hnext).1
      refine absurd ?_ (not_mem_tail_opening hgap)
      rw [hopening, ← hd]
      exact List.mem_append_right line List.mem_cons_self

theorem opener?_opening (hgap : ∀ c ∈ gap, isBlank c = true) (rest : List Char) :
    opener? (opening gap ++ rest) = some (opening gap ++ rest, trimStart rest) := by
  have hafter := afterOpener?_opening hgap rest
  unfold opening at hafter ⊢
  rw [List.cons_append] at hafter ⊢
  rw [opener?, if_neg (by decide), hafter]

/-- What opens a body is found on this line, and nothing in front of it opens one. -/
theorem exists_of_opener?_eq_some {opener : List Char} (h : opener? cs = some (opener, body)) :
    ∃ line gap rest, cs = line ++ opener ∧ '\n' ∉ line ∧ opener = opening gap ++ rest ∧
      (∀ c ∈ gap, isBlank c = true) ∧ body = trimStart rest ∧
      ∀ other gap' rest', cs = other ++ (opening gap' ++ rest') → (∀ c ∈ gap', isBlank c = true) →
        line.length ≤ other.length := by
  induction cs with
  | nil => cases h
  | cons c cs ih =>
    simp only [opener?] at h
    split at h
    · cases h
    next hc =>
    split at h
    · next hafter =>
      cases h
      obtain ⟨gap, rest, hcs, hgap, rfl⟩ := exists_of_afterOpener? hafter
      exact ⟨[], gap, rest, rfl, by simp, hcs, hgap, rfl, fun _ _ _ _ _ => Nat.zero_le _⟩
    · next hnone =>
      obtain ⟨line, gap, rest, hcs, hline, hopener, hgap, hbody, hfirst⟩ := ih h
      refine ⟨c :: line, gap, rest, by rw [hcs]; rfl, ?_, hopener, hgap, hbody, ?_⟩
      · rw [List.mem_cons, not_or]
        exact ⟨Ne.symm hc, hline⟩
      · intro other gap' rest' heq hgap'
        cases other with
        | nil =>
          rw [heq, List.nil_append, afterOpener?_opening hgap'] at hnone
          cases hnone
        | cons d other =>
          exact Nat.succ_le_succ (hfirst other gap' rest' (List.cons.inj heq).2 hgap')

/-- If something opens a body on this line, the first such opening is found, and what is behind the
one that was given is behind the first as well. -/
theorem exists_opener? {line : List Char} (hline : '\n' ∉ line)
    (hgap : ∀ c ∈ gap, isBlank c = true) (rest : List Char) :
    ∃ line' gap' more, line ++ (opening gap ++ rest) = line' ++ (opening gap' ++ (more ++ rest)) ∧
      '\n' ∉ line' ∧ (∀ c ∈ gap', isBlank c = true) ∧
      opener? (line ++ (opening gap ++ rest)) =
        some (opening gap' ++ (more ++ rest), trimStart (more ++ rest)) := by
  induction line with
  | nil =>
    exact ⟨[], gap, [], rfl, hline, hgap, opener?_opening hgap rest⟩
  | cons c line ih =>
    rw [List.mem_cons, not_or] at hline
    rw [List.cons_append, opener?, if_neg (Ne.symm hline.1)]
    cases hafter : afterOpener? (c :: (line ++ (opening gap ++ rest))) with
    | none =>
      obtain ⟨line', gap', more, heq, hline', hgap', hopener⟩ := ih hline.2
      refine ⟨c :: line', gap', more, by rw [heq]; rfl, ?_, hgap', hopener⟩
      rw [List.mem_cons, not_or]
      exact ⟨hline.1, hline'⟩
    | some body =>
      obtain ⟨gap', rest', hcs, hgap', rfl⟩ := exists_of_afterOpener? hafter
      obtain ⟨more, rfl⟩ := exists_of_opening_append hgap' hcs.symm
      exact ⟨[], gap', more, hcs, by simp, hgap', by rw [hcs]⟩

/-! ## Closings -/

theorem isClosing_iff {before : Option Char} :
    isClosing before cs = true ↔
      isGap before = true ∧ ∃ tail, cs = 'e' :: 'n' :: 'd' :: tail ∧ isGap tail.head? = true := by
  unfold isClosing
  rw [Bool.and_eq_true]
  refine and_congr_right' ?_
  constructor
  · intro h
    split at h
    · next tail hafter => exact ⟨tail, after?_eq_some_iff.mp hafter, h⟩
    · cases h
  · rintro ⟨tail, rfl, htail⟩
    exact htail

theorem exists_of_closing? {before : Option Char} {closing : List Char}
    (h : closing? before cs = some closing) :
    ∃ front, cs = front ++ closing ∧ isClosing (lastOf before front) closing = true ∧
      ∀ a c b, front = a ++ c :: b → isClosing (lastOf before a) (c :: b ++ closing) = false := by
  induction cs generalizing before with
  | nil => cases h
  | cons c cs ih =>
    rw [closing?] at h
    split at h
    · next hclosing =>
      cases h
      refine ⟨[], rfl, hclosing, fun a d b hnil => ?_⟩
      cases a <;> cases hnil
    · next hclosing =>
      obtain ⟨front, rfl, hlast, hothers⟩ := ih h
      refine ⟨c :: front, rfl, hlast, fun a d b hfront => ?_⟩
      cases a with
      | nil =>
        cases hfront
        exact Bool.eq_false_iff.mpr hclosing
      | cons e a =>
        cases hfront
        exact hothers a d b rfl

theorem exists_closing? {before : Option Char} {front back : List Char}
    (h : isClosing (lastOf before front) back = true) :
    ∃ closing, closing? before (front ++ back) = some closing := by
  induction front generalizing before with
  | nil =>
    obtain ⟨-, tail, rfl, -⟩ := isClosing_iff.mp h
    refine ⟨'e' :: 'n' :: 'd' :: tail, ?_⟩
    exact if_pos h
  | cons c front ih =>
    rw [List.cons_append, closing?]
    split
    · exact ⟨_, rfl⟩
    · exact ih h

/-! ## Bodies -/

/-- Whether a text can be the body of a block: there is no white space around it, and no `end` in it
has white space or an edge of the body on both sides. -/
structure IsBody (cs : List Char) : Prop where
  start : ∀ c ∈ cs.head?, isBlank c = false
  last : ∀ c ∈ cs.getLast?, isBlank c = false
  noEnd : ∀ front back, cs = front ++ 'e' :: 'n' :: 'd' :: back →
    ¬ (isGap front.getLast? = true ∧ isGap back.head? = true)

theorem isGap_of_blank (h : ∀ c ∈ cs, isBlank c = true) : isGap cs.getLast? = true := by
  cases hlast : cs.getLast? with
  | none => rfl
  | some c => exact h c (List.mem_of_getLast? hlast)

theorem isGap_append {ds : List Char} (hds : isGap ds.getLast? = true)
    (h : ds = [] → isGap cs.getLast? = true) : isGap (cs ++ ds).getLast? = true := by
  rw [List.getLast?_append]
  cases hlast : ds.getLast? with
  | none =>
    rw [Option.none_or]
    exact h (List.getLast?_eq_none_iff.mp hlast)
  | some c =>
    rw [hlast] at hds
    exact hds

theorem isGap_trimStart (h : isGap cs.getLast? = true) : isGap (trimStart cs).getLast? = true := by
  obtain ⟨run, hcs⟩ := trimStart_suffix cs
  cases hlast : (trimStart cs).getLast? with
  | none => rfl
  | some c =>
    rw [← hcs, List.getLast?_append, hlast] at h
    exact h

/-- What is in front of the first `end` that stands alone is a body, without the white space around
it. -/
theorem isBody_of_closing? {closing front : List Char} (hstart : Stops isBlank (front ++ closing))
    (hclosing : isClosing front.getLast? closing = true)
    (hothers : ∀ a c b, front = a ++ c :: b → isClosing a.getLast? (c :: b ++ closing) = false) :
    IsBody (trimEnd front) := by
  obtain ⟨hgap, tail, rfl, -⟩ := isClosing_iff.mp hclosing
  obtain ⟨blanks, hfront, hblanks, hlast⟩ := exists_trimEnd front
  refine ⟨fun c hc => ?_, hlast, fun a b hbody hgaps => ?_⟩
  · refine hstart c ?_
    rw [hfront]
    cases hbody : trimEnd front with
    | nil =>
      rw [hbody] at hc
      cases hc
    | cons d ds =>
      rw [hbody] at hc
      exact hc
  · have hsplit : front = a ++ 'e' :: ('n' :: 'd' :: b ++ blanks) := by
      rw [hfront, hbody]
      simp
    have hnone := hothers a 'e' _ hsplit
    rw [Bool.eq_false_iff] at hnone
    refine hnone (isClosing_iff.mpr ⟨hgaps.1, b ++ blanks ++ 'e' :: 'n' :: 'd' :: tail, by simp, ?_⟩)
    cases b with
    | cons c b => exact hgaps.2
    | nil =>
      cases blanks with
      | cons c blanks => exact hblanks c List.mem_cons_self
      | nil =>
        -- the body would end in the `d` that the closing `end` follows at once
        have hd : (a ++ 'e' :: ('n' :: 'd' :: [] ++ [])).getLast? = some 'd' := by simp
        rw [hsplit, hd] at hgap
        exact absurd hgap (by decide)

/-! ## One block -/

/-- Nothing inside of what opens a body opens one, and nothing of it is left behind. -/
theorem eq_nil_of_eq_opening {extra next more : List Char} (hgap : ∀ c ∈ gap, isBlank c = true)
    (hnext : ∀ c ∈ next, isBlank c = true) (h : opening gap = extra ++ (opening next ++ more)) :
    more = [] := by
  cases extra with
  | nil =>
    have hbar : ∀ cs, Stops isBlank ('|' :: cs) := fun cs => stops_cons.mpr (by decide)
    have hbehind : gap ++ ['|', 't', '|'] = next ++ '|' :: 't' :: '|' :: more := by
      simpa [opening] using h
    obtain ⟨-, htail⟩ := eq_of_run_append hgap hnext (hbar _) (hbar _) hbehind
    simpa using htail
  | cons d extra =>
    refine absurd ?_ (not_mem_tail_opening hgap)
    rw [h]
    exact List.mem_append_right extra List.mem_cons_self

/-- A header ends at the first `do` if no text in front of that opens a body. -/
theorem isFirst_of_shortest {header : TableHeader}
    (h : ∀ other gap' rest', skipComma header.line ++ opening header.gap =
      other ++ (opening gap' ++ rest') → (∀ c ∈ gap', isBlank c = true) →
        (skipComma header.line).length ≤ other.length) : header.IsFirst := by
  rintro other ⟨more, htext⟩
  have hwhole := htext
  simp only [TableHeader.text, List.append_assoc, List.cons_append] at hwhole
  have hblank : ∀ cs, Stops isBlank ('"' :: cs) := fun cs => stops_cons.mpr (by decide)
  obtain ⟨-, hquoted⟩ := eq_of_run_append other.blanks_blank header.blanks_blank (hblank _)
    (hblank _) hwhole
  have hplain : ∀ cs, Stops (fun c => c != '"' && c != '\n') ('"' :: cs) :=
    fun cs => stops_cons.mpr (by decide)
  obtain ⟨-, hnamed⟩ := eq_of_run_append (by simpa using other.name_plain)
    (by simpa using header.name_plain) (hplain _) (hplain _) (List.cons.inj hquoted).2
  have hline : skipComma other.line ++ (opening other.gap ++ more) =
      skipComma header.line ++ opening header.gap := by
    have hcommas := congrArg skipComma (List.cons.inj hnamed).2
    rwa [opening, opening, List.cons_append, skipComma_append_cons (by decide),
      skipComma_append_cons (by decide)] at hcommas
  have hle := h _ _ _ hline.symm other.gap_blank
  have hmore : more = [] := by
    rcases List.append_eq_append_iff.mp hline with ⟨extra, hlonger, hopening⟩ | ⟨extra, -, hopening⟩
    · have hextra : extra = [] := by
        rw [hlonger, List.length_append] at hle
        exact List.eq_nil_of_length_eq_zero (by omega)
      rw [hextra] at hopening
      exact eq_nil_of_eq_opening header.gap_blank other.gap_blank
        (show _ = [] ++ _ from hopening.symm)
    · exact eq_nil_of_eq_opening header.gap_blank other.gap_blank hopening
  rw [← htext, hmore, List.append_nil]

/-- What a block is made of that has a place in a text and another text behind its keyword: a header,
what is between the header and the closing `end`, and what is behind that. -/
structure Parts (start : Nat) (behind : List Char) (header : TableHeader) (inner tail : List Char)
    (block : TableBlock) : Prop where
  text : behind = header.text ++ (inner ++ 'e' :: 'n' :: 'd' :: tail)
  isFirst : header.IsFirst
  before : isGap inner.getLast? = true
  after : isGap tail.head? = true
  isBody : IsBody (trim inner)
  block : block =
    { start := start
      stop := start + keyword.utf8ByteSize + byteLength (header.text ++ inner)
      name := String.ofList header.name
      options := String.ofList (skipComma header.line)
      body := String.ofList (trim inner) }

/-- What ends in front of a place behind white space ends there with the white space as well. -/
theorem exists_inner {front closing : List Char} (h : trimStart rest = front ++ closing)
    (hfront : Stops isBlank front) (hgap : isGap front.getLast? = true) :
    ∃ inner, rest = inner ++ closing ∧ trim inner = trimEnd front ∧
      isGap inner.getLast? = true := by
  have hleading : ∀ c ∈ rest.takeWhile isBlank, isBlank c = true :=
    fun c hc => List.mem_takeWhile_imp hc
  refine ⟨rest.takeWhile isBlank ++ front, ?_, ?_, ?_⟩
  · rw [List.append_assoc, ← h]
    exact (List.takeWhile_append_dropWhile).symm
  · rw [trim, trimStart_append hleading hfront]
  · exact isGap_append hgap fun _ => isGap_of_blank hleading

theorem exists_parts_of_at? {site : Site} {block : TableBlock} (h : at? site = some block) :
    ∃ header inner tail, Parts site.start site.rest header inner tail block := by
  simp only [at?, Option.bind_eq_bind, Option.bind_eq_some_iff, Option.pure_def] at h
  obtain ⟨list, hlist, ⟨name, behind⟩, hname, ⟨opener, body⟩, hopener, closing, hclosing, heq⟩ := h
  obtain ⟨blanks, hrest, hblanksne, hblanks, -⟩ := skipSome?_eq_some_iff.mp hlist
  obtain ⟨rfl, hplain⟩ := quotedName?_eq_some_iff.mp hname
  obtain ⟨options, gap, rest, hoptions, hline, rfl, hgap, rfl, hfirst⟩ :=
    exists_of_opener?_eq_some hopener
  obtain ⟨line, rfl, rfl⟩ := exists_of_skipComma hoptions
  obtain ⟨front, hbody, hclosed, hothers⟩ := exists_of_closing? hclosing
  simp only [lastOf_none] at hclosed hothers
  obtain ⟨hgapFront, tail, rfl, htail⟩ := isClosing_iff.mp hclosed
  have hnewline : '\n' ∉ line := mt (mem_skipComma_iff (by decide)).mpr hline
  let header : TableHeader :=
    ⟨blanks, name, line, gap, hblanksne, hblanks, hplain, hnewline, hgap⟩
  have hstart : Stops isBlank (front ++ 'e' :: 'n' :: 'd' :: tail) := by
    rw [← hbody]
    exact stops_dropWhile isBlank rest
  have hfront : Stops isBlank front := by
    cases front with
    | nil => exact stops_nil _
    | cons c front => exact stops_cons.mpr (stops_cons.mp hstart)
  obtain ⟨inner, rfl, htrim, hbefore⟩ := exists_inner hbody hfront hgapFront
  have htext : site.rest = header.text ++ (inner ++ 'e' :: 'n' :: 'd' :: tail) := by
    rw [hrest]
    simp [header, TableHeader.text]
  refine ⟨header, inner, tail, htext, ?_, hbefore, htail, ?_, ?_⟩
  · refine isFirst_of_shortest fun other gap' rest' heq hgap' =>
      hfirst other gap' (rest' ++ (inner ++ 'e' :: 'n' :: 'd' :: tail)) ?_ hgap'
    rw [hoptions, ← List.append_assoc, heq]
    simp
  · rw [htrim]
    exact isBody_of_closing? hstart hclosed hothers
  · have hblock := (Option.some.inj heq).symm
    dsimp only at hblock hbody hoptions
    rw [hblock, htrim, hbody, hoptions, upTo_append, upTo_append, htext, ← List.append_assoc,
      upTo_append]

/-- In front of the text of a header that ends at the first `do`, there is none of another. -/
theorem eq_nil_of_isFirst {header : TableHeader} (hfirst : header.IsFirst) {line more : List Char}
    (hline : '\n' ∉ line) (hgap : ∀ c ∈ gap, isBlank c = true)
    (h : skipComma header.line ++ opening header.gap = line ++ (opening gap ++ more)) :
    more = [] := by
  obtain ⟨comma, hcomma, hnewline⟩ := exists_skipComma header.line
  have hnone : '\n' ∉ comma ++ line := by
    rw [List.mem_append, not_or]
    exact ⟨hnewline, hline⟩
  let other : TableHeader := ⟨header.blanks, header.name, comma ++ line, gap,
    header.blanks_ne_nil, header.blanks_blank, header.name_plain, hnone, hgap⟩
  have htext : other.text ++ more = header.text := by
    have hbehind : header.line ++ opening header.gap =
        comma ++ (line ++ (opening gap ++ more)) := by
      rw [← h, ← List.append_assoc, ← hcomma]
    unfold TableHeader.text
    rw [hbehind]
    simp [other]
  rw [← hfirst other ⟨more, htext⟩] at htext
  exact List.append_right_eq_self.mp htext

/-- The first opening on the line of a header has a body that begins no later than that of the header,
and goes on to what is behind the header. -/
theorem exists_opener?_of_header {header : TableHeader} {inner : List Char}
    (hbefore : (∃ c ∈ inner.getLast?, isBlank c = true) ∨ inner = [] ∧ header.IsFirst)
    (tail : List Char) :
    ∃ opener front, isGap front.getLast? = true ∧
      opener? (skipComma header.line ++ (opening header.gap ++ (inner ++ 'e' :: tail))) =
        some (opener, front ++ 'e' :: tail) := by
  have hnewline := mt (mem_skipComma_iff (by decide)).mp header.newline_not_mem
  obtain ⟨line, gap, more, hheader, hline, hgap, hopener⟩ :=
    exists_opener? hnewline header.gap_blank (inner ++ 'e' :: tail)
  have hbody : trimStart (more ++ (inner ++ 'e' :: tail)) =
      trimStart (more ++ inner) ++ 'e' :: tail := by
    rw [← List.append_assoc]
    exact dropWhile_append_cons (by decide) _ _
  rw [hbody] at hopener
  refine ⟨_, trimStart (more ++ inner), isGap_trimStart ?_, hopener⟩
  rcases hbefore with ⟨c, hc, hblank⟩ | ⟨rfl, hfirst⟩
  · refine isGap_append ?_ fun hnil => ?_
    · rw [Option.mem_def.mp hc]
      exact hblank
    · rw [hnil] at hc
      cases hc
  · have hshorter : skipComma header.line ++ opening header.gap =
        line ++ (opening gap ++ more) := by
      have hwhole : (skipComma header.line ++ opening header.gap) ++ 'e' :: tail =
          (line ++ (opening gap ++ more)) ++ 'e' :: tail := by
        simpa using hheader
      exact List.append_cancel_right hwhole
    rw [eq_nil_of_isFirst hfirst hline hgap hshorter]
    rfl

/-- A header and an `end` behind it that stands alone make a block. The `end` may stand right behind
the header if that ends at the first `do` that opens a body. -/
theorem exists_at? {site : Site} {header : TableHeader} {inner tail : List Char}
    (htext : site.rest = header.text ++ (inner ++ 'e' :: 'n' :: 'd' :: tail))
    (hbefore : (∃ c ∈ inner.getLast?, isBlank c = true) ∨ inner = [] ∧ header.IsFirst)
    (hafter : isGap tail.head? = true) : ∃ block, at? site = some block := by
  obtain ⟨opener, front, hgap, hopener⟩ :=
    exists_opener?_of_header hbefore ('n' :: 'd' :: tail)
  have hclosed : isClosing (lastOf none front) ('e' :: 'n' :: 'd' :: tail) = true := by
    rw [lastOf_none]
    exact isClosing_iff.mpr ⟨hgap, tail, rfl, hafter⟩
  obtain ⟨closing, hclosing⟩ := exists_closing? hclosed
  have hskip : skipSome? isBlank site.rest = some ('"' :: (header.name ++ '"' ::
      (header.line ++ (opening header.gap ++ (inner ++ 'e' :: 'n' :: 'd' :: tail))))) := by
    refine skipSome?_eq_some_iff.mpr ⟨header.blanks, ?_, header.blanks_ne_nil,
      header.blanks_blank, stops_cons.mpr (by decide)⟩
    rw [htext]
    simp [TableHeader.text]
  have hname : quotedName? ('"' :: (header.name ++ '"' ::
        (header.line ++ (opening header.gap ++ (inner ++ 'e' :: 'n' :: 'd' :: tail))))) =
      some (header.name,
        header.line ++ (opening header.gap ++ (inner ++ 'e' :: 'n' :: 'd' :: tail))) :=
    quotedName?_eq_some_iff.mpr ⟨rfl, header.name_plain⟩
  have hcomma : skipComma
        (header.line ++ (opening header.gap ++ (inner ++ 'e' :: 'n' :: 'd' :: tail))) =
      skipComma header.line ++ (opening header.gap ++ (inner ++ 'e' :: 'n' :: 'd' :: tail)) :=
    skipComma_append_cons (by decide) _ _
  apply Option.isSome_iff_exists.mp
  simp only [at?, hskip, hname, hcomma, hopener, hclosing, Option.bind_eq_bind, Option.bind_some,
    Option.pure_def]
  rfl

/-! ## All blocks -/

theorem start_lt_stop {site : Site} {block : TableBlock} (h : at? site = some block) :
    block.start = site.start ∧ block.start < block.stop := by
  obtain ⟨header, inner, tail, hparts⟩ := exists_parts_of_at? h
  have hkeyword : 0 < keyword.utf8ByteSize := by decide
  rw [hparts.block]
  refine ⟨rfl, ?_⟩
  show site.start < site.start + keyword.utf8ByteSize + byteLength (header.text ++ inner)
  omega

theorem le_start_of_mem_atSites {resume : Nat} {sites : List Site} {block : TableBlock}
    (h : block ∈ atSites resume sites) : resume ≤ block.start := by
  induction sites generalizing resume with
  | nil => cases h
  | cons site sites ih =>
    rw [atSites] at h
    split at h
    · exact ih h
    · next hresume =>
      split at h
      · exact ih h
      · next first hat =>
        obtain ⟨hstart, hlt⟩ := start_lt_stop hat
        rcases List.mem_cons.mp h with rfl | hlater
        · omega
        · have := ih hlater
          omega

/-- Blocks come from left to right, and each begins behind the one before it. -/
theorem pairwise_atSites (resume : Nat) (sites : List Site) :
    (atSites resume sites).Pairwise fun block later => block.stop ≤ later.start := by
  induction sites generalizing resume with
  | nil => exact List.Pairwise.nil
  | cons site sites ih =>
    rw [atSites]
    split
    · exact ih resume
    · split
      · exact ih resume
      · next block _ =>
        exact List.pairwise_cons.mpr ⟨fun later hlater => le_start_of_mem_atSites hlater,
          ih block.stop⟩

/-- A place at which a block can be found lies in one that is found. -/
theorem covered_of_at? {resume : Nat} {sites : List Site}
    (hsorted : sites.Pairwise (·.start < ·.start)) {site : Site} (hsite : site ∈ sites)
    (hresume : resume ≤ site.start) (hat : ∃ block, at? site = some block) :
    ∃ block ∈ atSites resume sites, block.start ≤ site.start ∧ site.start < block.stop := by
  induction sites generalizing resume with
  | nil => cases hsite
  | cons first sites ih =>
    obtain ⟨hfirst, hsorted⟩ := List.pairwise_cons.mp hsorted
    rw [atSites]
    rcases List.mem_cons.mp hsite with rfl | hlater
    · obtain ⟨block, hblock⟩ := hat
      obtain ⟨hstart, hlt⟩ := start_lt_stop hblock
      rw [if_neg (Nat.not_lt.mpr hresume), hblock]
      refine ⟨block, List.mem_cons_self, ?_, ?_⟩ <;> omega
    · split
      · exact ih hsorted hlater hresume
      · split
        · exact ih hsorted hlater hresume
        · next block hblock =>
          obtain ⟨hstart, hlt⟩ := start_lt_stop hblock
          have hafter := hfirst site hlater
          by_cases hinside : site.start < block.stop
          · refine ⟨block, List.mem_cons_self, ?_, hinside⟩
            omega
          · obtain ⟨other, hother, hcovers⟩ := ih hsorted hlater (Nat.not_lt.mp hinside)
            exact ⟨other, List.mem_cons_of_mem block hother, hcovers⟩

theorem pairwise_all (text : String) :
    (all text).Pairwise fun block later => block.stop ≤ later.start :=
  pairwise_atSites 0 _

theorem exists_parts_of_mem_all {text : String} {block : TableBlock} (h : block ∈ all text) :
    ∃ front behind header inner tail, text.toList = front ++ (keyword.toList ++ behind) ∧
      isBoundary front.getLast? = true ∧
      Parts (byteLength front) behind header inner tail block := by
  obtain ⟨site, hsite, hat⟩ := exists_of_mem_atSites h
  obtain ⟨front, htext, hstart, hboundary⟩ := (mem_sitesFrom_iff (by decide)).mp hsite
  obtain ⟨header, inner, tail, hparts⟩ := exists_parts_of_at? hat
  rw [Nat.zero_add] at hstart
  rw [lastOf_none] at hboundary
  rw [hstart] at hparts
  exact ⟨front, site.rest, header, inner, tail, htext, hboundary, hparts⟩

/-- A keyword that can begin a block lies in one if a header follows it and, further on, an `end`
that stands alone. -/
theorem covered_of_header {text : String} {front inner tail : List Char} {header : TableHeader}
    (htext : text.toList = front ++ (keyword.toList ++
      (header.text ++ (inner ++ 'e' :: 'n' :: 'd' :: tail))))
    (hboundary : isBoundary front.getLast? = true)
    (hbefore : (∃ c ∈ inner.getLast?, isBlank c = true) ∨ inner = [] ∧ header.IsFirst)
    (hafter : isGap tail.head? = true) :
    ∃ block ∈ all text, block.start ≤ byteLength front ∧ byteLength front < block.stop := by
  let site : Site := ⟨byteLength front, header.text ++ (inner ++ 'e' :: 'n' :: 'd' :: tail)⟩
  have hsite : site ∈ sites keyword text.toList := by
    refine (mem_sitesFrom_iff (by decide)).mpr ⟨front, htext, (Nat.zero_add _).symm, ?_⟩
    rw [lastOf_none]
    exact hboundary
  have hsorted : (sites keyword text.toList).Pairwise (·.start < ·.start) :=
    (pairwise_sitesFrom keyword.toList none 0 text.toList).1
  exact covered_of_at? hsorted hsite (Nat.zero_le _) (exists_at? rfl hbefore hafter)

end TableBlock

end RailsSchema
