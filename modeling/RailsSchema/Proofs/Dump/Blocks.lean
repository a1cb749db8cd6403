import RailsSchema.Proofs.Dump.Bodies

/-!
# The blocks in a dump

The block that stands at the beginning of a text is read as it was written (`at?_text`): the search
for its opener passes over the options, the search for its `end` passes over the statements.
`atSites_blocks` says so of all blocks: the places inside a block lie before the end of its body and
are left out, and behind the last block there is no other.
-/

namespace RailsSchema

open Text

namespace TableBlock

variable {before : Option Char} {cs rest : List Char}

/-- The search for the opener passes over a silent text on one line. -/
theorem opener?_of_silent (h : openerProbe.Silent before cs rest) (hline : '\n' ∉ cs) :
    opener? (cs ++ rest) = opener? rest := by
  induction cs generalizing before with
  | nil => rfl
  | cons c cs ih =>
    obtain ⟨hfirst, hothers⟩ := h
    rw [List.mem_cons, not_or] at hline
    have hnone : afterOpener? (c :: (cs ++ rest)) = none := by
      cases hafter : after? ['d', 'o'] (c :: (cs ++ rest)) with
      | none => simp [afterOpener?, hafter]
      | some more =>
        have haccepts : (after? ['|', 't', '|'] (trimStart more)).isSome = false := by
          rw [Bool.eq_false_iff]
          intro hsome
          rw [Probe.fires_iff.mpr ⟨rfl, more, after?_eq_some_iff.mp hafter, hsome⟩] at hfirst
          cases hfirst
        rw [Option.isSome_eq_false_iff, Option.isNone_iff_eq_none] at haccepts
        simp [afterOpener?, hafter, haccepts]
    rw [List.cons_append, opener?, if_neg (Ne.symm hline.1), hnone]
    exact ih hothers hline.2

theorem isClosing_eq_fires (before : Option Char) (cs : List Char) :
    isClosing before cs = closingProbe.fires before cs := by
  have hword : closingProbe.word = ['e', 'n', 'd'] := rfl
  unfold isClosing Probe.fires
  rw [hword]
  cases after? ['e', 'n', 'd'] cs <;> rfl

/-- The search for the end of a body passes over a silent text. -/
theorem closing?_of_silent (h : closingProbe.Silent before cs rest) :
    closing? before (cs ++ rest) = closing? (lastOf before cs) rest := by
  induction cs generalizing before with
  | nil => rfl
  | cons c cs ih =>
    obtain ⟨hfirst, hothers⟩ := h
    rw [List.cons_append, closing?, isClosing_eq_fires, hfirst]
    exact ih hothers

theorem opener?_do (rest : List Char) :
    opener? ("do |t|".toList ++ rest) = some ("do |t|".toList ++ rest, trimStart rest) := by
  have hparameter : trimStart (' ' :: '|' :: 't' :: '|' :: rest) = '|' :: 't' :: '|' :: rest := by
    rw [trimStart, List.dropWhile_cons_of_pos (by decide), List.dropWhile_cons_of_neg (by decide)]
  have hafter : afterOpener? ('d' :: 'o' :: ' ' :: '|' :: 't' :: '|' :: rest) =
      some (trimStart rest) := by
    simp [afterOpener?, after?, hparameter]
  show opener? ('d' :: 'o' :: ' ' :: '|' :: 't' :: '|' :: rest) = _
  rw [opener?, if_neg (by decide), hafter]
  rfl

theorem closing?_end (hbefore : isGap before = true) (rest : List Char) :
    closing? before ("end\n".toList ++ rest) = some ("end\n".toList ++ rest) := by
  have hclosing : isClosing before ('e' :: 'n' :: 'd' :: '\n' :: rest) = true := by
    have hgap : isGap (some '\n') = true := by decide
    simp [isClosing, hbefore, after?, hgap]
  show closing? before ('e' :: 'n' :: 'd' :: '\n' :: rest) = _
  rw [closing?, if_pos hclosing]
  rfl

/-! ## Places of blocks -/

/-- Places in front of the one at which to go on are left out. -/
theorem atSites_of_lt {resume : Nat} {first : List Site} (h : ∀ site ∈ first, site.start < resume)
    (others : List Site) : atSites resume (first ++ others) = atSites resume others := by
  induction first with
  | nil => rfl
  | cons site first ih =>
    rw [List.cons_append, atSites, if_pos (h site List.mem_cons_self)]
    exact ih fun s hs => h s (List.mem_cons_of_mem site hs)

/-- There is no block in a text in which none begins. -/
theorem atSites_of_silent {resume offset : Nat} (h : tableProbe.Silent before cs []) :
    atSites resume (sitesFrom keyword.toList before offset cs) = [] := by
  induction cs generalizing before offset with
  | nil => rfl
  | cons c cs ih =>
    obtain ⟨hfirst, hothers⟩ := h
    rw [List.append_nil] at hfirst
    rw [sitesFrom]
    split
    · next rest hrest =>
      have hnone : at? ⟨offset, rest⟩ = none := by
        cases hat : at? ⟨offset, rest⟩ with
        | none => rfl
        | some block =>
          split at hrest
          · next hbefore =>
            rw [fires_of_at? hbefore hrest hat] at hfirst
            cases hfirst
          · cases hrest
      rw [atSites]
      split
      · exact ih hothers
      · rw [hnone]
        exact ih hothers
    · exact ih hothers

end TableBlock

namespace Dump

variable {header body : String → Prop} {depth : Nat}

/-- The searches that run over the options of a block. -/
def headProbes : List Probe := [openerProbe, keyProbe]

/-! ## Between the keyword and the `end` -/

/-- Options as they are left when the comma in front is skipped. -/
def behindComma (options : Options) : List Char := skipComma (optionsText options)

theorem behindComma_eq (options : Options) :
    ∃ front, behindComma options = front ++ bareText options ∧ (front = [] ∨ front = [' ']) := by
  by_cases hne : options = []
  · rw [hne]
    exact ⟨[], rfl, Or.inl rfl⟩
  · refine ⟨[' '], ?_, Or.inr rfl⟩
    rw [behindComma, optionsText_of_ne_nil hne]
    rfl

theorem skipComma_of_ne {c : Char} (hc : c ≠ ',') (cs : List Char) :
    skipComma (c :: cs) = c :: cs := by
  unfold skipComma
  split
  · next heq =>
    cases heq
    exact absurd rfl hc
  · rfl

theorem skipComma_optionsText (options : Options) {c : Char} (hc : c ≠ ',') (rest : List Char) :
    skipComma (optionsText options ++ c :: rest) = behindComma options ++ c :: rest := by
  by_cases hne : options = []
  · rw [hne]
    exact skipComma_of_ne hc rest
  · rw [behindComma, optionsText_of_ne_nil hne]
    rfl

theorem follows_opener (rest : List Char) : Follows (' ' :: ("do |t|".toList ++ rest)) :=
  @follows_of_blank ' ' [] _ (by decide) (by simp) (stops_cons.mpr (by decide))
    (stops_cons.mpr (by decide))

/-- No opener is met in front of the one that the block was written with. -/
theorem silent_behindComma {options : Options}
    (hplain : ∀ content, header content → openerProbe.Mutes content)
    (h : CanonicalOptions header depth options) (rest : List Char) :
    ∃ before, openerProbe.Silent before (behindComma options ++ [' '])
      ("do |t|".toList ++ rest) := by
  have hall := silent_optionsText regular_openerProbe hplain h none (follows_opener rest)
  have hspace : ∀ before, openerProbe.Silent before [' '] ("do |t|".toList ++ rest) :=
    fun before => Probe.silent_marks regular_openerProbe (by decide) before _
  by_cases hne : options = []
  · rw [hne]
    exact ⟨none, hspace none⟩
  · rw [optionsText_of_ne_nil hne] at hall
    rw [behindComma, optionsText_of_ne_nil hne]
    exact ⟨some ',', Probe.silent_append.mpr ⟨hall.2, hspace _⟩⟩

theorem newline_not_mem_behindComma {options : Options}
    (h : CanonicalOptions header depth options) : '\n' ∉ behindComma options ++ [' '] := by
  have hall := newline_not_mem_optionsText h
  by_cases hne : options = []
  · rw [hne]
    decide
  · rw [optionsText_of_ne_nil hne, List.mem_cons, not_or] at hall
    rw [behindComma, optionsText_of_ne_nil hne]
    intro hmem
    rcases List.mem_append.mp hmem with hmem | hmem
    · exact hall.2 hmem
    · revert hmem
      decide

/-- The probes of the block end and of foreign keys meet nothing in a statement. -/
theorem silent_text {p : Probe} (hp : p ∈ bodyProbes) (hhead : p.word.head? ≠ some 't')
    (hplain : ∀ content, body content → p.Mutes content) {statement : Statement}
    (h : statement.Canonical body depth) (before : Option Char) {rest : List Char}
    (hrest : Follows rest) : p.Silent before statement.text rest :=
  ⟨Probe.fires_of_head hhead (regular_of_mem_bodyProbes hp).ne_nil before _,
    silent_behind hp hplain h hrest⟩

theorem silent_lines {p : Probe} (hp : p ∈ bodyProbes) (hhead : p.word.head? ≠ some 't')
    (hplain : ∀ content, body content → p.Mutes content) {statements : List Statement}
    (h : ∀ statement ∈ statements, statement.Canonical body depth) (before : Option Char)
    {rest : List Char} (hrest : EndsLine rest) :
    p.Silent before (statements.flatMap Statement.line) rest := by
  induction statements generalizing before with
  | nil => trivial
  | cons statement statements ih =>
    have hnext := (endsLine_lines statements hrest).follows
    have hline := silent_indent (regular_of_mem_bodyProbes hp) before
      (statement.text ++ (statements.flatMap Statement.line ++ rest))
    refine Probe.silent_append.mpr ⟨?_, ih (fun st hst => h st (List.mem_cons_of_mem _ hst)) _⟩
    show p.Silent before (['\n', ' ', ' '] ++ statement.text) _
    exact Probe.silent_append.mpr
      ⟨hline, silent_text hp hhead hplain (h statement List.mem_cons_self) _ hnext⟩

/-- What the search for the `end` of a body starts from: the statements and the line break behind
them, if there are any. -/
def bodySpan (statements : List Statement) : List Char :=
  trimStart (statements.flatMap Statement.line ++ ['\n'])

theorem trimStart_lines (statement : Statement) (statements : List Statement) (rest : List Char) :
    trimStart ((statement :: statements).flatMap Statement.line ++ rest) =
      bodyText (statement :: statements) ++ rest := by
  have hindent : ∀ c ∈ ['\n', ' ', ' '], isBlank c = true := by decide
  rw [lines_cons, ← List.cons_append]
  exact trimStart_append hindent (stops_cons.mpr (by decide))

theorem bodySpan_nil : bodySpan [] = [] := by decide

theorem bodySpan_cons (statement : Statement) (statements : List Statement) :
    bodySpan (statement :: statements) = bodyText (statement :: statements) ++ ['\n'] :=
  trimStart_lines statement statements ['\n']

theorem trimStart_body (statements : List Statement) {rest : List Char}
    (hrest : Stops isBlank rest) :
    trimStart (statements.flatMap Statement.line ++ '\n' :: rest) = bodySpan statements ++ rest := by
  cases statements with
  | nil =>
    rw [bodySpan_nil, List.flatMap_nil, List.nil_append, List.nil_append]
    exact trimStart_cons (by decide) hrest
  | cons statement statements =>
    rw [trimStart_lines, bodySpan_cons, List.append_assoc, List.singleton_append]

theorem endsSolid_text_statement {statement : Statement} (h : statement.Canonical body depth) :
    EndsSolid statement.text := by
  have hsubject : EndsSolid statement.subject := by
    cases statement with
    | typed type name options => exact endsSolid_enclosed '"' name.toList (by decide)
    | generic name type options =>
      exact ((endsSolid_enclosed '"' type.toList (by decide)).append comma).append (quoted name)
    | index columns options => exact endsSolid_enclosed '[' _ (by decide)
  have hoptions : EndsSolid (statement.subject ++ optionsText statement.options) := by
    by_cases hne : statement.options = []
    · rw [hne]
      simpa [optionsText] using hsubject
    · rw [optionsText_of_ne_nil hne]
      exact ((endsSolid_bareText h.options hne).append [',', ' ']).append _
  have htail := hoptions.append ('t' :: '.' :: (statement.word.toList ++ [' ']))
  simpa [Statement.text] using htail

theorem endsSolid_lines {statements : List Statement} (hne : statements ≠ [])
    (h : ∀ statement ∈ statements, statement.Canonical body depth) :
    EndsSolid (statements.flatMap Statement.line) := by
  induction statements with
  | nil => exact absurd rfl hne
  | cons statement statements ih =>
    rw [List.flatMap_cons]
    by_cases hlast : statements = []
    · rw [hlast, List.flatMap_nil, List.append_nil]
      exact (endsSolid_text_statement (h statement List.mem_cons_self)).append ['\n', ' ', ' ']
    · exact (ih hlast fun st hst => h st (List.mem_cons_of_mem statement hst)).append _

/-- The line break behind the statements is not part of the body. -/
theorem trimEnd_bodySpan {statements : List Statement}
    (h : ∀ statement ∈ statements, statement.Canonical body depth) :
    trimEnd (bodySpan statements) = bodyText statements := by
  cases statements with
  | nil => decide
  | cons statement statements =>
    rw [bodySpan_cons]
    refine trimEnd_append ?_ (by decide)
    rw [bodyText]
    by_cases hlast : statements = []
    · rw [hlast, List.flatMap_nil, List.append_nil]
      exact endsSolid_text_statement (h statement List.mem_cons_self)
    · exact (endsSolid_lines hlast fun st hst =>
        h st (List.mem_cons_of_mem statement hst)).append _

theorem silent_bodySpan (hplain : ∀ content, body content → closingProbe.Mutes content)
    {statements : List Statement}
    (h : ∀ statement ∈ statements, statement.Canonical body depth) {rest : List Char}
    (hrest : EndsLine ('\n' :: rest)) : closingProbe.Silent none (bodySpan statements) rest := by
  have hmem : closingProbe ∈ bodyProbes := by simp [bodyProbes]
  have hhead : closingProbe.word.head? ≠ some 't' := by decide
  cases statements with
  | nil =>
    rw [bodySpan_nil]
    trivial
  | cons statement statements =>
    have hothers := fun st hst => h st (List.mem_cons_of_mem statement hst)
    rw [bodySpan_cons, bodyText]
    refine Probe.silent_append.mpr ⟨Probe.silent_append.mpr ⟨?_, ?_⟩, ?_⟩
    · exact silent_text hmem hhead hplain (h statement List.mem_cons_self) none
        (endsLine_lines statements hrest).follows
    · exact silent_lines hmem hhead hplain hothers _ hrest
    · exact Probe.silent_marks regular_closingProbe (by decide) _ rest

/-! ## One block -/

namespace Block

/-- A block between its keyword and its `end`. -/
def inner (block : Block) : List Char :=
  ' ' :: (quoted block.name ++ (optionsText block.options ++ (' ' ::
    ("do |t|".toList ++ (block.statements.flatMap Statement.line ++ ['\n'])))))

theorem text_eq (block : Block) :
    block.text = TableBlock.keyword.toList ++ (block.inner ++ "end\n".toList) := by
  have hkeyword : "create_table ".toList = TableBlock.keyword.toList ++ [' '] := rfl
  have hend : "\nend\n".toList = '\n' :: "end\n".toList := rfl
  unfold Block.text Block.head inner
  rw [hkeyword, hend]
  -- the parts are put together in another order, whatever the literals are
  generalize TableBlock.keyword.toList = keyword
  generalize "do |t|".toList = opener
  generalize "end\n".toList = closing
  simp only [List.append_assoc, List.cons_append, List.nil_append]

/-- What a block is read as that stands at a byte offset. -/
def asBlock (block : Block) (start : Nat) : TableBlock where
  start := start
  stop := start + TableBlock.keyword.utf8ByteSize + byteLength block.inner
  name := block.name
  options := String.ofList (behindComma block.options ++ [' '])
  body := String.ofList (bodyText block.statements)

theorem stop_asBlock (block : Block) (start : Nat) :
    (block.asBlock start).stop + byteLength "end\n".toList = start + byteLength block.text := by
  have hsize : TableBlock.keyword.utf8ByteSize = byteLength TableBlock.keyword.toList := rfl
  show start + TableBlock.keyword.utf8ByteSize + byteLength block.inner + _ = _
  rw [text_eq, byteLength_append, byteLength_append, hsize]
  omega

end Block

theorem endsLine_end (rest : List Char) : EndsLine ('\n' :: ("end\n".toList ++ rest)) :=
  endsLine_newline (@follows_of_blank '\n' [] _ (by decide) (by simp) (stops_cons.mpr (by decide))
    (stops_cons.mpr (by decide)))

/-- What follows the name of a block, up to the `end` and behind it. -/
def behindName (block : Block) (rest : List Char) : List Char :=
  optionsText block.options ++ ' ' :: ("do |t|".toList ++
    (block.statements.flatMap Statement.line ++ '\n' :: ("end\n".toList ++ rest)))

theorem skipSome?_inner (block : Block) (rest : List Char) :
    skipSome? isBlank (block.inner ++ ("end\n".toList ++ rest)) =
      some (quoted block.name ++ behindName block rest) := by
  have h := @skipSome?_space isBlank (by decide) _
    (stops_quoted (by decide) block.name (behindName block rest))
  rw [← h, Block.inner, behindName]
  simp

theorem skipComma_behindName (block : Block) (rest : List Char) :
    skipComma (behindName block rest) = (behindComma block.options ++ [' ']) ++ ("do |t|".toList ++
      (block.statements.flatMap Statement.line ++ '\n' :: ("end\n".toList ++ rest))) := by
  rw [behindName, skipComma_optionsText _ (by decide : ' ' ≠ ','), List.append_assoc,
    List.singleton_append]

/-- The `end` of a block stands alone. -/
theorem isGap_bodySpan (statements : List Statement) :
    TableBlock.isGap (lastOf none (bodySpan statements)) = true := by
  cases statements with
  | nil => rfl
  | cons statement statements =>
    rw [bodySpan_cons, lastOf_append]
    exact (by decide : TableBlock.isGap (some '\n') = true)

/-- The block behind a keyword is read as it was written. -/
theorem at?_text (hheader : ∀ content, header content → openerProbe.Mutes content)
    (hbody : ∀ content, body content → closingProbe.Mutes content) {block : Block}
    (h : block.Canonical header body depth) (start : Nat) (rest : List Char) :
    TableBlock.at? ⟨start, block.inner ++ ("end\n".toList ++ rest)⟩ =
      some (block.asBlock start) := by
  obtain ⟨before, hopener⟩ := silent_behindComma hheader h.options
    (block.statements.flatMap Statement.line ++ '\n' :: ("end\n".toList ++ rest))
  have hline := newline_not_mem_behindComma h.options
  have hclosing := silent_bodySpan hbody h.statements (endsLine_end rest)
  have hend : Stops isBlank ("end\n".toList ++ rest) := stops_cons.mpr (by decide)
  unfold TableBlock.at?
  rw [skipSome?_inner, Option.bind_eq_bind, Option.bind_some, quotedName?_quoted h.name,
    Option.bind_eq_bind, Option.bind_some]
  simp only [skipComma_behindName]
  rw [TableBlock.opener?_of_silent hopener hline, TableBlock.opener?_do, trimStart_body _ hend]
  simp only [Option.bind_some]
  rw [TableBlock.closing?_of_silent hclosing, TableBlock.closing?_end (isGap_bodySpan _)]
  simp only [Option.bind_some, upTo_append, trimEnd_bodySpan h.statements, String.ofList_toList]
  rfl

/-! ## All blocks -/

/-- A block at the beginning of a text is found, and what lies inside it is left out. -/
theorem atSites_block (hheader : ∀ content, header content → openerProbe.Mutes content)
    (hbody : ∀ content, body content → closingProbe.Mutes content) {block : Block}
    (h : block.Canonical header body depth) {before : Option Char}
    (hbefore : isBoundary before = true) {resume offset : Nat} (hresume : resume ≤ offset)
    (rest : List Char) :
    TableBlock.atSites resume
        (sitesFrom TableBlock.keyword.toList before offset (block.text ++ rest)) =
      block.asBlock offset :: TableBlock.atSites (block.asBlock offset).stop
        (sitesFrom TableBlock.keyword.toList (some '\n') (offset + byteLength block.text) rest) := by
  obtain ⟨ks, hks⟩ : ∃ ks, TableBlock.keyword.toList = 'c' :: ks := ⟨_, rfl⟩
  have hat := at?_text hheader hbody h offset rest
  have hsize : TableBlock.keyword.utf8ByteSize = byteLength TableBlock.keyword.toList := rfl
  obtain ⟨first, hfirst, hlt⟩ := sitesFrom_append TableBlock.keyword.toList (some 'c')
    (offset + 'c'.utf8Size) (ks ++ block.inner) ("end\n".toList ++ rest)
  have hafter : after? TableBlock.keyword.toList
      ('c' :: (ks ++ block.inner ++ ("end\n".toList ++ rest))) =
      some (block.inner ++ ("end\n".toList ++ rest)) := by
    rw [after?_eq_some_iff, hks]
    simp only [List.cons_append, List.append_assoc]
  have hstop : (block.asBlock offset).stop =
      offset + 'c'.utf8Size + byteLength (ks ++ block.inner) := by
    show offset + TableBlock.keyword.utf8ByteSize + byteLength block.inner = _
    rw [hsize, hks, byteLength_cons, byteLength_append]
    omega
  have hheads : ∀ c ∈ "end\n".toList, some 'c' ≠ some c := by decide
  have hend := @sitesFrom_of_heads TableBlock.keyword.toList "end\n".toList
    (by rw [hks]; exact hheads) (by rw [hks]; exact List.cons_ne_nil _ _)
  have htext : block.text ++ rest = 'c' :: (ks ++ block.inner ++ ("end\n".toList ++ rest)) := by
    rw [Block.text_eq, hks]
    simp only [List.cons_append, List.append_assoc]
  rw [htext, sitesFrom, if_pos hbefore, hafter]
  simp only [TableBlock.atSites, if_neg (Nat.not_lt.mpr hresume), hat]
  rw [← Block.stop_asBlock, hfirst, hstop, TableBlock.atSites_of_lt hlt, hend]
  rfl

/-- The blocks of a dump are found in order, and there is no other before what follows them. -/
theorem atSites_blocks (hheader : ∀ content, header content → openerProbe.Mutes content)
    (hbody : ∀ content, body content → closingProbe.Mutes content) {blocks : List Block}
    (h : ∀ block ∈ blocks, block.Canonical header body depth) {before : Option Char}
    (hbefore : isBoundary before = true) {resume offset : Nat} (hresume : resume ≤ offset)
    {foot : List Char} (hfoot : ∀ before, tableProbe.Silent before foot []) :
    ∃ starts, starts.length = blocks.length ∧
      TableBlock.atSites resume
          (sitesFrom TableBlock.keyword.toList before offset (blocks.flatMap Block.text ++ foot)) =
        List.zipWith Block.asBlock blocks starts := by
  induction blocks generalizing before resume offset with
  | nil => exact ⟨[], rfl, TableBlock.atSites_of_silent (hfoot before)⟩
  | cons block blocks ih =>
    have hfirst := atSites_block hheader hbody (h block List.mem_cons_self) hbefore hresume
      (blocks.flatMap Block.text ++ foot)
    have hstop : (block.asBlock offset).stop ≤ offset + byteLength block.text := by
      rw [← Block.stop_asBlock]
      exact Nat.le_add_right _ _
    obtain ⟨starts, hlength, hothers⟩ := ih (fun b hb => h b (List.mem_cons_of_mem block hb))
      (by decide : isBoundary (some '\n') = true) hstop
    refine ⟨offset :: starts, by rw [List.length_cons, List.length_cons, hlength], ?_⟩
    rw [List.flatMap_cons, List.append_assoc, hfirst, hothers]
    rfl

/-- No foreign key is met in a block. -/
theorem silent_block (hheader : ∀ content, header content → keyProbe.Mutes content)
    (hbody : ∀ content, body content → keyProbe.Mutes content) {block : Block}
    (h : block.Canonical header body depth) (before : Option Char) (rest : List Char) :
    keyProbe.Silent before block.text rest := by
  have hmem : keyProbe ∈ bodyProbes := by simp [bodyProbes]
  have hheads : ∀ {cs : List Char} (before : Option Char) (rest : List Char), 'a' ∉ cs →
      keyProbe.Silent before cs rest := by
    intro cs before rest hcs
    refine Probe.silent_of_heads (fun c hc => ?_) regular_keyProbe.ne_nil before rest
    show some 'a' ≠ some c
    rintro ⟨⟩
    exact hcs hc
  have hkeyword : keyProbe.Silent before "create_table ".toList
      (quoted block.name ++ (optionsText block.options ++ [' ']) ++ ("do |t|".toList ++
        (block.statements.flatMap Statement.line ++ "\nend\n".toList) ++ rest)) :=
    Probe.silent_of_absent (by decide +kernel) (by decide +kernel) before _
  have hend : "\nend\n".toList = '\n' :: "end\n".toList := rfl
  refine Probe.silent_append.mpr ⟨Probe.silent_append.mpr ⟨hkeyword, ?_⟩, ?_⟩
  · refine Probe.silent_append.mpr ⟨silent_quoted regular_keyProbe h.name _ _, ?_⟩
    refine Probe.silent_append.mpr ⟨?_, Probe.silent_marks regular_keyProbe (by decide) _ _⟩
    exact silent_optionsText regular_keyProbe hheader h.options _ (follows_opener _)
  · refine Probe.silent_append.mpr ⟨hheads _ _ (by decide), Probe.silent_append.mpr ⟨?_, ?_⟩⟩
    · rw [hend]
      exact silent_lines hmem (by decide) hbody h.statements _ (endsLine_end rest)
    · exact hheads _ _ (by decide)

theorem silent_blocks (hheader : ∀ content, header content → keyProbe.Mutes content)
    (hbody : ∀ content, body content → keyProbe.Mutes content) {blocks : List Block}
    (h : ∀ block ∈ blocks, block.Canonical header body depth) (before : Option Char)
    (rest : List Char) : keyProbe.Silent before (blocks.flatMap Block.text) rest := by
  induction blocks generalizing before with
  | nil => trivial
  | cons block blocks ih =>
    refine Probe.silent_append.mpr ⟨silent_block hheader hbody (h block List.mem_cons_self) _ _, ?_⟩
    exact ih (fun b hb => h b (List.mem_cons_of_mem block hb)) _

end Dump

end RailsSchema
