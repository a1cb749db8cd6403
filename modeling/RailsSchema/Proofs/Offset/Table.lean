import RailsSchema.Proofs.Offset.Statement
import RailsSchema.Proofs.Statement.Concat

/-!
# Table blocks by byte offsets

The opener of a block is searched for among the matches of `do` on the line of the name, and its end
among the matches of `end` behind the opener; both searches hand on offsets into slices of the text.

* `opener_eq`, `closing_eq`: the searches find what the scanners on characters find;
* `tableBlock_eq`: so a block is read from the place of its keyword as on characters;
* `tableBlocks_eq`: and so are all blocks of a text.
-/

namespace RailsSchema.Offset

open Text

variable {text cs rest : List Char}

/-- The first match of `do` that opens a block, counted from the offset `start`, and the offset at
which the body begins. -/
def opener (text : List Char) (start : Nat) : List Nat → Except OffsetError (Option (Nat × Nat))
  | [] => return none
  | offset :: offsets => do
    let (_, parameter) ← eatWhile isBlank text (start + offset + 2)
    let (opens, next) ← eat ['|', 't', '|'] text parameter
    if opens then
      let (_, body) ← eatWhile isBlank text next
      return some (offset, body)
    else opener text start offsets

/-- The first match of `end` that stands alone in the body that begins at `start`. -/
def closing (text : List Char) (start : Nat) : List Nat → Except OffsetError (Option Nat)
  | [] => return none
  | pos :: positions => do
    let before ← slice text start pos
    let after ← dropBytes (pos + 3) text
    if TableBlock.isGap before.getLast? && TableBlock.isGap after.head? then return some pos
    else closing text start positions

/-- The block whose keyword stands at an offset. -/
def tableBlock (text : List Char) (start : Nat) : Except OffsetError (Option TableBlock) :=
  ifFound (skipSome isBlank text (start + byteLength TableBlock.keyword.toList)) fun next =>
  ifFound (doubleQuoted text next) fun (name, next) => do
  let (_, optionsStart) ← eatChar ',' text next
  let (line, _) ← eatWhile (· != '\n') text optionsStart
  ifFound (opener text optionsStart (indicesOf ['d', 'o'] line)) fun (length, bodyStart) => do
  let options ← slice text optionsStart (optionsStart + length)
  let behind ← dropBytes bodyStart text
  let ends := (indicesOf ['e', 'n', 'd'] behind).map (bodyStart + ·)
  ifFound (closing text bodyStart ends) fun stop => do
  let body ← slice text bodyStart stop
  return some {
    start := start
    stop := stop
    name := String.ofList name
    options := String.ofList options
    body := String.ofList (trimEnd body) }

/-- The blocks at some offsets, leaving out an offset before `resume`. -/
def blocksFrom (text : List Char) : (resume : Nat) → List Nat → Except OffsetError (List TableBlock)
  | _, [] => return []
  | resume, pos :: positions => do
    if pos < resume then blocksFrom text resume positions
    else
      match ← tableBlock text pos with
      | none => blocksFrom text resume positions
      | some block => return block :: (← blocksFrom text block.stop positions)

/-- The table blocks of a text. -/
def tableBlocks (text : List Char) : Except OffsetError (List TableBlock) := do
  blocksFrom text 0 (← keywordPositions TableBlock.keyword text)

/-! ## What the searches find -/

theorem offsetOf_add_upTo (h : rest <:+ cs) (hcs : cs <:+ text) :
    offsetOf text cs + byteLength (upTo cs rest) = offsetOf text rest := by
  obtain ⟨front, rfl⟩ := h
  rw [upTo_append]
  exact offsetOf_append_add hcs

theorem offsetOf_add_offsetOf (h : rest <:+ cs) (hcs : cs <:+ text) :
    offsetOf text cs + offsetOf cs rest = offsetOf text rest := by
  have h1 := byteLength_le_of_suffix h
  have h2 := byteLength_le_of_suffix hcs
  unfold offsetOf
  omega

/-- A word that does not run over lines stands at the front of a text if it does on its line. -/
theorem isPrefixOf_line {word : List Char} (hword : '\n' ∉ word) (cs : List Char) :
    word.isPrefixOf (line cs) = word.isPrefixOf cs := by
  have hsplit := List.takeWhile_append_dropWhile (p := (· != '\n')) (l := cs)
  cases hdrop : cs.dropWhile (· != '\n') with
  | nil =>
    rw [hdrop, List.append_nil] at hsplit
    rw [line, hsplit]
  | cons c more =>
    rw [hdrop, eq_of_dropWhile_ne hdrop] at hsplit
    have hafter := after?_append_newline hword (line cs) more
    rw [line, hsplit] at hafter
    rw [isPrefixOf_eq_isSome_after?, isPrefixOf_eq_isSome_after?, hafter, Option.isSome_map, line]

theorem suffix_of_opener? {opener body : List Char} (h : TableBlock.opener? cs = some (opener, body)) :
    opener <:+ cs ∧ body <:+ opener := by
  obtain ⟨front, rfl, hafter⟩ := TableBlock.exists_of_opener? h
  obtain ⟨blanks, behind, rfl, -, rfl⟩ := TableBlock.afterOpener?_eq_some_iff.mp hafter
  refine ⟨List.suffix_append _ _, (trimStart_suffix behind).trans ?_⟩
  exact ⟨'d' :: 'o' :: (blanks ++ ['|', 't', '|']), by simp⟩

theorem opener_eq (front cs : List Char) (h : front ++ cs <:+ text) :
    opener text (offsetOf text (front ++ cs))
        (((line cs).tails.filter ['d', 'o'].isPrefixOf).map (offsetOf (front ++ line cs))) =
      .ok ((TableBlock.opener? cs).map fun found =>
        (byteLength (upTo (front ++ cs) found.1), offsetOf text found.2)) := by
  induction cs generalizing front with
  | nil => rfl
  | cons c cs ih =>
    by_cases hc : c = '\n'
    · subst hc
      rfl
    have hline : line (c :: cs) = c :: line cs := List.takeWhile_cons_of_pos (by simpa using hc)
    have hprefix := isPrefixOf_line (by decide : '\n' ∉ ['d', 'o']) (c :: cs)
    have hnext := ih (front ++ [c]) (by simpa using h)
    simp only [List.append_assoc, List.singleton_append] at hnext
    have hstart := offsetOf_append_add h
    rw [hline] at hprefix ⊢
    rw [List.tails_cons, List.filter_cons, hprefix, isPrefixOf_eq_isSome_after?, TableBlock.opener?,
      if_neg hc]
    cases hafter : after? ['d', 'o'] (c :: cs) with
    | none =>
      have hnone : TableBlock.afterOpener? (c :: cs) = none := by
        rw [TableBlock.afterOpener?, hafter]
        rfl
      simp only [Option.isSome_none, Bool.false_eq_true, if_false, hnone]
      exact hnext
    | some parameter =>
      have hcs := (List.suffix_append front (c :: cs)).trans h
      have hparameter := (suffix_of_after? hafter).trans hcs
      have hblanks := (trimStart_suffix parameter).trans hparameter
      have hpos : offsetOf text (front ++ c :: cs) + byteLength front + 2 =
          offsetOf text parameter := by
        rw [hstart, after?_eq_some_iff.mp hafter]
        exact offsetOf_append_add (after?_eq_some_iff.mp hafter ▸ hcs)
      simp only [Option.isSome_some, if_true, List.map_cons, offsetOf_append, opener, hpos,
        skipBlanks_offsetOf hparameter, eat_offsetOf hblanks, ok_bind, TableBlock.afterOpener?,
        hafter, Option.bind_eq_bind, Option.bind_some]
      cases hopens : after? ['|', 't', '|'] (trimStart parameter) with
      | none => exact hnext
      | some body =>
        have hbody := (suffix_of_after? hopens).trans hblanks
        simp only [if_true, skipBlanks_offsetOf hbody, ok_bind, pure_eq_ok, Option.bind_some,
          Option.pure_def, Option.map_some, upTo_append]

theorem closing_eq (front cs : List Char) (h : front ++ cs <:+ text) :
    closing text (offsetOf text (front ++ cs))
        ((cs.tails.filter ['e', 'n', 'd'].isPrefixOf).map (offsetOf text)) =
      .ok ((TableBlock.closing? front.getLast? cs).map (offsetOf text)) := by
  induction cs generalizing front with
  | nil => rfl
  | cons c cs ih =>
    have hnext := ih (front ++ [c]) (by simpa using h)
    simp only [List.append_assoc, List.singleton_append, List.getLast?_concat] at hnext
    have hcs := (List.suffix_append front (c :: cs)).trans h
    rw [List.tails_cons, List.filter_cons, isPrefixOf_eq_isSome_after?, TableBlock.closing?,
      TableBlock.isClosing]
    cases hafter : after? ['e', 'n', 'd'] (c :: cs) with
    | none =>
      simp only [Option.isSome_none, Bool.and_false, Bool.false_eq_true, if_false]
      exact hnext
    | some after =>
      have hslice := slice_offsetOf (List.suffix_append front (c :: cs)) h
      have hrest := (suffix_of_after? hafter).trans hcs
      have hpos : offsetOf text (c :: cs) + 3 = offsetOf text after := by
        rw [after?_eq_some_iff.mp hafter]
        exact offsetOf_append_add (after?_eq_some_iff.mp hafter ▸ hcs)
      simp only [Option.isSome_some, if_true, List.map_cons, closing, hslice, upTo_append, ok_bind,
        hpos, dropBytes_offsetOf hrest]
      split
      · rfl
      · exact hnext

theorem suffix_of_closing? {before : Option Char} {closing : List Char}
    (h : TableBlock.closing? before cs = some closing) : closing <:+ cs := by
  induction cs generalizing before with
  | nil => cases h
  | cons c cs ih =>
    rw [TableBlock.closing?] at h
    split at h
    · cases h
      exact List.suffix_refl _
    · exact (ih h).trans (List.suffix_cons c cs)

theorem hasOwnHead_do : HasOwnHead ['d', 'o'] := ⟨_, _, rfl, by decide⟩

theorem hasOwnHead_end : HasOwnHead ['e', 'n', 'd'] := ⟨_, _, rfl, by decide⟩

theorem opener_line (h : cs <:+ text) :
    opener text (offsetOf text cs) (indicesOf ['d', 'o'] (cs.takeWhile (· != '\n'))) =
      .ok ((TableBlock.opener? cs).map fun found =>
        (byteLength (upTo cs found.1), offsetOf text found.2)) := by
  rw [indicesOf_eq hasOwnHead_do]
  exact opener_eq [] cs h

theorem closing_body (h : cs <:+ text) :
    closing text (offsetOf text cs)
        ((indicesOf ['e', 'n', 'd'] cs).map (offsetOf text cs + ·)) =
      .ok ((TableBlock.closing? none cs).map (offsetOf text)) := by
  have hpositions : (indicesOf ['e', 'n', 'd'] cs).map (offsetOf text cs + ·) =
      (cs.tails.filter ['e', 'n', 'd'].isPrefixOf).map (offsetOf text) := by
    rw [indicesOf_eq hasOwnHead_end, List.map_map]
    refine List.map_congr_left fun ds hds => ?_
    exact offsetOf_add_offsetOf ((List.mem_tails ds cs).mp (List.mem_filter.mp hds).1) h
  rw [hpositions]
  exact closing_eq [] cs h

theorem tableBlock_eq {site : Site} (h : site ∈ sites TableBlock.keyword text) :
    tableBlock text site.start = .ok (TableBlock.at? site) := by
  obtain ⟨hrest, hstart⟩ := start_add_of_mem_sites (by decide) h
  rw [tableBlock, hstart]
  refine ifFound_eq (skipSome_offsetOf hrest) fun list hlist => ?_
  have hlist := (isProperEnd_of_skipSome? hlist).1
  refine ifFound_eq (doubleQuoted_offsetOf (hlist.trans hrest)) fun found hname => ?_
  have hname := (suffix_of_quotedName? hname).trans hlist
  have hcomma := (skipComma_suffix found.2).trans hname
  have hoptions := hcomma.trans hrest
  simp only [locate, skipComma_offsetOf (hname.trans hrest), eatWhile_offsetOf hoptions, ok_bind]
  refine ifFound_eq (opener_line hoptions) fun opened hopener => ?_
  obtain ⟨hopener, hbody⟩ := suffix_of_opener? hopener
  have hbehind := hbody.trans (hopener.trans hoptions)
  simp only [offsetOf_add_upTo hopener hoptions, slice_offsetOf hopener hoptions,
    dropBytes_offsetOf hbehind, ok_bind]
  refine ifFound_eq (closing_body hbehind) fun closing hclosing => ?_
  have hclosing := suffix_of_closing? hclosing
  have hstop : offsetOf text closing =
      site.start + byteLength TableBlock.keyword.toList + byteLength (upTo site.rest closing) := by
    rw [hstart, offsetOf_add_upTo (hclosing.trans (hbody.trans (hopener.trans hcomma))) hrest]
  rw [slice_offsetOf hclosing hbehind, ok_bind, hstop]
  rfl

theorem blocksFrom_eq {found : List Site}
    (h : ∀ site ∈ found, tableBlock text site.start = .ok (TableBlock.at? site)) (resume : Nat) :
    blocksFrom text resume (found.map (·.start)) = .ok (TableBlock.atSites resume found) := by
  induction found generalizing resume with
  | nil => rfl
  | cons site found ih =>
    obtain ⟨hsite, hfound⟩ := List.forall_mem_cons.mp h
    rw [List.map_cons, blocksFrom, TableBlock.atSites, hsite, ok_bind]
    by_cases hskip : site.start < resume
    · rw [if_pos hskip, if_pos hskip, ih hfound]
    · rw [if_neg hskip, if_neg hskip]
      cases TableBlock.at? site with
      | none => exact ih hfound resume
      | some block =>
        simp only [ih hfound, ok_bind, pure_eq_ok]

theorem tableBlocks_eq (text : String) : tableBlocks text.toList = .ok (TableBlock.all text) := by
  have hword : HasOwnHead TableBlock.keyword.toList := ⟨_, _, rfl, by decide⟩
  rw [tableBlocks, keywordPositions_eq hword, ok_bind]
  exact blocksFrom_eq (fun site hsite => tableBlock_eq hsite) 0

end RailsSchema.Offset
