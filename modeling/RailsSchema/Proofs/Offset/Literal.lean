import RailsSchema.Literal.Listing
import RailsSchema.Proofs.Literal.Lists
import RailsSchema.Proofs.Offset.Group

/-!
# Literals by byte offsets

A literal is read from an offset and comes with the offset at which it ends. Lists and maps are
slices of the text that are read by themselves, from the offset 0 on.

* `listing_offsetOf`: if the items are read as a reader reads them, so is a list of them; that every
  item takes something, which the loop relies on, is what `Reader` says of it;
* `literal_offsetOf`: at every place and to every depth, the literal that is read is the one that the
  reader on characters reads, and it ends where that reader stops;
* `literal_eq`: from any offset whatsoever the outcome is that of `Literal.readAt`, so reading fails
  just at the offsets that are no places;
* `items_eq`, `entries_eq`: a text is read as the same list or the same map.
-/

namespace RailsSchema.Offset

open Text

variable {text cs rest : List Char}

/-- The next character, and the offset behind it. -/
def bump (text : List Char) (pos : Nat) : Except OffsetError (Option (Char × Nat)) := do
  return (← peek text pos).map fun c => (c, pos + c.utf8Size)

/-! ## Keys -/

/-- The offset behind an arrow with white space around it. -/
def arrow (text : List Char) (pos : Nat) : Except OffsetError (Option Nat) := do
  let (_, next) ← eatWhile isBlank text pos
  let (found, next) ← eat ['=', '>'] text next
  if !found then return none
  let (_, next) ← eatWhile isBlank text next
  return some next

/-- A key, and the offset at which its value begins. -/
def key (text : List Char) (pos : Nat) : Except OffsetError (Option (List Char × Nat)) :=
  ifFound (bump text pos) fun (c, behind) => do
  if isQuote c then
    ifFound (untilQuote c text behind) fun (name, next) =>
    ifFound (arrow text next) fun next =>
    return some (name, next)
  else if c = ':' then
    let (name, next) ← eatWhile isWordChar text behind
    if name.isEmpty then return none
    ifFound (arrow text next) fun next =>
    return some (name, next)
  else
    let (name, next) ← eatWhile isWordChar text pos
    if name.isEmpty then return none
    let (colon, next) ← eatChar ':' text next
    if !colon then return none
    if (← peek text next) = some ':' then return none
    let (_, next) ← eatWhile isBlank text next
    return some (name, next)

/-! ## Literals -/

/-- A quoted text. -/
def quoted (text : List Char) (pos : Nat) : Except OffsetError (Option (Literal × Nat)) :=
  ifFound (bump text pos) fun (quote, start) =>
  ifFound (untilQuote quote text start) fun (inner, stop) =>
  return some (.str (String.ofList inner), stop)

/-- A callable. -/
def callable (text : List Char) (start : Nat) : Except OffsetError (Option (Literal × Nat)) := do
  let (_, next) ← eat ['-', '>'] text start
  let (_, next) ← eatWhile isBlank text next
  if (← peek text next) ≠ some Bracket.curly.opening then return none
  ifFound (groupEnd text next) fun stop => do
  return some (.callable (String.ofList (← slice text start stop)), stop)

/-- A bare token. -/
def bare (text : List Char) (pos : Nat) : Except OffsetError (Option (Literal × Nat)) := do
  let (marked, start) ← eatChar ':' text pos
  let (token, stop) ← eatWhile Literal.isTokenChar text start
  return if token.isEmpty then none else some (Literal.ofToken marked token, stop)

/-- Reads items up to the end of the text or to the first place where there is none. An item that
takes nothing would be read forever, and one that ends behind the text cannot be followed by
another. -/
def listing {α : Type} (item : List Char → Nat → Except OffsetError (Except Cut (α × Nat)))
    (text : List Char) (pos : Nat) : Except OffsetError (Listing α) := do
  let (_, start) ← eatWhile isSeparator text pos
  if byteLength text ≤ start then return ⟨[], none⟩
  match ← item text start with
  | .error cut => return ⟨[], some cut⟩
  | .ok (a, stop) =>
    if _h : pos < stop ∧ stop ≤ byteLength text then
      let others ← listing item text stop
      return ⟨a :: others.items, others.cut⟩
    else .error .pastEnd
termination_by byteLength text - pos

variable (value : List Char → Nat → Except OffsetError (Option (Literal × Nat)))

/-- An item of a list. -/
def item (text : List Char) (pos : Nat) : Except OffsetError (Except Cut (Literal × Nat)) := do
  match ← value text pos with
  | none => return .error (.item (String.ofList (← dropBytes pos text)))
  | some found => return .ok found

/-- An entry of a map. -/
def entry (text : List Char) (pos : Nat) :
    Except OffsetError (Except Cut ((String × Literal) × Nat)) := do
  match ← key text pos with
  | none => return .error (.key (String.ofList (← dropBytes pos text)))
  | some (name, start) =>
    match ← value text start with
    | none =>
      return .error (.value (String.ofList name) (String.ofList (← dropBytes start text)))
    | some (literal, stop) => return .ok ((String.ofList name, literal), stop)

/-- A list or a map, `value` reading what is in it. -/
def nested (text : List Char) (start : Nat) : Except OffsetError (Option (Literal × Nat)) :=
  ifFound (groupEnd text start) fun stop => do
  let inner ← slice text (start + 1) (← back stop 1)
  if (← dropBytes start text).head? = some Bracket.curly.opening then
    let entries ← listing (entry value) inner 0
    return some (.hash entries.items entries.cut, stop)
  else
    let items ← listing (item value) inner 0
    return some (.array items.items items.cut, stop)

/-- A literal behind white space, `inBrackets` reading lists and maps. -/
def form (inBrackets : List Char → Nat → Except OffsetError (Option (Literal × Nat)))
    (text : List Char) (pos : Nat) : Except OffsetError (Option (Literal × Nat)) := do
  let (_, start) ← eatWhile isBlank text pos
  match ← peek text start with
  | none => return none
  | some c =>
    if isQuote c then quoted text start
    else if c = '-' then
      if ['-', '>'].isPrefixOf (← dropBytes start text) then callable text start
      else bare text start
    else if (Bracket.ofOpening? c).isSome then inBrackets text start
    else bare text start

/-- A literal behind white space, with lists and maps nested at most `room` deep. -/
def literal : (room : Nat) → List Char → Nat → Except OffsetError (Option (Literal × Nat))
  | 0 => form fun _ _ => return none
  | room + 1 => form (nested (literal room))

/-! ## What keys are found -/

theorem bump_offsetOf {c : Char} (h : c :: cs <:+ text) :
    bump text (offsetOf text (c :: cs)) = .ok (some (c, offsetOf text cs)) := by
  rw [bump, peek_offsetOf h, ok_bind, ← offsetOf_cons_add h]
  rfl

theorem bump_end (text : List Char) : bump text (byteLength text) = .ok none := by
  rw [bump, ← offsetOf_nil, peek_offsetOf List.nil_suffix]
  rfl

theorem arrow_offsetOf (h : cs <:+ text) :
    arrow text (offsetOf text cs) = .ok ((Literal.afterArrow? cs).map (offsetOf text)) := by
  have hblanks := (trimStart_suffix cs).trans h
  simp only [arrow, skipBlanks_offsetOf h, eat_offsetOf hblanks, ok_bind, Literal.afterArrow?]
  cases hafter : after? ['=', '>'] (trimStart cs) with
  | none => rfl
  | some behind =>
    have hbehind := (suffix_of_after? hafter).trans hblanks
    simp only [Bool.not_true, Bool.false_eq_true, if_false, skipBlanks_offsetOf hbehind, ok_bind]
    rfl

theorem ifFound_name (name : List Char) (h : cs <:+ text) :
    (ifFound (arrow text (offsetOf text cs)) fun next => return some (name, next)) =
      .ok ((Literal.afterArrow? cs).map fun rest => (name, offsetOf text rest)) := by
  rw [Option.map_eq_bind]
  exact ifFound_eq (arrow_offsetOf h) fun _ _ => rfl

theorem key?_cons (c : Char) (cs : List Char) :
    Literal.key? (c :: cs) =
      if isQuote c then Literal.quotedKey? c cs
      else if c = ':' then Literal.symbolKey? cs
      else Literal.labelKey? (c :: cs) := by
  unfold Literal.key?
  split
  · next heq => cases heq; rfl
  · next heq => cases heq; rfl
  · next heq => cases heq; rfl
  · next hdouble hsingle hcolon =>
    have hc : c ≠ ':' := fun heq => hcolon cs (by rw [heq])
    have hquote : ¬ isQuote c = true := by
      intro hquote
      simp only [isQuote, Bool.or_eq_true, beq_iff_eq] at hquote
      rcases hquote with rfl | rfl
      · exact hdouble cs rfl
      · exact hsingle cs rfl
    rw [if_neg hquote, if_neg hc]

theorem labelKey?_eq (cs : List Char) :
    Literal.labelKey? cs =
      if (cs.takeWhile isWordChar).isEmpty then none
      else (after? [':'] (cs.dropWhile isWordChar)).bind fun behind =>
        if behind.head? = some ':' then none
        else some (cs.takeWhile isWordChar, trimStart behind) := by
  unfold Literal.labelKey?
  cases cs.takeWhile isWordChar with
  | nil => rfl
  | cons d name =>
    cases hcolon : after? [':'] (cs.dropWhile isWordChar) with
    | none =>
      simp only [List.isEmpty_cons, Bool.false_eq_true, if_false, Option.bind_none]
      split
      · next heq =>
        rw [heq] at hcolon
        cases hcolon
      · rfl
    | some behind =>
      rw [after?_eq_some_iff.mp hcolon]
      rfl

theorem key_offsetOf (h : cs <:+ text) :
    key text (offsetOf text cs) = .ok ((Literal.key? cs).map (locate text)) := by
  cases cs with
  | nil =>
    rw [offsetOf_nil, key, bump_end]
    rfl
  | cons c cs =>
  have hcs := (List.suffix_cons c cs).trans h
  rw [key, bump_offsetOf h, key?_cons]
  change (if isQuote c = true then _ else if c = ':' then _ else _) = _
  split_ifs with hquote hcolon
  · rw [Literal.quotedKey?, Option.bind_eq_bind, Option.map_bind]
    refine ifFound_eq (untilQuote_offsetOf _ hcs) fun found hfound => ?_
    have hfound := (isProperEnd_of_untilQuote? hfound).1.trans hcs
    refine (ifFound_name found.1 hfound).trans ?_
    cases hafter : Literal.afterArrow? found.2 <;> simp [hafter, locate]
  · rw [eatWhile_offsetOf hcs, ok_bind, Literal.symbolKey?]
    cases hname : cs.takeWhile isWordChar with
    | nil => rfl
    | cons d name =>
      refine (ifFound_name (d :: name) ((List.dropWhile_suffix isWordChar).trans hcs)).trans ?_
      rw [Option.map_map]
      rfl
  · have hbehind := (List.dropWhile_suffix isWordChar).trans h
    rw [eatWhile_offsetOf h, ok_bind, labelKey?_eq]
    cases hempty : ((c :: cs).takeWhile isWordChar).isEmpty with
    | true => simp only [hempty, if_true]; rfl
    | false =>
      simp only [hempty, Bool.false_eq_true, if_false, eatChar_offsetOf hbehind, ok_bind]
      cases hcolon : after? [':'] ((c :: cs).dropWhile isWordChar) with
      | none => rfl
      | some behind =>
        have hlabel := (suffix_of_after? hcolon).trans hbehind
        simp only [Bool.not_true, Bool.false_eq_true, if_false, peek_offsetOf hlabel,
          skipBlanks_offsetOf hlabel, ok_bind, Option.bind_some]
        split <;> rfl

/-! ## What scalars are found -/

theorem quoted_offsetOf {quote : Char} (h : quote :: cs <:+ text) :
    quoted text (offsetOf text (quote :: cs)) =
      .ok ((Literal.quoted? quote cs).map (locate text)) := by
  have hcs := (List.suffix_cons quote cs).trans h
  rw [quoted, bump_offsetOf h, Literal.quoted?, Option.map_map, Option.map_eq_bind]
  change ifFound (untilQuote quote text (offsetOf text cs)) _ = _
  exact ifFound_eq (untilQuote_offsetOf _ hcs) fun _ _ => rfl

theorem callable_offsetOf (h : '-' :: '>' :: cs <:+ text) :
    callable text (offsetOf text ('-' :: '>' :: cs)) =
      .ok ((Literal.callable? ('-' :: '>' :: cs) cs).map (locate text)) := by
  have hcs := (List.suffix_append ['-', '>'] cs).trans h
  have hblanks := (trimStart_suffix cs).trans hcs
  have harrow : after? ['-', '>'] ('-' :: '>' :: cs) = some cs := rfl
  simp only [callable, eat_offsetOf h, harrow, skipBlanks_offsetOf hcs, peek_offsetOf hblanks,
    groupEnd_offsetOf hblanks, ok_bind, Literal.callable?]
  cases hgroup : group? (trimStart cs) with
  | none =>
    split <;> rfl
  | some group =>
    obtain ⟨bracket, inner, rest⟩ := group
    rw [head?_eq_of_group? hgroup]
    cases bracket with
    | square => rfl
    | curly =>
      have hrest : rest <:+ cs := (Group.isProperEnd_rest hgroup).1.trans (trimStart_suffix cs)
      have hslice := slice_offsetOf (hrest.trans (List.suffix_append ['-', '>'] cs)) h
      simp only [ne_eq, not_true_eq_false, if_false]
      change Except.bind (slice text _ (offsetOf text rest)) _ = _
      exact congrArg (Except.bind · _) hslice

theorem bare_offsetOf (h : cs <:+ text) :
    bare text (offsetOf text cs) = .ok ((Literal.bare? cs).map (locate text)) := by
  have htoken : ∀ (marked : Bool) (ds : List Char), ds <:+ text →
      (do
        let (token, stop) ← eatWhile Literal.isTokenChar text (offsetOf text ds)
        return if token.isEmpty then none else some (Literal.ofToken marked token, stop)) =
      Except.ok ((Literal.token? marked ds).map (locate text)) := by
    intro marked ds hds
    rw [eatWhile_offsetOf hds, Literal.token?]
    cases ds.takeWhile Literal.isTokenChar <;> rfl
  rw [bare, eatChar_offsetOf h, ok_bind]
  cases hcolon : after? [':'] cs with
  | none =>
    have hbare : Literal.bare? cs = Literal.token? false cs := by
      unfold Literal.bare?
      split
      · cases hcolon
      · rfl
    rw [hbare]
    exact htoken false cs h
  | some ds =>
    obtain rfl : cs = ':' :: ds := after?_eq_some_iff.mp hcolon
    exact htoken true ds ((List.suffix_cons ':' ds).trans h)

/-! ## What lists and maps are found -/

/-- Whether a program by offsets reads what a reader reads. -/
def Follows (value : List Char → Nat → Except OffsetError (Option (Literal × Nat)))
    (reader : Reader Literal) : Prop :=
  ∀ {text cs : List Char}, cs <:+ text →
    value text (offsetOf text cs) = .ok ((reader.run cs).map (locate text))

/-- An item that a reader takes off the front of a text, or the cut. -/
def itemOf {α : Type} (reader : Reader α) (cutAt : List Char → Cut) (text cs : List Char) :
    Except Cut (α × Nat) :=
  match reader.run cs with
  | none => .error (cutAt cs)
  | some found => .ok (locate text found)

variable {value} {reader : Reader Literal}

theorem item_offsetOf (hvalue : Follows value reader) (h : cs <:+ text) :
    item value text (offsetOf text cs) = .ok (itemOf reader Literal.itemCut text cs) := by
  rw [item, hvalue h, ok_bind, dropBytes_offsetOf h, itemOf]
  cases reader.run cs <;> rfl

theorem entry_offsetOf (hvalue : Follows value reader) (h : cs <:+ text) :
    entry value text (offsetOf text cs) =
      .ok (itemOf (Literal.entryReader reader) Literal.entryCut text cs) := by
  have hrun : (Literal.entryReader reader).run cs =
      (Literal.key? cs).bind fun found => (reader.run found.2).bind fun literal =>
        some ((String.ofList found.1, literal.1), literal.2) := rfl
  rw [entry, key_offsetOf h, ok_bind, dropBytes_offsetOf h, itemOf, hrun, Literal.entryCut]
  cases hkey : Literal.key? cs with
  | none => rfl
  | some found =>
    have hbehind := (Literal.isProperEnd_of_key? hkey).1.trans h
    simp only [Option.map_some, locate, hvalue hbehind, dropBytes_offsetOf hbehind, ok_bind,
      Option.bind_some]
    cases reader.run found.2 <;> rfl

theorem listing_offsetOf {α : Type} {reader : Reader α} {cutAt : List Char → Cut}
    {item : List Char → Nat → Except OffsetError (Except Cut (α × Nat))}
    (hitem : ∀ {cs}, cs <:+ text → item text (offsetOf text cs) = .ok (itemOf reader cutAt text cs))
    (h : cs <:+ text) :
    listing item text (offsetOf text cs) = .ok (reader.listing cutAt cs) := by
  induction hlength : cs.length using Nat.strongRecOn generalizing cs with
  | ind length ih =>
  have hstart := List.dropWhile_suffix isSeparator (l := cs)
  rw [listing, eatWhile_offsetOf h, ok_bind]
  dsimp only
  cases hcs : cs.dropWhile isSeparator with
  | nil =>
    rw [Reader.listing_nil hcs, offsetOf_nil, if_pos (Nat.le_refl _)]
    rfl
  | cons c following =>
    rw [hcs] at hstart
    have hplace := hstart.trans h
    have hlt := offsetOf_lt_offsetOf (.of_suffix (List.nil_suffix) c) hplace
    rw [offsetOf_nil] at hlt
    rw [if_neg (Nat.not_le.mpr hlt), hitem hplace, ok_bind, itemOf]
    cases hrun : reader.run (c :: following) with
    | none => rw [Reader.listing_cut hcs hrun]; rfl
    | some found =>
      obtain ⟨a, rest⟩ := found
      have hrest := (reader.isProperEnd hrun).trans_suffix hstart
      have hbounds : offsetOf text cs < offsetOf text rest ∧ offsetOf text rest ≤ byteLength text :=
        ⟨offsetOf_lt_offsetOf hrest h, offsetOf_le_byteLength text rest⟩
      have hothers := ih rest.length (hlength ▸ hrest.2) (hrest.1.trans h) rfl
      simp only [locate, dif_pos hbounds, hothers, ok_bind, pure_eq_ok,
        Reader.listing_cons hcs hrun]

theorem nested_offsetOf (hvalue : Follows value reader) (h : cs <:+ text) :
    nested value text (offsetOf text cs) =
      .ok ((Literal.nested? reader cs).map (locate text)) := by
  rw [Literal.nested?, Option.map_map, Option.map_eq_bind, nested, groupEnd_offsetOf h]
  refine ifFound_eq rfl fun group hgroup => ?_
  obtain ⟨stop, hstop, hinner⟩ := slice_inner hgroup h
  have hitems := listing_offsetOf (item_offsetOf hvalue) (List.suffix_refl group.inner)
  have hentries := listing_offsetOf (entry_offsetOf hvalue) (List.suffix_refl group.inner)
  rw [offsetOf_self] at hitems hentries
  rw [hstop, ok_bind, hinner, ok_bind, dropBytes_offsetOf h, ok_bind, head?_eq_of_group? hgroup,
    hitems, hentries]
  simp only [Function.comp, Literal.ofGroup]
  cases group.bracket <;> rfl

theorem form?_cons (inBrackets : List Char → Option (Literal × List Char)) (c : Char)
    (cs : List Char) :
    Literal.form? inBrackets (c :: cs) =
      if isQuote c then Literal.quoted? c cs
      else if c = '-' then
        match after? ['-', '>'] (c :: cs) with
        | some behind => Literal.callable? (c :: cs) behind
        | none => Literal.bare? (c :: cs)
      else if (Bracket.ofOpening? c).isSome then inBrackets (c :: cs)
      else Literal.bare? (c :: cs) := by
  by_cases hquote : isQuote c = true
  · rw [if_pos hquote]
    simp only [isQuote, Bool.or_eq_true, beq_iff_eq] at hquote
    rcases hquote with rfl | rfl <;> rfl
  rw [if_neg hquote]
  by_cases hminus : c = '-'
  · subst hminus
    cases hafter : after? ['-', '>'] ('-' :: cs) with
    | none =>
      change Literal.scalar? ('-' :: cs) = Literal.bare? ('-' :: cs)
      unfold Literal.scalar?
      split
      · next heq => cases heq
      · next heq => cases heq
      · next heq =>
        rw [heq] at hafter
        cases hafter
      · rfl
    | some behind =>
      obtain ⟨-, rfl⟩ := List.cons.inj (after?_eq_some_iff.mp hafter)
      rfl
  rw [if_neg hminus, Literal.form?]
  split
  · rfl
  · unfold Literal.scalar?
    split
    · next heq => cases heq; exact absurd rfl hquote
    · next heq => cases heq; exact absurd rfl hquote
    · next heq => cases heq; exact absurd rfl hminus
    · rfl

theorem form_offsetOf {inBrackets : List Char → Nat → Except OffsetError (Option (Literal × Nat))}
    (inBrackets? : List Char → Option (Literal × List Char))
    (hbrackets : ∀ {cs}, cs <:+ text →
      inBrackets text (offsetOf text cs) = .ok ((inBrackets? cs).map (locate text)))
    (h : cs <:+ text) :
    form inBrackets text (offsetOf text cs) =
      .ok ((Literal.form? inBrackets? (trimStart cs)).map (locate text)) := by
  have hblanks := (trimStart_suffix cs).trans h
  rw [form, skipBlanks_offsetOf h, ok_bind]
  dsimp only
  rw [peek_offsetOf hblanks, ok_bind, dropBytes_offsetOf hblanks]
  cases hstart : trimStart cs with
  | nil => rfl
  | cons c behind =>
    rw [hstart] at hblanks
    rw [form?_cons]
    simp only [List.head?_cons, ok_bind, isPrefixOf_eq_isSome_after?]
    split_ifs with hquote hminus harrow hopening
    · exact quoted_offsetOf hblanks
    · obtain ⟨following, hafter⟩ := Option.isSome_iff_exists.mp harrow
      rw [hafter]
      rw [after?_eq_some_iff.mp hafter] at hblanks ⊢
      exact callable_offsetOf hblanks
    · rw [Option.not_isSome_iff_eq_none.mp harrow]
      exact bare_offsetOf hblanks
    · exact hbrackets hblanks
    · exact bare_offsetOf hblanks

theorem literal_offsetOf (room : Nat) : Follows (literal room) (Literal.reader room) := by
  induction room with
  | zero =>
    intro text cs h
    exact form_offsetOf (fun _ => none) (fun _ => rfl) h
  | succ room ih =>
    intro text cs h
    exact form_offsetOf (Literal.nested? (Literal.reader room)) (fun h => nested_offsetOf ih h) h

theorem literal_eq (room : Nat) (text : List Char) (pos : Nat) :
    literal room text pos = Literal.readAt room text pos := by
  show literal room text pos = (dropBytes pos text >>= fun cs => _)
  cases hdrop : dropBytes pos text with
  | error e =>
    have hform : ∀ inBrackets, form inBrackets text pos = .error e := fun inBrackets => by
      rw [form, eatWhile_of_error hdrop, error_bind]
    cases room <;> exact hform _
  | ok cs =>
    obtain ⟨hcs, rfl⟩ := dropBytes_eq_ok_iff_offsetOf.mp hdrop
    rw [literal_offsetOf room hcs]
    rfl

theorem items_eq (room : Nat) (text : List Char) :
    listing (item (literal room)) text 0 = .ok (Literal.items room text) := by
  have h := listing_offsetOf (fun h => item_offsetOf (literal_offsetOf room) h)
    (List.suffix_refl text)
  rwa [offsetOf_self] at h

theorem entries_eq (room : Nat) (text : List Char) :
    listing (entry (literal room)) text 0 = .ok (Literal.entries room text) := by
  have h := listing_offsetOf (fun h => entry_offsetOf (literal_offsetOf room) h)
    (List.suffix_refl text)
  rwa [offsetOf_self] at h

end RailsSchema.Offset
