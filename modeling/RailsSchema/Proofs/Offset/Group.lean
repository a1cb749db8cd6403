import RailsSchema.Text.Bracket
import RailsSchema.Proofs.Offset.Cursor

/-!
# Bracketed groups by byte offsets

The search for the end of a group takes one character after the other and keeps the brackets that
stand open. At a quote it takes the quoted run in one go, where the scanner on characters remembers
the quote instead (`afterGroup?_quote`).

* `groupEndFrom_offsetOf`: from any place and with any open brackets, the search by offsets ends
  where the scanner does;
* `groupEnd_eq`: so it does from any offset whatsoever, and it fails just at the offsets that are no
  places;
* `slice_group`, `slice_inner`: the slices that are taken of a group.
-/

namespace RailsSchema.Offset

open Text

variable {text cs rest : List Char}

/-- The offset behind the partner of the outermost of the `pending` brackets, innermost first. A
character at which no bracket is open any more, or none has been opened, ends the search. -/
def groupEndFrom (text : List Char) (pending : List Bracket) (pos : Nat) :
    Except OffsetError (Option Nat) :=
  match _h : peek text pos with
  | .error e => .error e
  | .ok none => .ok none
  | .ok (some c) =>
    match Bracket.ofOpening? c, Bracket.ofClosing? c with
    | some b, _ => groupEndFrom text (b :: pending) (pos + c.utf8Size)
    | none, some b =>
      match pending with
      | [] => .ok none
      | top :: below =>
        if b = top then
          if below = [] then .ok (some (pos + c.utf8Size))
          else groupEndFrom text below (pos + c.utf8Size)
        else .ok none
    | none, none =>
      if isQuote c then
        match _hq : untilQuote c text (pos + c.utf8Size) with
        | .error e => .error e
        | .ok none => .ok none
        | .ok (some (_, stop)) =>
          if pending = [] then .ok none else groupEndFrom text pending stop
      else if pending = [] then .ok none
      else groupEndFrom text pending (pos + c.utf8Size)
termination_by byteLength text - pos
decreasing_by
  all_goals
    have := lt_of_peek _h
    have := c.utf8Size_pos
    try have := lt_of_untilQuote _hq
    omega

/-- The offset behind the group at an offset. -/
def groupEnd (text : List Char) (pos : Nat) : Except OffsetError (Option Nat) :=
  groupEndFrom text [] pos

/-- Inside quotes the scanner passes everything up to the quote. -/
theorem afterGroup?_quote (pending : List Bracket) (quote : Char) (cs : List Char) :
    afterGroup? pending (some quote) cs =
      (untilQuote? quote cs).bind fun found => afterGroup? pending none found.2 := by
  induction cs with
  | nil => simp [afterGroup?, untilQuote?]
  | cons c cs ih =>
    rw [afterGroup?]
    by_cases hc : c = quote
    · simp [hc, untilQuote?]
    · rw [if_neg hc, ih]
      simp only [untilQuote?, List.dropWhile_cons, bne_iff_ne, ne_eq, hc, not_false_eq_true, if_true]
      cases cs.dropWhile (· != quote) <;> rfl

theorem groupEndFrom_nil (text : List Char) (pending : List Bracket) :
    groupEndFrom text pending (byteLength text) = .ok none := by
  have hpeek : peek text (byteLength text) = .ok none := peek_offsetOf (List.nil_suffix)
  rw [groupEndFrom]
  split
  · next h => rw [hpeek] at h; cases h
  · rfl
  · next h => rw [hpeek] at h; cases h

/-- One step of the search. -/
theorem groupEndFrom_cons {c : Char} (h : c :: cs <:+ text) (pending : List Bracket) :
    groupEndFrom text pending (offsetOf text (c :: cs)) =
      match Bracket.ofOpening? c, Bracket.ofClosing? c with
      | some b, _ => groupEndFrom text (b :: pending) (offsetOf text cs)
      | none, some b =>
        match pending with
        | [] => .ok none
        | top :: below =>
          if b = top then
            if below = [] then .ok (some (offsetOf text cs))
            else groupEndFrom text below (offsetOf text cs)
          else .ok none
      | none, none =>
        if isQuote c then
          match untilQuote? c cs with
          | none => .ok none
          | some (_, rest) =>
            if pending = [] then .ok none else groupEndFrom text pending (offsetOf text rest)
        else if pending = [] then .ok none
        else groupEndFrom text pending (offsetOf text cs) := by
  have hcs := (List.suffix_cons c cs).trans h
  have hpeek := peek_offsetOf h
  have hquoted := untilQuote_offsetOf c hcs
  rw [groupEndFrom]
  split
  · next hp => rw [hpeek] at hp; cases hp
  · next hp => rw [hpeek] at hp; cases hp
  next d hp =>
  rw [hpeek] at hp
  cases hp
  rw [offsetOf_cons_add h]
  split
  · rfl
  · rfl
  split
  · split
    · next hq => rw [hquoted] at hq; cases hq
    · next hq =>
      rw [hquoted, Except.ok.injEq, Option.map_eq_none_iff] at hq
      rw [hq]
    · next hq =>
      rw [hquoted, Except.ok.injEq, Option.map_eq_some_iff] at hq
      obtain ⟨⟨inner, rest⟩, hfound, heq⟩ := hq
      cases heq
      rw [hfound]
  · rfl

theorem groupEndFrom_offsetOf {pending : List Bracket} (hpending : pending ≠ [])
    (h : cs <:+ text) :
    groupEndFrom text pending (offsetOf text cs) =
      .ok ((afterGroup? pending none cs).map (offsetOf text)) := by
  induction hlength : cs.length using Nat.strongRecOn generalizing pending cs with
  | ind length ih =>
  cases cs with
  | nil => exact groupEndFrom_nil text pending
  | cons c cs =>
    have hcs := (List.suffix_cons c cs).trans h
    have hshorter : cs.length < length := by simp [← hlength]
    have hnext {pending : List Bracket} (hpending : pending ≠ []) :=
      ih cs.length hshorter hpending hcs rfl
    rw [groupEndFrom_cons h, afterGroup?]
    cases hopening : Bracket.ofOpening? c with
    | some b => exact hnext (List.cons_ne_nil b pending)
    | none =>
    cases hclosing : Bracket.ofClosing? c with
    | some b =>
      cases pending with
      | nil => exact absurd rfl hpending
      | cons top below =>
        by_cases htop : b = top
        · by_cases hbelow : below = []
          · simp only [if_pos htop, if_pos hbelow, Option.map_some]
          · simp only [if_pos htop, if_neg hbelow, hnext hbelow]
        · simp only [if_neg htop, Option.map_none]
    | none =>
      by_cases hquote : isQuote c = true
      · simp only [if_pos hquote, afterGroup?_quote]
        cases hfound : untilQuote? c cs with
        | none => rfl
        | some found =>
          obtain ⟨hrest, hlt⟩ := isProperEnd_of_untilQuote? hfound
          simp only [if_neg hpending, Option.bind_some]
          exact ih found.2.length (Nat.lt_trans hlt hshorter) hpending (hrest.trans hcs) rfl
      · simp only [if_neg hquote, if_neg hpending, hnext hpending]

theorem groupEnd_offsetOf (h : cs <:+ text) :
    groupEnd text (offsetOf text cs) = .ok ((group? cs).map fun group => offsetOf text group.rest) := by
  unfold groupEnd
  cases cs with
  | nil => exact groupEndFrom_nil text []
  | cons c cs =>
    have hcs := (List.suffix_cons c cs).trans h
    rw [groupEndFrom_cons h, group?]
    cases hopening : Bracket.ofOpening? c with
    | some b =>
      simp only [groupEndFrom_offsetOf (List.cons_ne_nil b []) hcs, Option.bind_eq_bind,
        Option.bind_some, Option.pure_def]
      cases afterGroup? [b] none cs <;> rfl
    | none =>
    cases hclosing : Bracket.ofClosing? c with
    | some b => rfl
    | none =>
      by_cases hquote : isQuote c = true
      · simp only [if_pos hquote, if_true]
        cases untilQuote? c cs <;> rfl
      · simp only [if_neg hquote, if_true]
        rfl

/-- The search by offsets is the search of the library, also at an offset that is no place. -/
theorem groupEnd_eq (text : List Char) (pos : Nat) : groupEnd text pos = groupEnd? text pos := by
  show groupEnd text pos = (dropBytes pos text >>= fun cs => _)
  cases hdrop : dropBytes pos text with
  | error e =>
    rw [groupEnd, groupEndFrom]
    split
    · next h => rw [peek_of_error hdrop] at h; cases h; rfl
    · next h => rw [peek_of_error hdrop] at h; cases h
    · next h => rw [peek_of_error hdrop] at h; cases h
  | ok cs =>
    obtain ⟨hcs, rfl⟩ := dropBytes_eq_ok_iff_offsetOf.mp hdrop
    rw [groupEnd_offsetOf hcs]
    rfl

/-! ## Slices of groups -/

theorem head?_eq_of_group? {group : Group} (h : group? cs = some group) :
    cs.head? = some group.bracket.opening := by
  rw [Group.eq_text_append h]
  rfl

theorem slice_group {group : Group} (hgroup : group? cs = some group) (h : cs <:+ text) :
    slice text (offsetOf text cs) (offsetOf text group.rest) = .ok (upTo cs group.rest) :=
  slice_offsetOf (Group.isProperEnd_rest hgroup).1 h

/-- What stands between the brackets of a group, each of which is one byte long. -/
theorem slice_inner {group : Group} (hgroup : group? cs = some group) (h : cs <:+ text) :
    ∃ stop, back (offsetOf text group.rest) 1 = .ok stop ∧
      slice text (offsetOf text cs + 1) stop = .ok group.inner := by
  have hcs := Group.eq_text_append hgroup
  have hopening : group.bracket.opening.utf8Size = 1 := by cases group.bracket <;> rfl
  have hclosing : byteLength [group.bracket.closing] = 1 := by cases group.bracket <;> rfl
  have hinner : cs =
      group.bracket.opening :: (group.inner ++ ([group.bracket.closing] ++ group.rest)) := by
    rw [hcs, Group.text, List.cons_append, List.append_assoc]
  have hafter := (List.suffix_cons _ _).trans (hinner ▸ h)
  have hstart := offsetOf_cons_add (hinner ▸ h)
  rw [← hinner, hopening] at hstart
  have hlast := List.suffix_append group.inner ([group.bracket.closing] ++ group.rest)
  have hback := back_offsetOf (hlast.trans hafter)
  rw [hclosing] at hback
  refine ⟨_, hback, ?_⟩
  rw [hstart, slice_offsetOf hlast hafter, upTo_append]

end RailsSchema.Offset
