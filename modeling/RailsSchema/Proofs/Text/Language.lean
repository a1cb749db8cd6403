import RailsSchema.Proofs.Offset.Group
import RailsSchema.Proofs.Text.Groups

/-!
# The language of groups

Which texts are groups is said here by a grammar, with no reference to the search for the end of a
group: a group is a pair of brackets of one kind around any number of parts (`IsGroup`), and a part
is a group, a quoted run, or a character that is neither a bracket nor a quote (`IsPart`).

* `IsPart.balanced`: the scan of any group passes over a part, so a group is found in front of any
  text;
* `Closes pending cs`: the text `cs` consists of parts and of the partners of the pending brackets,
  from the innermost to the outermost;
* `exists_of_afterGroup?_eq_some`: what the scan has passed when it ends closes the pending brackets;
* `group?_eq_some_iff`: the groups that are taken off a text are those of the grammar;
* `groupEnd?_language`: the same with byte offsets.
-/

namespace RailsSchema.Text

mutual

/-- A pair of brackets around any number of parts. -/
inductive IsGroup : List Char → Prop where
  | brackets (b : Bracket) (parts : List (List Char)) (h : ∀ part ∈ parts, IsPart part) :
      IsGroup (b.opening :: (parts.flatten ++ [b.closing]))

/-- What can stand between brackets, any number of times. -/
inductive IsPart : List Char → Prop where
  | group {cs : List Char} (h : IsGroup cs) : IsPart cs
  | quoted (q : Char) (inner : List Char) (hq : isQuote q = true) (h : q ∉ inner) :
      IsPart (q :: (inner ++ [q]))
  | plain (c : Char) (h : isPlain c = true) : IsPart [c]

end

/-! ## Groups of the grammar are found -/

theorem balanced_flatten {parts : List (List Char)} (h : ∀ part ∈ parts, Balanced part) :
    Balanced parts.flatten := by
  induction parts with
  | nil => exact balanced_nil
  | cons part parts ih =>
    obtain ⟨hpart, hparts⟩ := List.forall_mem_cons.mp h
    exact hpart.append (ih hparts)

mutual

theorem IsGroup.balanced {cs : List Char} : IsGroup cs → Balanced cs
  | .brackets b _ h => (balanced_flatten fun part hpart => (h part hpart).balanced).bracketed b

/-- The scan of any group passes over a part. -/
theorem IsPart.balanced {cs : List Char} : IsPart cs → Balanced cs
  | .group h => h.balanced
  | .quoted _ _ hq h => Balanced.quoted hq h
  | .plain _ h => balanced_nil.cons_plain h

end

/-! ## What the scan passes -/

/-- Whether a text consists of parts and of the partners of the `pending` brackets, innermost
first. -/
inductive Closes : List Bracket → List Char → Prop where
  | nil : Closes [] []
  | cons (b : Bracket) (parts : List (List Char)) {below : List Bracket} {more : List Char}
      (h : ∀ part ∈ parts, IsPart part) (hmore : Closes below more) :
      Closes (b :: below) (parts.flatten ++ b.closing :: more)

theorem Closes.part {pending : List Bracket} {part cs : List Char} (hpending : pending ≠ [])
    (hpart : IsPart part) (h : Closes pending cs) : Closes pending (part ++ cs) := by
  cases h with
  | nil => exact absurd rfl hpending
  | cons b parts hparts hmore =>
    have hcons := Closes.cons b (part :: parts) (List.forall_mem_cons.mpr ⟨hpart, hparts⟩) hmore
    rwa [List.flatten_cons, List.append_assoc] at hcons

theorem Closes.closing {below : List Bracket} {cs : List Char} (b : Bracket)
    (h : Closes below cs) : Closes (b :: below) (b.closing :: cs) :=
  Closes.cons b [] (fun _ hpart => absurd hpart List.not_mem_nil) h

/-- The parts behind an opening bracket, with its partner, are one part of what is around them. -/
theorem Closes.opening {pending : List Bracket} {cs : List Char} (hpending : pending ≠ [])
    {b : Bracket} (h : Closes (b :: pending) cs) : Closes pending (b.opening :: cs) := by
  cases h with
  | cons _ parts hparts hmore =>
    have hpart := hmore.part hpending (IsPart.group (IsGroup.brackets b parts hparts))
    rwa [List.cons_append, List.append_assoc, List.singleton_append] at hpart

/-- Whether a text ends the quote that stands open, if one does, and closes the pending brackets. -/
def Ends (pending : List Bracket) : (quote : Option Char) → List Char → Prop
  | none, cs => Closes pending cs
  | some q, cs => ∃ inner more, q ∉ inner ∧ cs = inner ++ q :: more ∧ Closes pending more

/-- What the scan has passed when it ends closes the brackets that were pending. -/
theorem exists_of_afterGroup?_eq_some {pending : List Bracket} {quote : Option Char}
    {cs rest : List Char} (hpending : pending ≠ []) (h : afterGroup? pending quote cs = some rest) :
    ∃ taken, cs = taken ++ rest ∧ Ends pending quote taken := by
  fun_induction afterGroup? pending quote cs with
  | case1 => cases h
  | case2 pending q cs ih =>
    obtain ⟨taken, rfl, hends⟩ := ih hpending h
    exact ⟨q :: taken, rfl, [], taken, List.not_mem_nil, rfl, hends⟩
  | case3 pending q c cs hc ih =>
    obtain ⟨taken, rfl, inner, more, hinner, rfl, hends⟩ := ih hpending h
    refine ⟨c :: (inner ++ q :: more), rfl, c :: inner, more, ?_, rfl, hends⟩
    exact List.not_mem_cons_of_ne_of_not_mem (Ne.symm hc) hinner
  | case4 pending c cs b hopen ih =>
    obtain ⟨taken, rfl, hends⟩ := ih (List.cons_ne_nil b pending) h
    obtain rfl := Bracket.ofOpening?_eq_some_iff.mp hopen
    exact ⟨b.opening :: taken, rfl, hends.opening hpending⟩
  | case5 => cases h
  | case6 c cs hopen top hclose =>
    cases h
    obtain rfl := Bracket.ofClosing?_eq_some_iff.mp hclose
    exact ⟨[top.closing], rfl, Closes.nil.closing top⟩
  | case7 c cs hopen top below hbelow hclose ih =>
    obtain ⟨taken, rfl, hends⟩ := ih hbelow h
    obtain rfl := Bracket.ofClosing?_eq_some_iff.mp hclose
    exact ⟨top.closing :: taken, rfl, Closes.closing top hends⟩
  | case8 => cases h
  | case9 pending c cs hopen hclose hquote ih =>
    obtain ⟨taken, rfl, inner, more, hinner, rfl, hends⟩ := ih hpending h
    refine ⟨c :: (inner ++ c :: more), rfl, ?_⟩
    have hpart := hends.part hpending (IsPart.quoted c inner hquote hinner)
    rwa [List.cons_append, List.append_assoc, List.singleton_append] at hpart
  | case10 pending c cs hopen hclose hquote ih =>
    obtain ⟨taken, rfl, hends⟩ := ih hpending h
    have hplain : isPlain c = true := by simp [isPlain, hopen, hclose, hquote]
    exact ⟨c :: taken, rfl, Closes.part hpending (IsPart.plain c hplain) hends⟩

/-! ## The groups that are found -/

/-- A group is taken off a text exactly when the grammar derives what is taken. -/
theorem group?_eq_some_iff {cs : List Char} {group : Group} :
    group? cs = some group ↔ cs = group.text ++ group.rest ∧ IsGroup group.text := by
  constructor
  · intro h
    have hcs := Group.eq_text_append h
    refine ⟨hcs, ?_⟩
    cases cs with
    | nil => cases h
    | cons c cs =>
      simp only [group?, Option.bind_eq_bind, Option.bind_eq_some_iff, Option.pure_def,
        Option.some.injEq] at h
      obtain ⟨b, hb, rest, hafter, rfl⟩ := h
      obtain ⟨taken, rfl, hcloses⟩ :=
        exists_of_afterGroup?_eq_some (List.cons_ne_nil b []) hafter
      rw [← List.cons_append] at hcs
      rw [← List.append_cancel_right hcs, Bracket.ofOpening?_eq_some_iff.mp hb]
      cases hcloses with
      | cons _ parts hparts hmore =>
        cases hmore
        exact IsGroup.brackets b parts hparts
  · rintro ⟨rfl, hgroup⟩
    obtain ⟨bracket, inner, rest⟩ := group
    generalize htext : Group.text ⟨bracket, inner, rest⟩ = text at hgroup
    cases hgroup with
    | brackets b parts hparts =>
      obtain ⟨hb, hinner⟩ := List.cons.inj htext
      obtain rfl := Bracket.opening_inj hb
      obtain rfl := List.append_cancel_right hinner
      have hbalanced := balanced_flatten fun part hpart => (hparts part hpart).balanced
      have hfound := group?_of_balanced bracket hbalanced rest
      rwa [List.cons_append, List.append_assoc, List.singleton_append]

/-- A group is found without what follows it. -/
theorem group?_text {cs : List Char} {group : Group} (h : group? cs = some group) :
    group? group.text = some { group with rest := [] } := by
  apply group?_eq_some_iff.mpr
  exact ⟨(List.append_nil _).symm, (group?_eq_some_iff.mp h).2⟩

/-- The search for the end of a group, from behind a beginning of the text. -/
theorem groupEnd?_append (front cs : List Char) :
    groupEnd? (front ++ cs) (byteLength front) =
      .ok ((group? cs).map fun group => byteLength front + byteLength group.text) := by
  simp only [groupEnd?, Cursor.rest, dropBytes_append, Cursor.before]
  show Except.ok ((group? cs).map _) = _
  congr 1
  cases hgroup : group? cs with
  | none => rfl
  | some group =>
    have hlength := congrArg byteLength (Group.eq_text_append hgroup)
    rw [byteLength_append] at hlength
    simp only [Option.map_some, byteLength_append, Option.some.injEq]
    omega

theorem groupEnd?_eq_some_iff {text : List Char} {start : Nat} (hstart : IsPlace text start)
    {stop : Nat} :
    groupEnd? text start = .ok (some stop) ↔
      ∃ group, Offset.slice text start stop = .ok group ∧ IsGroup group := by
  obtain ⟨front, cs, rfl, rfl⟩ := hstart
  simp only [groupEnd?_append, Except.ok.injEq, Option.map_eq_some_iff, Offset.slice_eq_ok_iff]
  constructor
  · rintro ⟨group, hgroup, rfl⟩
    obtain ⟨hcs, hderives⟩ := group?_eq_some_iff.mp hgroup
    exact ⟨group.text, ⟨front, group.rest, by rw [← hcs], rfl, rfl⟩, hderives⟩
  · rintro ⟨part, ⟨front', behind, htext, hfront, rfl⟩, hderives⟩
    have hrest := dropBytes_append front' (part ++ behind)
    rw [← htext, ← hfront, dropBytes_append] at hrest
    obtain rfl := Except.ok.inj hrest
    cases hderives with
    | brackets b parts hparts =>
      refine ⟨⟨b, parts.flatten, behind⟩, group?_eq_some_iff.mpr ⟨rfl, ?_⟩, rfl⟩
      exact IsGroup.brackets b parts hparts

/-- From any place of a text, the search for the end of a group finds just the places up to which
the text is a group; there is one such place at most, and where there is none the search says so. -/
theorem groupEnd?_language {text : List Char} {start : Nat} (hstart : IsPlace text start) :
    (∀ stop, groupEnd? text start = .ok (some stop) ↔
      ∃ group, Offset.slice text start stop = .ok group ∧ IsGroup group) ∧
    (∀ stop stop' group group', Offset.slice text start stop = .ok group → IsGroup group →
      Offset.slice text start stop' = .ok group' → IsGroup group' → stop = stop') ∧
    ((∀ stop group, Offset.slice text start stop = .ok group → ¬ IsGroup group) →
      groupEnd? text start = .ok none) := by
  refine ⟨fun _ => groupEnd?_eq_some_iff hstart, ?_, fun hnone => ?_⟩
  · intro stop stop' group group' hslice hgroup hslice' hgroup'
    have h := (groupEnd?_eq_some_iff hstart).mpr ⟨group, hslice, hgroup⟩
    rw [(groupEnd?_eq_some_iff hstart).mpr ⟨group', hslice', hgroup'⟩] at h
    cases h
    rfl
  · obtain ⟨found, hfound⟩ : ∃ found, groupEnd? text start = .ok found := by
      obtain ⟨front, cs, rfl, rfl⟩ := hstart
      exact ⟨_, groupEnd?_append front cs⟩
    cases found with
    | none => exact hfound
    | some stop =>
      obtain ⟨group, hslice, hgroup⟩ := (groupEnd?_eq_some_iff hstart).mp hfound
      exact absurd hgroup (hnone stop group hslice)

/-- A list with a map in it, both with closing brackets in quotes, behind four bytes. -/
def quotedBrackets : List Char := "né [a, \x7b'\x7d' \"]\"\x7d] x".toList

theorem groupEnd?_quotedBrackets :
    IsPlace quotedBrackets 4 ∧ groupEnd? quotedBrackets 4 = .ok (some 18) ∧
      ∃ group, Offset.slice quotedBrackets 4 18 = .ok group ∧ IsGroup group := by
  have hplace : IsPlace quotedBrackets 4 :=
    ⟨"né ".toList, "[a, \x7b'\x7d' \"]\"\x7d] x".toList, by decide, by decide⟩
  have hend : groupEnd? quotedBrackets 4 = .ok (some 18) := by decide
  exact ⟨hplace, hend, ((groupEnd?_language hplace).1 18).mp hend⟩

end RailsSchema.Text
