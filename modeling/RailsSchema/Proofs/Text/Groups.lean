import RailsSchema.Proofs.Text.Runs

/-!
# Texts that a group scan passes over

* `afterGroup?_append`: a group that closes does not look at what follows it;
* `afterGroup?_append_pending`: brackets that stand open outside a group are still open after it;
* `Balanced cs`: inside any group, the scan passes over `cs` and is left with the same brackets;
* `Balanced.append`, `Balanced.quoted`, `Balanced.bracketed`, `Balanced.intercalate`: what balanced
  texts are made of;
* `group?_of_balanced`: brackets around a balanced text are a group;
* `stripOuter_group`: between its outer brackets stands what a group holds.
-/

namespace RailsSchema.Text

/-- Whether a character is neither a bracket nor a quote. -/
def isPlain (c : Char) : Bool :=
  (Bracket.ofOpening? c).isNone && (Bracket.ofClosing? c).isNone && !isQuote c

theorem isPlain_of_isBlank {c : Char} (h : isBlank c = true) : isPlain c = true := by
  have hne : ∀ d, isBlank d = false → c ≠ d := fun d => ne_of_class h
  simp [isPlain, isQuote, Bracket.ofOpening?, Bracket.ofClosing?, Bracket.opening,
    Bracket.closing, hne '[' (by decide), hne ']' (by decide), hne '\x7b' (by decide),
    hne '\x7d' (by decide), hne '"' (by decide), hne '\'' (by decide)]

theorem Bracket.opening_inj {b b' : Bracket} (h : b.opening = b'.opening) : b = b' := by
  have hb := ofOpening?_eq_some_iff.mpr h
  rw [ofOpening?_eq_some_iff.mpr rfl] at hb
  exact Option.some.inj hb

/-! ## One character -/

theorem afterGroup?_plain {c : Char} (hc : isPlain c = true) (pending : List Bracket)
    (cs : List Char) : afterGroup? pending none (c :: cs) = afterGroup? pending none cs := by
  simp only [isPlain, Bool.and_eq_true, Option.isNone_iff_eq_none, Bool.not_eq_true'] at hc
  obtain ⟨⟨hopen, hclose⟩, hquote⟩ := hc
  simp [afterGroup?, hopen, hclose, hquote]

theorem afterGroup?_opening (b : Bracket) (pending : List Bracket) (cs : List Char) :
    afterGroup? pending none (b.opening :: cs) = afterGroup? (b :: pending) none cs := by
  simp only [afterGroup?, Bracket.ofOpening?_eq_some_iff.mpr rfl]

theorem ofOpening?_closing (b : Bracket) : Bracket.ofOpening? b.closing = none := by
  cases b <;> decide

theorem afterGroup?_closing (b : Bracket) {below : List Bracket} (hb : below ≠ [])
    (cs : List Char) :
    afterGroup? (b :: below) none (b.closing :: cs) = afterGroup? below none cs := by
  simp [afterGroup?, ofOpening?_closing, Bracket.ofClosing?_eq_some_iff.mpr rfl, hb]

theorem afterGroup?_last (b : Bracket) (cs : List Char) :
    afterGroup? [b] none (b.closing :: cs) = some cs := by
  simp [afterGroup?, ofOpening?_closing, Bracket.ofClosing?_eq_some_iff.mpr rfl]

theorem afterGroup?_quote {q : Char} (hq : isQuote q = true) (pending : List Bracket)
    (cs : List Char) : afterGroup? pending none (q :: cs) = afterGroup? pending (some q) cs := by
  have hopen : Bracket.ofOpening? q = none := by
    simp only [isQuote, Bool.or_eq_true, beq_iff_eq] at hq
    rcases hq with rfl | rfl <;> decide
  have hclose : Bracket.ofClosing? q = none := by
    simp only [isQuote, Bool.or_eq_true, beq_iff_eq] at hq
    rcases hq with rfl | rfl <;> decide
  simp [afterGroup?, hopen, hclose, hq]

theorem afterGroup?_quoted {q : Char} {inner : List Char} (hq : q ∉ inner)
    (pending : List Bracket) (cs : List Char) :
    afterGroup? pending (some q) (inner ++ q :: cs) = afterGroup? pending none cs := by
  induction inner with
  | nil => simp [afterGroup?]
  | cons c inner ih =>
    simp only [List.mem_cons, not_or] at hq
    rw [List.cons_append, afterGroup?, if_neg (Ne.symm hq.1), ih hq.2]

/-! ## What follows a group -/

/-- A group that closes does not look at what follows it. -/
theorem afterGroup?_append {pending : List Bracket} {quote : Option Char} {cs rest : List Char}
    (h : afterGroup? pending quote cs = some rest) (more : List Char) :
    afterGroup? pending quote (cs ++ more) = some (rest ++ more) := by
  fun_induction afterGroup? pending quote cs with
  | case1 => cases h
  | case2 pending c cs ih => simpa [afterGroup?] using ih h
  | case3 pending q c cs hc ih => simpa [afterGroup?, hc] using ih h
  | case4 pending c cs b hb ih => simpa [afterGroup?, hb] using ih h
  | case5 => cases h
  | case6 c cs hopen top hc => cases h; simp [afterGroup?, hopen, hc]
  | case7 c cs hopen top below hb hc ih => simpa [afterGroup?, hopen, hc, hb] using ih h
  | case8 => cases h
  | case9 pending c cs hopen hclose hq ih => simpa [afterGroup?, hopen, hclose, hq] using ih h
  | case10 pending c cs hopen hclose hq ih => simpa [afterGroup?, hopen, hclose, hq] using ih h

/-- Brackets that stand open outside a group are still open after it. -/
theorem afterGroup?_append_pending {pending below : List Bracket} {quote : Option Char}
    {cs rest : List Char} (hp : pending ≠ []) (hb : below ≠ [])
    (h : afterGroup? pending quote cs = some rest) (more : List Char) :
    afterGroup? (pending ++ below) quote (cs ++ more) = afterGroup? below none (rest ++ more) := by
  fun_induction afterGroup? pending quote cs with
  | case1 => cases h
  | case2 pending c cs ih => simpa [afterGroup?] using ih hp h
  | case3 pending q c cs hc ih => simpa [afterGroup?, hc] using ih hp h
  | case4 pending c cs b hopen ih => simpa [afterGroup?, hopen] using ih (by simp) h
  | case5 => cases h
  | case6 c cs hopen top hc => cases h; simp [afterGroup?, hopen, hc, hb]
  | case7 c cs hopen top below' hb' hc ih => simpa [afterGroup?, hopen, hc, hb'] using ih hb' h
  | case8 => cases h
  | case9 pending c cs hopen hclose hq ih => simpa [afterGroup?, hopen, hclose, hq] using ih hp h
  | case10 pending c cs hopen hclose hq ih => simpa [afterGroup?, hopen, hclose, hq] using ih hp h

/-! ## Balanced texts -/

/-- Whether the scan of any group passes over a text and is left with the same open brackets. -/
def Balanced (cs : List Char) : Prop :=
  ∀ pending, pending ≠ [] → ∀ rest,
    afterGroup? pending none (cs ++ rest) = afterGroup? pending none rest

theorem balanced_nil : Balanced [] := fun _ _ _ => rfl

theorem Balanced.append {cs ds : List Char} (hc : Balanced cs) (hd : Balanced ds) :
    Balanced (cs ++ ds) := by
  intro pending hp rest
  rw [List.append_assoc, hc pending hp, hd pending hp]

theorem balanced_of_plain {cs : List Char} (h : ∀ c ∈ cs, isPlain c = true) : Balanced cs := by
  intro pending hp rest
  induction cs with
  | nil => rfl
  | cons c cs ih =>
    rw [List.cons_append, afterGroup?_plain (h c List.mem_cons_self)]
    exact ih fun d hd => h d (List.mem_cons_of_mem c hd)

theorem Balanced.cons_plain {c : Char} {cs : List Char} (hc : isPlain c = true)
    (hcs : Balanced cs) : Balanced (c :: cs) := by
  intro pending hp rest
  rw [List.cons_append, afterGroup?_plain hc, hcs pending hp]

theorem Balanced.quoted {q : Char} {inner : List Char} (hq : isQuote q = true)
    (hinner : q ∉ inner) : Balanced (q :: (inner ++ [q])) := by
  intro pending hp rest
  rw [List.cons_append, List.append_assoc, List.singleton_append, afterGroup?_quote hq,
    afterGroup?_quoted hinner]

theorem Balanced.bracketed (b : Bracket) {inner : List Char} (h : Balanced inner) :
    Balanced (b.opening :: (inner ++ [b.closing])) := by
  intro pending hp rest
  rw [List.cons_append, List.append_assoc, List.singleton_append, afterGroup?_opening,
    h (b :: pending) (by simp), afterGroup?_closing b hp]

theorem Balanced.intercalate {sep : List Char} (hsep : Balanced sep) {texts : List (List Char)}
    (h : ∀ text ∈ texts, Balanced text) : Balanced (sep.intercalate texts) := by
  induction texts with
  | nil => exact balanced_nil
  | cons text texts ih =>
    cases texts with
    | nil =>
      rw [List.intercalate_singleton]
      exact h text List.mem_cons_self
    | cons other texts =>
      rw [List.intercalate_cons_cons]
      refine ((h text List.mem_cons_self).append hsep).append (ih fun t ht => ?_)
      exact h t (List.mem_cons_of_mem text ht)

/-- A whole group is balanced. -/
theorem balanced_of_group? {cs : List Char} {group : Group} (h : group? cs = some group)
    (hrest : group.rest = []) : Balanced cs := by
  intro pending hp rest
  cases cs with
  | nil => simp [group?] at h
  | cons c cs =>
    simp only [group?, Option.bind_eq_bind, Option.bind_eq_some_iff, Option.pure_def,
      Option.some.injEq] at h
    obtain ⟨b, hb, left, hleft, rfl⟩ := h
    subst hrest
    rw [Bracket.ofOpening?_eq_some_iff.mp hb, List.cons_append, afterGroup?_opening]
    exact afterGroup?_append_pending (by simp) hp hleft rest

/-! ## Groups -/

/-- A group does not depend on what follows it. -/
theorem group?_append {cs : List Char} {group : Group} (h : group? cs = some group)
    (more : List Char) : group? (cs ++ more) = some { group with rest := group.rest ++ more } := by
  cases cs with
  | nil => simp [group?] at h
  | cons c cs =>
    simp only [group?, Option.bind_eq_bind, Option.bind_eq_some_iff, Option.pure_def,
      Option.some.injEq] at h
    obtain ⟨b, hb, rest, hrest, rfl⟩ := h
    obtain ⟨taken, rfl⟩ := (isProperEnd_of_afterGroup? hrest).1
    have hmore := afterGroup?_append hrest more
    rw [List.append_assoc] at hmore
    simp [group?, hb, hmore]

theorem text_of_group? {cs : List Char} {group : Group} (h : group? cs = some group)
    (hrest : group.rest = []) : cs = group.text := by
  have hcs := Group.eq_text_append h
  rwa [hrest, List.append_nil] at hcs

theorem endsSolid_group (group : Group) : EndsSolid group.text := by
  refine ⟨group.bracket.opening :: group.inner, group.bracket.closing, rfl, ?_⟩
  cases group.bracket <;> decide

theorem Group.stops_text (group : Group) (rest : List Char) :
    Stops isBlank (group.text ++ rest) := by
  apply stops_cons.mpr
  cases group.bracket <;> decide

/-- There is no white space around a group. -/
theorem trim_group (group : Group) : trim group.text = group.text := by
  have hstart : Stops isBlank group.text := by
    have hstop := group.stops_text []
    rwa [List.append_nil] at hstop
  have h := @trim_append [] group.text [] (List.forall_mem_nil _) hstart (endsSolid_group group)
    (List.forall_mem_nil _)
  rwa [List.nil_append, List.append_nil] at h

/-- Between its brackets stands what a group holds. -/
theorem stripOuter_group (group : Group) :
    stripOuter group.bracket.opening group.bracket.closing group.text = group.inner := by
  simp [stripOuter, Group.text]

/-- The two brackets of a group are one byte long each. -/
theorem Group.byteLength_eq {cs : List Char} {group : Group} (h : group? cs = some group) :
    byteLength group.inner + 2 + byteLength group.rest = byteLength cs := by
  have hopening : group.bracket.opening.utf8Size = 1 := by cases group.bracket <;> rfl
  have hclosing : group.bracket.closing.utf8Size = 1 := by cases group.bracket <;> rfl
  have hlength := congrArg byteLength (Group.eq_text_append h)
  simp only [Group.text, byteLength_cons, byteLength_append, byteLength_nil, hopening,
    hclosing] at hlength
  omega

/-- Brackets around a balanced text are a group. -/
theorem group?_of_balanced (b : Bracket) {inner : List Char} (h : Balanced inner)
    (rest : List Char) :
    group? (b.opening :: (inner ++ b.closing :: rest)) = some ⟨b, inner, rest⟩ := by
  have hafter : afterGroup? [b] none (inner ++ b.closing :: rest) = some rest := by
    rw [h [b] (by simp), afterGroup?_last]
  have hsplit : inner ++ b.closing :: rest = (inner ++ [b.closing]) ++ rest := by simp
  have hinner : (upTo (inner ++ b.closing :: rest) rest).dropLast = inner := by
    rw [hsplit, upTo_append, List.dropLast_concat]
  simp [group?, Bracket.ofOpening?_eq_some_iff.mpr rfl, hafter, hinner]

theorem groupEnd?_zero (cs : List Char) :
    groupEnd? cs 0 =
      .ok ((group? cs).map fun group => byteLength cs - byteLength group.rest) := by
  simp only [groupEnd?, Cursor.rest, dropBytes_zero, Cursor.before]
  rfl

/-- Nothing follows a group that ends where its text does. -/
theorem exists_group?_of_groupEnd? {cs : List Char}
    (h : groupEnd? cs 0 = .ok (some (byteLength cs))) :
    ∃ group, group? cs = some group ∧ group.rest = [] := by
  rw [groupEnd?_zero] at h
  simp only [Except.ok.injEq, Option.map_eq_some_iff] at h
  obtain ⟨group, hg, hend⟩ := h
  refine ⟨group, hg, ?_⟩
  have hlength := congrArg byteLength (Group.eq_text_append hg)
  rw [byteLength_append] at hlength
  have hpos : 0 < byteLength group.text := by
    have := group.bracket.opening.utf8Size_pos
    simp only [Group.text, byteLength_cons]
    omega
  cases hrest : group.rest with
  | nil => rfl
  | cons c rest =>
    have hc := c.utf8Size_pos
    rw [hrest, byteLength_cons] at hend hlength
    omega

end RailsSchema.Text
