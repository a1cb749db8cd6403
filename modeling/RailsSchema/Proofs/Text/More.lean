import RailsSchema.Proofs.Text.Sites

/-!
# Texts with more behind them

A scanner that has found what it looks for does not look at what follows, so it finds the same when
there is more behind the text (`skipSome?_append`, `quotedName?_append`). A scanner that has found
nothing may find something then, except that a line break stops the search for a word
(`after?_append_newline`), for a name in quotes (`quotedName?_append_newline`) and for the end of a
line (`trailingOptions?_append_newline`).

* `mem_sitesFrom_iff`: the places of a keyword are the places at which it stands and can begin;
* `sitesFrom_append_newline`: the places in two texts with a line break between them are those in
  the first and, further on, those in the second.
-/

namespace RailsSchema.Text

variable {cs rest more : List Char}

theorem after?_append_newline {expected : List Char} (h : '\n' ∉ expected) (cs more : List Char) :
    after? expected (cs ++ '\n' :: more) = (after? expected cs).map (· ++ '\n' :: more) := by
  induction expected generalizing cs with
  | nil => cases cs <;> rfl
  | cons e es ih =>
    rw [List.mem_cons, not_or] at h
    cases cs with
    | nil =>
      show (if '\n' = e then _ else none) = none
      rw [if_neg h.1]
    | cons c cs =>
      show (if c = e then _ else none) = Option.map _ (if c = e then _ else none)
      split_ifs
      · exact ih h.2 cs
      · rfl

theorem dropWhile_append_of_ne_nil {p : Char → Bool} (h : cs.dropWhile p ≠ []) :
    (cs ++ more).dropWhile p = cs.dropWhile p ++ more := by
  rw [List.dropWhile_append]
  cases hd : cs.dropWhile p with
  | nil => exact absurd hd h
  | cons d ds => rfl

theorem skipSome?_append {p : Char → Bool} (h : skipSome? p cs = some rest) (hne : rest ≠ [])
    (more : List Char) : skipSome? p (cs ++ more) = some (rest ++ more) := by
  cases cs with
  | nil => cases h
  | cons c cs =>
    simp only [skipSome?] at h
    split at h
    · next hc =>
      cases h
      simp only [List.cons_append, skipSome?, if_pos hc, dropWhile_append_of_ne_nil hne]
    · cases h

theorem quotedName?_append {name : List Char} (h : quotedName? cs = some (name, rest))
    (more : List Char) : quotedName? (cs ++ more) = some (name, rest ++ more) := by
  unfold quotedName? at h
  split at h
  · next ds =>
    split at h
    · next behind hbehind =>
      cases h
      have hne : ds.dropWhile (fun c => c != '"' && c != '\n') ≠ [] := by simp [hbehind]
      have hdrop : (ds ++ more).dropWhile (fun c => c != '"' && c != '\n') = _ :=
        dropWhile_append_of_ne_nil hne
      have htake : (ds ++ more).takeWhile (fun c => c != '"' && c != '\n') =
          ds.takeWhile (fun c => c != '"' && c != '\n') := by
        rw [← List.takeWhile_append_dropWhile (p := fun c => c != '"' && c != '\n') (l := ds),
          hbehind, List.append_assoc, List.cons_append, takeWhile_append_cons (by decide),
          takeWhile_append_cons (by decide)]
      rw [hbehind] at hdrop
      simp only [List.cons_append, quotedName?, hdrop, htake]
    · cases h
  · cases h

theorem skipComma_append_newline (cs more : List Char) :
    skipComma (cs ++ '\n' :: more) = skipComma cs ++ '\n' :: more := by
  cases cs with
  | nil => rfl
  | cons c cs =>
    by_cases hc : c = ','
    · subst hc
      rfl
    · unfold skipComma
      split
      · next heq => exact absurd (List.cons.inj heq).1 hc
      · split
        · next heq => exact absurd (List.cons.inj heq).1 hc
        · rfl

/-! A scanner that stays on its line finds the same in front of a line break and at the end of the
text. -/

theorem skipSome?_append_newline {p : Char → Bool} (hp : p '\n' = false) (cs more : List Char) :
    skipSome? p (cs ++ '\n' :: more) = (skipSome? p cs).map (· ++ '\n' :: more) := by
  cases cs with
  | nil =>
    show (if p '\n' then _ else none) = none
    rw [hp]
    rfl
  | cons c cs =>
    show (if p c then some ((cs ++ '\n' :: more).dropWhile p) else none) =
      Option.map _ (if p c then _ else none)
    rw [dropWhile_append_cons hp]
    split_ifs <;> rfl

theorem quotedName?_append_newline (cs more : List Char) :
    quotedName? (cs ++ '\n' :: more) =
      (quotedName? cs).map fun found => (found.1, found.2 ++ '\n' :: more) := by
  have hstop : (fun c => c != '"' && c != '\n') '\n' = false := by decide
  unfold quotedName?
  cases cs with
  | nil => rfl
  | cons c cs =>
    by_cases hc : c = '"'
    · subst hc
      simp only [List.cons_append]
      rw [dropWhile_append_cons hstop, takeWhile_append_cons hstop]
      cases cs.dropWhile (fun c => c != '"' && c != '\n') with
      | nil => rfl
      | cons d behind =>
        by_cases hd : d = '"'
        · subst hd
          rfl
        · simp [hd]
    · simp [hc]

theorem line_append_newline (cs more : List Char) : line (cs ++ '\n' :: more) = line cs :=
  takeWhile_append_cons (by decide) cs more

theorem trailingOptions?_append_newline (cs more : List Char) :
    trailingOptions? (cs ++ '\n' :: more) = trailingOptions? cs := by
  unfold trailingOptions?
  rw [line_append_newline]

theorem upTo_append_append (cs rest more : List Char) :
    upTo (cs ++ more) (rest ++ more) = upTo cs rest := by
  unfold upTo
  rw [List.length_append, List.length_append, Nat.add_sub_add_right,
    List.take_append_of_le_length (Nat.sub_le _ _)]

/-! ## Places -/

/-- A place with more text behind the one in which it was found. -/
def Site.append (site : Site) (more : List Char) : Site := { site with rest := site.rest ++ more }

/-- A place in a text that stands behind `n` other bytes. -/
def Site.shift (n : Nat) (site : Site) : Site := { site with start := site.start + n }

variable {keyword : List Char} {before : Option Char} {offset : Nat}

theorem mem_sitesFrom_iff {site : Site} (hne : keyword ≠ []) :
    site ∈ sitesFrom keyword before offset cs ↔
      ∃ front, cs = front ++ (keyword ++ site.rest) ∧ site.start = offset + byteLength front ∧
        isBoundary (lastOf before front) = true := by
  induction cs generalizing before offset with
  | nil => simp [sitesFrom, hne]
  | cons c cs ih =>
    have hstep : site ∈ sitesFrom keyword before offset (c :: cs) ↔
        (isBoundary before = true ∧ site.start = offset ∧ c :: cs = keyword ++ site.rest) ∨
          site ∈ sitesFrom keyword (some c) (offset + c.utf8Size) cs := by
      rw [sitesFrom]
      by_cases hb : isBoundary before = true
      · rw [if_pos hb]
        cases hafter : after? keyword (c :: cs) with
        | none =>
          have hno : ¬ c :: cs = keyword ++ site.rest := by
            intro heq
            rw [after?_eq_some_iff.mpr heq] at hafter
            cases hafter
          simp [hno]
        | some rest =>
          have hcs := after?_eq_some_iff.mp hafter
          rw [List.mem_cons]
          refine or_congr_left ⟨?_, ?_⟩
          · rintro rfl
            exact ⟨hb, rfl, hcs⟩
          · rintro ⟨-, hstart, hrest⟩
            have : rest = site.rest := List.append_cancel_left (hcs.symm.trans hrest)
            rw [this, ← hstart]
      · simp [hb]
    rw [hstep, ih]
    constructor
    · rintro (⟨hb, hstart, hcs⟩ | ⟨front, rfl, hstart, hb⟩)
      · exact ⟨[], hcs, hstart, hb⟩
      · refine ⟨c :: front, rfl, ?_, hb⟩
        rw [hstart, byteLength_cons, Nat.add_assoc]
    · rintro ⟨front, hcs, hstart, hb⟩
      cases front with
      | nil => exact Or.inl ⟨hb, hstart, hcs⟩
      | cons d front =>
        cases hcs
        refine Or.inr ⟨front, rfl, ?_, hb⟩
        rw [hstart, byteLength_cons, Nat.add_assoc]

/-- Places come from left to right. -/
theorem pairwise_sitesFrom (keyword : List Char) (before : Option Char) (offset : Nat)
    (cs : List Char) :
    (sitesFrom keyword before offset cs).Pairwise (·.start < ·.start) ∧
      ∀ site ∈ sitesFrom keyword before offset cs, offset ≤ site.start := by
  induction cs generalizing before offset with
  | nil => simp [sitesFrom]
  | cons c cs ih =>
    obtain ⟨hpairs, hle⟩ := ih (some c) (offset + c.utf8Size)
    have hpos := c.utf8Size_pos
    have hlt : ∀ site ∈ sitesFrom keyword (some c) (offset + c.utf8Size) cs,
        offset < site.start := fun site hsite => by
      have := hle site hsite
      omega
    rw [sitesFrom]
    split
    · refine ⟨List.pairwise_cons.mpr ⟨hlt, hpairs⟩, List.forall_mem_cons.mpr ⟨Nat.le_refl _, ?_⟩⟩
      exact fun site hsite => Nat.le_of_lt (hlt site hsite)
    · exact ⟨hpairs, fun site hsite => Nat.le_of_lt (hlt site hsite)⟩

/-- Places depend on what is in front of a text only by whether a keyword can begin there. -/
theorem sitesFrom_congr {before' : Option Char} (h : isBoundary before = isBoundary before') :
    sitesFrom keyword before offset cs = sitesFrom keyword before' offset cs := by
  cases cs with
  | nil => rfl
  | cons c cs => rw [sitesFrom, sitesFrom, h]

theorem sitesFrom_shift (n : Nat) :
    sitesFrom keyword before (offset + n) cs =
      (sitesFrom keyword before offset cs).map (Site.shift n) := by
  induction cs generalizing before offset with
  | nil => rfl
  | cons c cs ih =>
    rw [sitesFrom, sitesFrom, Nat.add_right_comm, ih]
    split <;> rfl

/-- No place of a keyword runs over a line break. -/
theorem sitesFrom_append_newline (hline : '\n' ∉ keyword) (hne : keyword ≠ []) (cs more : List Char) :
    sitesFrom keyword before offset (cs ++ '\n' :: more) =
      (sitesFrom keyword before offset cs).map (Site.append · ('\n' :: more)) ++
        (sitesFrom keyword none 0 more).map (Site.shift (offset + byteLength cs + 1)) := by
  induction cs generalizing before offset with
  | nil =>
    have hnone : after? keyword ('\n' :: more) = none := by
      have h := after?_append_newline hline [] more
      cases hkeyword : keyword with
      | nil => exact absurd hkeyword hne
      | cons k ks =>
        rw [hkeyword] at h
        exact h
    have hboundary : isBoundary (some '\n') = isBoundary none := by decide
    have hskip : sitesFrom keyword before offset ('\n' :: more) =
        sitesFrom keyword (some '\n') (0 + (offset + 1)) more := by
      rw [sitesFrom, hnone, ite_self, Nat.zero_add]
      rfl
    rw [List.nil_append, hskip, sitesFrom_congr hboundary, sitesFrom_shift]
    rfl
  | cons c cs ih =>
    have hafter := after?_append_newline hline (c :: cs) more
    rw [List.cons_append] at hafter
    rw [List.cons_append, sitesFrom, sitesFrom, hafter, ih, byteLength_cons, ← Nat.add_assoc]
    by_cases hb : isBoundary before = true
    · rw [if_pos hb, if_pos hb]
      cases after? keyword (c :: cs) <;> rfl
    · rw [if_neg hb, if_neg hb]

theorem sites_append_newline {keyword : String} (hline : '\n' ∉ keyword.toList)
    (hne : keyword.toList ≠ []) (cs more : List Char) :
    sites keyword (cs ++ '\n' :: more) =
      (sites keyword cs).map (Site.append · ('\n' :: more)) ++
        (sites keyword more).map (Site.shift (byteLength cs + 1)) := by
  unfold sites
  rw [sitesFrom_append_newline hline hne, Nat.zero_add]

end RailsSchema.Text
