import RailsSchema.Text.Site
import RailsSchema.Proofs.Text.Probes

/-!
# The places of a keyword in a text put together from parts

* `sitesFrom_append`: the places in a text are those that begin in its first part and those in the
  rest;
* `found`: what the statements at the places of a keyword come to;
* `found_of_silent`: a silent part adds nothing.
-/

namespace RailsSchema.Text

/-- The places in a text are those that begin in its first part and those in the rest. -/
theorem sitesFrom_append (keyword : List Char) (before : Option Char) (offset : Nat)
    (cs ds : List Char) :
    ∃ first, sitesFrom keyword before offset (cs ++ ds) =
        first ++ sitesFrom keyword (lastOf before cs) (offset + byteLength cs) ds ∧
      ∀ site ∈ first, site.start < offset + byteLength cs := by
  induction cs generalizing before offset with
  | nil => exact ⟨[], by simp, by simp⟩
  | cons c cs ih =>
    obtain ⟨first, hfirst, hstart⟩ := ih (some c) (offset + c.utf8Size)
    have hpos := c.utf8Size_pos
    simp only [List.cons_append, sitesFrom, hfirst, byteLength_cons, lastOf_cons,
      ← Nat.add_assoc]
    split
    · next rest _ =>
      refine ⟨⟨offset, rest⟩ :: first, rfl, fun site hsite => ?_⟩
      rcases List.mem_cons.mp hsite with rfl | hsite
      · simp only
        omega
      · have := hstart site hsite
        omega
    · refine ⟨first, rfl, fun site hsite => ?_⟩
      have := hstart site hsite
      omega

theorem sitesFrom_of_heads {keyword : List Char} {cs : List Char}
    (h : ∀ c ∈ cs, keyword.head? ≠ some c) (hne : keyword ≠ []) (before : Option Char)
    (offset : Nat) (rest : List Char) :
    sitesFrom keyword before offset (cs ++ rest) =
      sitesFrom keyword (lastOf before cs) (offset + byteLength cs) rest := by
  induction cs generalizing before offset with
  | nil => rfl
  | cons c cs ih =>
    have hnone : after? keyword (c :: (cs ++ rest)) = none := by
      cases hkeyword : keyword with
      | nil => exact absurd hkeyword hne
      | cons k ks =>
        have hk : c ≠ k := by
          rintro rfl
          exact h c List.mem_cons_self (by rw [hkeyword]; rfl)
        rw [after?, if_neg hk]
    have htail := ih (fun d hd => h d (List.mem_cons_of_mem c hd)) (some c) (offset + c.utf8Size)
    rw [List.cons_append, sitesFrom, hnone, byteLength_cons, ← Nat.add_assoc, lastOf_cons, ← htail]
    split
    · next heq =>
      split at heq <;> cases heq
    · rfl

variable {α : Type} {keyword : List Char} {f : List Char → Option α}

/-- What the texts behind the places of a keyword come to. -/
def found (keyword : List Char) (f : List Char → Option α) (before : Option Char)
    (cs : List Char) : List α :=
  (sitesFrom keyword before 0 cs).filterMap fun site => f site.rest

/-- What is found does not depend on the offset that the text is given. -/
theorem filterMap_sitesFrom (before : Option Char) (offset : Nat) (cs : List Char) :
    ((sitesFrom keyword before offset cs).filterMap fun site => f site.rest) =
      found keyword f before cs := by
  have h : ∀ (n m : Nat), ((sitesFrom keyword before n cs).filterMap fun site => f site.rest) =
      (sitesFrom keyword before m cs).filterMap fun site => f site.rest := by
    induction cs generalizing before with
    | nil => intros; rfl
    | cons c cs ih =>
      intro n m
      simp only [sitesFrom]
      split
      · simp only [List.filterMap_cons, ih (some c) (n + c.utf8Size) (m + c.utf8Size)]
      · exact ih (some c) _ _
  exact h offset 0

theorem found_nil (before : Option Char) : found keyword f before [] = [] := rfl

theorem found_cons (before : Option Char) (c : Char) (cs : List Char) :
    found keyword f before (c :: cs) =
      ((if isBoundary before then after? keyword (c :: cs) else none).bind f).toList ++
        found keyword f (some c) cs := by
  unfold found
  rw [sitesFrom]
  cases h : (if isBoundary before then after? keyword (c :: cs) else none) with
  | none => exact filterMap_sitesFrom (some c) _ cs
  | some rest =>
    simp only [List.filterMap_cons, filterMap_sitesFrom, Option.bind_some]
    cases f rest <;> rfl

/-- Nothing is found in a text at which a probe for the statements is silent. -/
theorem found_of_silent {p : Probe}
    (hp : ∀ before cs rest a, isBoundary before = true → after? keyword cs = some rest →
      f rest = some a → p.fires before cs = true)
    {before : Option Char} {cs rest : List Char} (h : p.Silent before cs rest) :
    found keyword f before (cs ++ rest) = found keyword f (lastOf before cs) rest := by
  induction cs generalizing before with
  | nil => rfl
  | cons c cs ih =>
    obtain ⟨hfirst, hothers⟩ := h
    rw [List.cons_append, found_cons, ih hothers, lastOf_cons]
    have hnone : (if isBoundary before then after? keyword (c :: (cs ++ rest)) else none).bind f =
        none := by
      split
      · next hb =>
        cases hafter : after? keyword (c :: (cs ++ rest)) with
        | none => rfl
        | some more =>
          cases hf : f more with
          | none => exact hf
          | some a =>
            rw [hp before _ more a hb hafter hf] at hfirst
            cases hfirst
      · rfl
    rw [hnone]
    rfl

end RailsSchema.Text
