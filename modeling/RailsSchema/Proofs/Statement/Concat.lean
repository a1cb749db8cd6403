import RailsSchema.Statement.Table
import RailsSchema.Statement.ForeignKey
import RailsSchema.Proofs.Text.More
import Mathlib.Data.List.Basic
import Mathlib.Data.List.Induction

/-!
# Statements in texts behind one another

A text is closed if every `create_table` in it lies in a block and every `add_foreign_key` in it
declares a foreign key (`Text.IsClosed`). What a closed text declares does not depend on what stands
behind a line break after it, and what stands there is read as if it stood alone.

* `TableBlock.at?_append`, `ForeignKeyStatement.read?_append`: a statement that is there stays as it
  is when a line break and more follow;
* `TableBlock.atSites_append`: if all places are covered by blocks, the search goes on behind them
  as if it began there;
* `TableBlock.all_append`, `ForeignKeyStatement.all_append`: the statements of two texts with a line
  break between them.
-/

namespace RailsSchema

open Text

namespace TableBlock

variable {cs body more : List Char}

/-! ## One block -/

theorem afterOpener?_eq_some_iff :
    afterOpener? cs = some body ↔ ∃ blanks rest,
      cs = 'd' :: 'o' :: (blanks ++ '|' :: 't' :: '|' :: rest) ∧
        (∀ c ∈ blanks, isBlank c = true) ∧ body = trimStart rest := by
  simp only [afterOpener?, Option.bind_eq_bind, Option.bind_eq_some_iff, after?_eq_some_iff,
    Option.pure_def, Option.some.injEq]
  constructor
  · rintro ⟨parameter, rfl, rest, hrest, rfl⟩
    refine ⟨parameter.takeWhile isBlank, rest, ?_, fun c hc => List.mem_takeWhile_imp hc, rfl⟩
    rw [trimStart] at hrest
    have hsplit := List.takeWhile_append_dropWhile (p := isBlank) (l := parameter)
    rw [hrest] at hsplit
    exact congrArg (fun cs => 'd' :: 'o' :: cs) hsplit.symm
  · rintro ⟨blanks, rest, rfl, hblanks, rfl⟩
    exact ⟨_, rfl, rest, trimStart_append hblanks (stops_cons.mpr (by decide)), rfl⟩

theorem exists_of_opener? {opener : List Char} (h : opener? cs = some (opener, body)) :
    ∃ front, cs = front ++ opener ∧ afterOpener? opener = some body := by
  induction cs with
  | nil => cases h
  | cons c cs ih =>
    simp only [opener?] at h
    split at h
    · cases h
    split at h
    · next hafter =>
      cases h
      exact ⟨[], rfl, hafter⟩
    · obtain ⟨front, rfl, hafter⟩ := ih h
      exact ⟨c :: front, rfl, hafter⟩

/-- No `do` before the one that opens the block opens one with more text behind it: its `|t|` would
have to lie behind that other `do`. -/
theorem afterOpener?_append_eq_none {c : Char} {opener : List Char}
    (hnone : afterOpener? (c :: cs) = none) (h : opener? cs = some (opener, body))
    (more : List Char) : afterOpener? (c :: cs ++ more) = none := by
  obtain ⟨front, hcs, hopener⟩ := exists_of_opener? h
  obtain ⟨_, _, hdo, -⟩ := afterOpener?_eq_some_iff.mp hopener
  have hmem : 'd' ∈ cs := by simp [hcs, hdo]
  rw [Option.eq_none_iff_forall_ne_some]
  intro body' hsome
  obtain ⟨blanks, rest, heq, hblanks, -⟩ := afterOpener?_eq_some_iff.mp hsome
  have hsplit : 'd' :: 'o' :: (blanks ++ '|' :: 't' :: '|' :: rest) =
      ('d' :: 'o' :: (blanks ++ ['|', 't', '|'])) ++ rest := by simp
  rw [hsplit] at heq
  rcases List.append_eq_append_iff.mp heq with ⟨extra, hpattern, -⟩ | ⟨extra, hfront, -⟩
  · have hd : 'd' ∈ 'o' :: (blanks ++ ['|', 't', '|']) := by
      rw [(List.cons.inj hpattern).2]
      exact List.mem_append_left extra hmem
    rcases List.mem_cons.mp hd with hd | hd
    · cases hd
    rcases List.mem_append.mp hd with hd | hd
    · exact absurd (hblanks 'd' hd) (by decide)
    · exact absurd hd (by decide)
  · have hthere : afterOpener? (c :: cs) = some (trimStart extra) :=
      afterOpener?_eq_some_iff.mpr ⟨blanks, extra, by rw [hfront]; simp, hblanks, rfl⟩
    rw [hnone] at hthere
    cases hthere

theorem opener?_append {opener : List Char} (h : opener? cs = some (opener, body))
    (hne : body ≠ []) (more : List Char) :
    opener? (cs ++ more) = some (opener ++ more, body ++ more) := by
  induction cs with
  | nil => cases h
  | cons c cs ih =>
    simp only [opener?] at h
    split at h
    · cases h
    next hline =>
    split at h
    · next hafter =>
      cases h
      obtain ⟨blanks, rest, hcs, hblanks, rfl⟩ := afterOpener?_eq_some_iff.mp hafter
      have hmore : afterOpener? (c :: cs ++ more) = some (trimStart rest ++ more) := by
        refine afterOpener?_eq_some_iff.mpr ⟨blanks, rest ++ more, ?_, hblanks, ?_⟩
        · rw [hcs]
          simp
        · exact (dropWhile_append_of_ne_nil hne).symm
      rw [List.cons_append] at hmore
      rw [List.cons_append, opener?, if_neg hline, hmore]
    · next hnone =>
      have hmore := afterOpener?_append_eq_none hnone h more
      rw [List.cons_append] at hmore
      rw [List.cons_append, opener?, if_neg hline, hmore]
      exact ih h

theorem isClosing_append_newline (before : Option Char) (cs more : List Char) :
    isClosing before (cs ++ '\n' :: more) = isClosing before cs := by
  have hgap : isGap (some '\n') = isGap none := by decide
  unfold isClosing
  rw [after?_append_newline (by decide)]
  cases after? ['e', 'n', 'd'] cs with
  | none => rfl
  | some rest =>
    cases rest with
    | nil => exact congrArg (isGap before && ·) hgap
    | cons c rest => rfl

theorem closing?_append {before : Option Char} {closing : List Char}
    (h : closing? before cs = some closing) (more : List Char) :
    closing? before (cs ++ '\n' :: more) = some (closing ++ '\n' :: more) := by
  induction cs generalizing before with
  | nil => cases h
  | cons c cs ih =>
    have hsame := isClosing_append_newline before (c :: cs) more
    rw [List.cons_append] at hsame
    rw [List.cons_append, closing?, hsame]
    rw [closing?] at h
    split at h
    · next hclosing =>
      cases h
      rw [if_pos hclosing, List.cons_append]
    · next hclosing =>
      rw [if_neg hclosing]
      exact ih h

/-- A block stays as it is when a line break and more follow the text. -/
theorem at?_append {site : Site} {block : TableBlock} (h : at? site = some block)
    (more : List Char) : at? (site.append ('\n' :: more)) = some block := by
  simp only [at?, Option.bind_eq_bind, Option.bind_eq_some_iff, Option.pure_def] at h
  obtain ⟨list, hlist, ⟨name, behind⟩, hname, ⟨opener, body⟩, hopener, closing, hclosing, heq⟩ := h
  have hlistne : list ≠ [] := by
    rintro rfl
    cases hname
  have hbodyne : body ≠ [] := by
    rintro rfl
    cases hclosing
  have hlist' := skipSome?_append hlist hlistne ('\n' :: more)
  have hname' := quotedName?_append hname ('\n' :: more)
  have hopener' := opener?_append hopener hbodyne ('\n' :: more)
  have hclosing' := closing?_append hclosing more
  rw [← heq]
  simp only [at?, Site.append, hlist', hname', skipComma_append_newline, hopener', hclosing',
    upTo_append_append, Option.bind_eq_bind, Option.bind_some, Option.pure_def]

theorem byteLength_upTo_le (cs rest : List Char) : byteLength (upTo cs rest) ≤ byteLength cs := by
  have h := congrArg byteLength (List.take_append_drop (cs.length - rest.length) cs)
  rw [byteLength_append] at h
  unfold upTo
  omega

theorem bounds_of_at? {site : Site} {block : TableBlock} (h : at? site = some block) :
    block.start = site.start ∧
      block.stop ≤ site.start + byteLength keyword.toList + byteLength site.rest := by
  simp only [at?, Option.bind_eq_bind, Option.bind_eq_some_iff, Option.pure_def] at h
  obtain ⟨list, -, ⟨name, behind⟩, -, ⟨opener, body⟩, -, closing, -, heq⟩ := h
  cases heq
  exact ⟨rfl, Nat.add_le_add_left (byteLength_upTo_le _ _) _⟩

/-- A block in a text that stands behind `n` other bytes. -/
def shift (n : Nat) (block : TableBlock) : TableBlock :=
  { block with start := block.start + n, stop := block.stop + n }

theorem at?_shift (n : Nat) (site : Site) : at? (site.shift n) = (at? site).map (shift n) := by
  simp only [at?, Site.shift, Option.bind_eq_bind, Option.map_bind, Option.pure_def,
    Function.comp_def, Option.map_some, shift, Nat.add_right_comm _ n]

/-! ## All blocks -/

theorem exists_of_mem_atSites {resume : Nat} {sites : List Site} {block : TableBlock}
    (h : block ∈ atSites resume sites) : ∃ site ∈ sites, at? site = some block := by
  induction sites generalizing resume with
  | nil => cases h
  | cons site sites ih =>
    rw [atSites] at h
    have hlater : ∀ resume, block ∈ atSites resume sites →
        ∃ s ∈ site :: sites, at? s = some block := by
      intro resume hmem
      obtain ⟨s, hs, hat⟩ := ih hmem
      exact ⟨s, List.mem_cons_of_mem site hs, hat⟩
    split at h
    · exact hlater _ h
    split at h
    · exact hlater _ h
    · next found hat =>
      rcases List.mem_cons.mp h with rfl | h
      · exact ⟨site, List.mem_cons_self, hat⟩
      · exact hlater _ h

theorem atSites_of_le {resume : Nat} {sites : List Site} (h : ∀ site ∈ sites, resume ≤ site.start) :
    atSites resume sites = atSites 0 sites := by
  induction sites with
  | nil => rfl
  | cons site sites ih =>
    obtain ⟨hsite, hsites⟩ := List.forall_mem_cons.mp h
    rw [atSites, atSites, if_neg (Nat.not_lt.mpr hsite), if_neg (Nat.not_lt_zero _), ih hsites]

theorem atSites_shift (n resume : Nat) (sites : List Site) :
    atSites (resume + n) (sites.map (Site.shift n)) = (atSites resume sites).map (shift n) := by
  induction sites generalizing resume with
  | nil => rfl
  | cons site sites ih =>
    have hlt : (site.shift n).start < resume + n ↔ site.start < resume := Nat.add_lt_add_iff_right
    rw [List.map_cons, atSites, atSites, at?_shift]
    by_cases hskip : site.start < resume
    · rw [if_pos hskip, if_pos (hlt.mpr hskip), ih]
    · rw [if_neg hskip, if_neg (mt hlt.mp hskip)]
      cases at? site with
      | none => exact ih resume
      | some block =>
        show shift n block :: atSites (block.stop + n) _ = _
        rw [ih, List.map_cons]

/-- If the places of a text are covered by its blocks, these are found as well with more behind the
text, and the search goes on at the places behind them. -/
theorem atSites_append {resume : Nat} {first others : List Site} (more : List Char)
    (hsorted : first.Pairwise (·.start < ·.start))
    (hcovered : ∀ site ∈ first, resume ≤ site.start →
      ∃ block ∈ atSites resume first, block.start ≤ site.start ∧ site.start < block.stop)
    (hresume : ∀ site ∈ others, resume ≤ site.start)
    (hstop : ∀ block ∈ atSites resume first, ∀ site ∈ others, block.stop ≤ site.start) :
    atSites resume (first.map (Site.append · ('\n' :: more)) ++ others) =
      atSites resume first ++ atSites 0 others := by
  induction first generalizing resume with
  | nil => exact atSites_of_le hresume
  | cons site first ih =>
    obtain ⟨hlater, hsorted⟩ := List.pairwise_cons.mp hsorted
    obtain ⟨hsite, hcovered⟩ := List.forall_mem_cons.mp hcovered
    have hstart : (site.append ('\n' :: more)).start = site.start := rfl
    rw [List.map_cons, List.cons_append]
    by_cases hskip : site.start < resume
    · simp only [atSites, hstart, if_pos hskip] at hcovered hstop ⊢
      exact ih hsorted hcovered hresume hstop
    have hle := Nat.not_lt.mp hskip
    cases hat : at? site with
    | none =>
      -- a block that covers the place would begin at a later one
      obtain ⟨block, hmem, hstart, -⟩ := hsite hle
      simp only [atSites, if_neg hskip, hat] at hmem
      obtain ⟨later, hmem, hblock⟩ := exists_of_mem_atSites hmem
      have hlt := hlater later hmem
      have hsame := (bounds_of_at? hblock).1
      omega
    | some block =>
      have happend : at? (site.append ('\n' :: more)) = some block := at?_append hat more
      simp only [atSites, if_neg hskip, hat] at hcovered hstop
      obtain ⟨hblock, hstop⟩ := List.forall_mem_cons.mp hstop
      simp only [atSites, hstart, if_neg hskip, hat, happend, List.cons_append]
      refine congrArg (block :: ·) (ih hsorted (fun later hmem hge => ?_) hblock hstop)
      obtain ⟨cover, hcover, hfrom, hto⟩ :=
        hcovered later hmem (Nat.le_of_lt (Nat.lt_of_le_of_lt hle (hlater later hmem)))
      rcases List.mem_cons.mp hcover with rfl | hcover
      · omega
      · exact ⟨cover, hcover, hfrom, hto⟩

end TableBlock

/-! ## Closed texts -/

/-- Whether a text leaves no statement open: every `create_table` that can begin a block lies in a
block, from its keyword to its `end`, and every `add_foreign_key` that can begin a foreign key
declares one. -/
structure Text.IsClosed (text : String) : Prop where
  tables : ∀ front back, text.toList = front ++ ("create_table".toList ++ back) →
    isBoundary front.getLast? = true →
      ∃ block ∈ TableBlock.all text, block.start ≤ byteLength front ∧ byteLength front < block.stop
  foreignKeys : ∀ front back, text.toList = front ++ ("add_foreign_key".toList ++ back) →
    isBoundary front.getLast? = true → (ForeignKeyStatement.read? back).isSome = true

theorem Text.lastOf_none (cs : List Char) : lastOf none cs = cs.getLast? := by
  induction cs using List.reverseRecOn with
  | nil => rfl
  | append_singleton cs c _ => simp

theorem Text.forall_sites_iff {keyword : String} (hne : keyword.toList ≠ []) {text : List Char}
    {P : Nat → List Char → Prop} :
    (∀ site ∈ sites keyword text, P site.start site.rest) ↔
      ∀ front back, text = front ++ (keyword.toList ++ back) →
        isBoundary front.getLast? = true → P (byteLength front) back := by
  constructor
  · intro h front back htext hb
    refine h ⟨byteLength front, back⟩ ((mem_sitesFrom_iff hne).mpr ⟨front, htext, ?_, ?_⟩)
    · exact (Nat.zero_add _).symm
    · rwa [lastOf_none]
  · intro h site hsite
    obtain ⟨front, htext, hstart, hb⟩ := (mem_sitesFrom_iff hne).mp hsite
    rw [hstart, Nat.zero_add]
    rw [lastOf_none] at hb
    exact h front site.rest htext hb

theorem Text.isClosed_iff {text : String} :
    IsClosed text ↔
      (∀ site ∈ sites "create_table" text.toList, ∃ block ∈ TableBlock.all text,
        block.start ≤ site.start ∧ site.start < block.stop) ∧
      ∀ site ∈ sites "add_foreign_key" text.toList,
        (ForeignKeyStatement.read? site.rest).isSome = true := by
  rw [forall_sites_iff (by decide) (P := fun start _ => ∃ block ∈ TableBlock.all text,
      block.start ≤ start ∧ start < block.stop),
    forall_sites_iff (by decide) (P := fun _ rest =>
      (ForeignKeyStatement.read? rest).isSome = true)]
  exact ⟨fun h => ⟨h.tables, h.foreignKeys⟩, fun h => ⟨h.1, h.2⟩⟩

instance (text : String) : Decidable (IsClosed text) := decidable_of_iff' _ isClosed_iff

/-- A text without the two keywords is closed. -/
theorem Text.IsClosed.of_absent {text : String} (htable : ¬ "create_table".toList <:+: text.toList)
    (hkey : ¬ "add_foreign_key".toList <:+: text.toList) : IsClosed text where
  tables front back h _ := absurd ⟨front, back, by rw [h, List.append_assoc]⟩ htable
  foreignKeys front back h _ := absurd ⟨front, back, by rw [h, List.append_assoc]⟩ hkey

theorem Text.sites_of_absent {keyword : String} (hne : keyword.toList ≠ []) {text : List Char}
    (h : ¬ keyword.toList <:+: text) : sites keyword text = [] := by
  rw [List.eq_nil_iff_forall_not_mem]
  intro site hsite
  obtain ⟨front, htext, -⟩ := (mem_sitesFrom_iff hne).mp hsite
  exact h ⟨front, site.rest, by rw [htext, List.append_assoc]⟩

theorem String.toList_append_newline (a b : String) :
    (a ++ "\n" ++ b).toList = a.toList ++ '\n' :: b.toList := by
  simp

variable {a : String}

/-- The blocks of two texts with a line break between them are those of the first and, further on,
those of the second, if the first text is closed. -/
theorem TableBlock.all_append (ha : IsClosed a) (b : String) :
    all (a ++ "\n" ++ b) = all a ++ (all b).map (shift (byteLength a.toList + 1)) := by
  have hne : keyword.toList ≠ [] := by decide
  have hsorted : (sites keyword a.toList).Pairwise (·.start < ·.start) :=
    (pairwise_sitesFrom keyword.toList none 0 a.toList).1
  have hstop : ∀ block ∈ all a, block.stop ≤ byteLength a.toList := by
    intro block hblock
    obtain ⟨site, hsite, hat⟩ := exists_of_mem_atSites hblock
    obtain ⟨front, htext, hstart, -⟩ := (mem_sitesFrom_iff hne).mp hsite
    have hbound := (bounds_of_at? hat).2
    have hlength := congrArg byteLength htext
    rw [byteLength_append, byteLength_append] at hlength
    omega
  have hlater : ∀ site ∈ (sites keyword b.toList).map (Site.shift (byteLength a.toList + 1)),
      byteLength a.toList + 1 ≤ site.start := by
    intro site hsite
    obtain ⟨s, -, rfl⟩ := List.mem_map.mp hsite
    exact Nat.le_add_left _ _
  rw [all, String.toList_append_newline, sites_append_newline (by decide) hne,
    atSites_append b.toList hsorted (fun site hsite _ => (isClosed_iff.mp ha).1 site hsite)
      (fun _ _ => Nat.zero_le _) (fun block hblock site hsite => ?_)]
  · have hshift := atSites_shift (byteLength a.toList + 1) 0 (sites keyword b.toList)
    rw [atSites_of_le (fun site hsite => by have := hlater site hsite; omega)] at hshift
    rw [hshift]
    rfl
  · have h1 := hstop block hblock
    have h2 := hlater site hsite
    omega

namespace ForeignKeyStatement

/-- A foreign key stays as it is when a line break and more follow the text. -/
theorem read?_append {cs : List Char} {statement : ForeignKeyStatement}
    (h : read? cs = some statement) (more : List Char) :
    read? (cs ++ '\n' :: more) = some statement := by
  simp only [read?, Option.bind_eq_bind, Option.bind_eq_some_iff, Option.pure_def] at h
  obtain ⟨list, hlist, ⟨fromTable, behind⟩, hfrom, next, hnext, ⟨toTable, rest⟩, hto, heq⟩ := h
  have hlistne : list ≠ [] := by
    rintro rfl
    cases hfrom
  have hnextne : trimStart next ≠ [] := by
    intro hnil
    rw [hnil] at hto
    cases hto
  have hlist' := skipSome?_append hlist hlistne ('\n' :: more)
  have hfrom' := quotedName?_append hfrom ('\n' :: more)
  have hnext' := after?_append_newline (by decide : '\n' ∉ [',']) behind more
  rw [hnext] at hnext'
  have htrim : trimStart (next ++ '\n' :: more) = trimStart next ++ '\n' :: more :=
    dropWhile_append_of_ne_nil hnextne
  have hto' := quotedName?_append hto ('\n' :: more)
  have hline : line (skipComma rest ++ '\n' :: more) = line (skipComma rest) :=
    takeWhile_append_cons (by decide) _ _
  rw [← heq]
  simp only [read?, hlist', hfrom', hnext', htrim, hto', skipComma_append_newline, hline,
    Option.map_some, Option.bind_eq_bind, Option.bind_some, Option.pure_def]

/-- The foreign keys of two texts with a line break between them are those of the first and those
of the second, if the first text is closed. -/
theorem all_append (ha : IsClosed a) (b : String) : all (a ++ "\n" ++ b) = all a ++ all b := by
  have hread := (isClosed_iff.mp ha).2
  rw [all, String.toList_append_newline, sites_append_newline (by decide) (by decide),
    List.filterMap_append, List.filterMap_map, List.filterMap_map]
  refine congrArg (· ++ _) (List.filterMap_congr fun site hsite => ?_)
  obtain ⟨statement, hstatement⟩ := Option.isSome_iff_exists.mp (hread site hsite)
  exact (read?_append hstatement b.toList).trans hstatement.symm

end ForeignKeyStatement

end RailsSchema
