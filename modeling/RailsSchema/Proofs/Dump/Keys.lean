import RailsSchema.Proofs.Dump.Blocks

/-!
# The foreign keys in a dump

The foreign keys stand behind the last block, one on each line. `found_keys` says what the search
for them finds there, and `silent_keys` that no block is met among them.
-/

namespace RailsSchema

open Text

namespace Dump

variable {foot : String → Prop} {depth : Nat} {p : Probe}

/-- The searches that run over the foreign keys. -/
def footProbes : List Probe := [keyProbe, tableProbe]

/-- A foreign key without the first character of its keyword. -/
def Key.tail (key : Key) : List Char :=
  "dd_foreign_key ".toList ++
    (quoted key.fromTable ++ (comma ++ (quoted key.toTable ++ (optionsText key.options ++ ['\n']))))

theorem Key.text_eq (key : Key) : key.text = 'a' :: key.tail := rfl

theorem follows_keys (keys : List Key) : Follows ('\n' :: keys.flatMap Key.text) := by
  have hstops : ∀ q : Char → Bool, q 'a' = false → Stops q (keys.flatMap Key.text) := by
    intro q hq
    cases keys with
    | nil => exact stops_nil q
    | cons key keys => exact stops_cons.mpr hq
  exact @follows_of_blank '\n' [] _ (by decide) (by simp) (hstops isBlank (by decide))
    (hstops isOpener (by decide))

/-- Nothing is met in a foreign key behind its first character. -/
theorem silent_keyTail (hp : p.Regular)
    (hhead : ∀ c ∈ "dd_foreign_key ".toList, p.word.head? ≠ some c)
    (hplain : ∀ content, foot content → p.Mutes content) {key : Key}
    (h : key.Canonical foot depth) (before : Option Char) {rest : List Char}
    (hrest : Follows ('\n' :: rest)) : p.Silent before key.tail rest := by
  refine Probe.silent_append.mpr ⟨Probe.silent_of_heads hhead hp.ne_nil _ _, ?_⟩
  refine Probe.silent_append.mpr ⟨silent_quoted hp h.fromTable _ _, ?_⟩
  refine Probe.silent_append.mpr ⟨Probe.silent_marks hp (by decide) _ _, ?_⟩
  refine Probe.silent_append.mpr ⟨silent_quoted hp h.toTable _ _, ?_⟩
  refine Probe.silent_append.mpr ⟨silent_optionsText hp hplain h.options _ hrest, ?_⟩
  exact Probe.silent_marks hp (by decide) _ _

/-- No block is met in the foreign keys. -/
theorem silent_keys (hplain : ∀ content, foot content → tableProbe.Mutes content)
    {keys : List Key} (h : ∀ key ∈ keys, key.Canonical foot depth) (before : Option Char) :
    tableProbe.Silent before (keys.flatMap Key.text) [] := by
  induction keys generalizing before with
  | nil => trivial
  | cons key keys ih =>
    have htail := silent_keyTail regular_tableProbe (by decide +kernel) hplain
      (h key List.mem_cons_self) (some 'a') (follows_keys keys)
    rw [List.flatMap_cons, Key.text_eq]
    refine Probe.silent_append.mpr ⟨⟨Probe.fires_of_head (by decide +kernel)
      regular_tableProbe.ne_nil before _, ?_⟩, ih (fun k hk => h k (List.mem_cons_of_mem key hk)) _⟩
    rwa [List.append_nil]

/-! ## Reading -/

/-- What a foreign key is read as. -/
def Key.asStatement (key : Key) : ForeignKeyStatement :=
  ⟨key.fromTable, key.toTable, String.ofList (bareText key.options)⟩

theorem newline_not_mem_skipped {options : Options} (h : CanonicalOptions foot depth options) :
    '\n' ∉ behindComma options :=
  fun hmem => newline_not_mem_behindComma h (List.mem_append_left _ hmem)

theorem trim_behindComma {options : Options} (h : CanonicalOptions foot depth options)
    {back : List Char} (hback : ∀ c ∈ back, isBlank c = true) :
    trim (behindComma options ++ back) = bareText options := by
  obtain ⟨front, heq, hfront⟩ := behindComma_eq options
  have hblank : ∀ c ∈ front, isBlank c = true := by
    rcases hfront with rfl | rfl <;> decide
  rw [heq, List.append_assoc]
  exact trim_bareText h hblank hback

/-- A foreign key is read as it was written, whatever follows its line. -/
theorem read?_key {key : Key} (h : key.Canonical foot depth) (rest : List Char) :
    ForeignKeyStatement.read? (' ' :: (quoted key.fromTable ++ (comma ++ (quoted key.toTable ++
      (optionsText key.options ++ '\n' :: rest))))) = some key.asStatement := by
  have hskip := @skipSome?_space isBlank (by decide) _ (stops_quoted (by decide) key.fromTable
    (comma ++ (quoted key.toTable ++ (optionsText key.options ++ '\n' :: rest))))
  have hcomma : ∀ cs, after? [','] (comma ++ cs) = some (' ' :: cs) :=
    fun cs => after?_eq_some_iff.mpr rfl
  have htrim : ∀ cs, trimStart (' ' :: (quoted key.toTable ++ cs)) = quoted key.toTable ++ cs :=
    fun cs => trimStart_cons (by decide) (stops_quoted (by decide) key.toTable cs)
  have hline : Text.line (behindComma key.options ++ '\n' :: rest) = behindComma key.options :=
    line_append (newline_not_mem_skipped h.options) (stops_cons.mpr (by decide))
  have hoptions := @trim_behindComma foot depth key.options h.options [] (by simp)
  rw [List.append_nil] at hoptions
  unfold ForeignKeyStatement.read?
  simp only [hskip, quotedName?_quoted h.fromTable, hcomma, htrim, quotedName?_quoted h.toTable,
    skipComma_optionsText _ (by decide : '\n' ≠ ','), hline, hoptions, Option.bind_eq_bind,
    Option.bind_some, String.ofList_toList]
  rfl

/-- The foreign keys of a dump are found in order. -/
theorem found_keys (hplain : ∀ content, foot content → keyProbe.Mutes content)
    {keys : List Key} (h : ∀ key ∈ keys, key.Canonical foot depth) {before : Option Char}
    (hbefore : isBoundary before = true) :
    found "add_foreign_key".toList ForeignKeyStatement.read? before (keys.flatMap Key.text) =
      keys.map Key.asStatement := by
  induction keys generalizing before with
  | nil => rfl
  | cons key keys ih =>
    have hkey := h key List.mem_cons_self
    have hafter : after? "add_foreign_key".toList ('a' :: (key.tail ++ keys.flatMap Key.text)) =
        some (' ' :: (quoted key.fromTable ++ (comma ++ (quoted key.toTable ++
          (optionsText key.options ++ '\n' :: keys.flatMap Key.text))))) := by
      obtain ⟨ks, hkeyword, htail⟩ : ∃ ks, "add_foreign_key".toList = 'a' :: ks ∧
          "dd_foreign_key ".toList = ks ++ [' '] := ⟨"dd_foreign_key".toList, rfl, rfl⟩
      rw [after?_eq_some_iff]
      unfold Key.tail
      rw [hkeyword, htail]
      simp only [List.append_assoc, List.cons_append, List.nil_append]
    have htail := silent_keyTail regular_keyProbe (by decide +kernel) hplain hkey (some 'a')
      (follows_keys keys)
    have hlast : isBoundary (lastOf (some 'a') key.tail) = true := by
      unfold Key.tail
      rw [lastOf_append, lastOf_append, lastOf_append, lastOf_append, lastOf_append]
      exact (by decide : isBoundary (some '\n') = true)
    rw [List.flatMap_cons, Key.text_eq, List.cons_append, found_cons, if_pos hbefore, hafter,
      Option.bind_some, read?_key hkey,
      found_of_silent (fun _ _ _ _ hb ha hr => fires_of_read? hb ha hr) htail,
      ih (fun k hk => h k (List.mem_cons_of_mem key hk)) hlast]
    rfl

end Dump

end RailsSchema
