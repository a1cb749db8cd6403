import RailsSchema.Statement.Column
import RailsSchema.Statement.Index
import RailsSchema.Statement.ForeignKey
import RailsSchema.Proofs.Offset.Group
import RailsSchema.Proofs.Offset.Search

/-!
# Statements by byte offsets

The statements behind a keyword, read step by step: `typedColumn_offsetOf`, `genericColumn_offsetOf`,
`indexStatement_offsetOf` and `foreignKeyStatement_offsetOf` say that from every place of a text they
are read as the scanners on characters read them.
-/

namespace RailsSchema.Offset

open Text

variable {text cs rest : List Char}

/-! ## Parts of statements -/

/-- Takes characters of a class, at least one. -/
def skipSome (p : Char → Bool) (text : List Char) (pos : Nat) : Except OffsetError (Option Nat) := do
  let (taken, next) ← eatWhile p text pos
  return if taken.isEmpty then none else some next

/-- The options at the end of a statement. -/
def trailingOptions (text : List Char) (pos : Nat) : Except OffsetError (Option (List Char)) := do
  let (tail, _) ← eatWhile (· != '\n') text pos
  return match trim tail with
    | [] => some []
    | ',' :: options => some (trim options)
    | _ => none

theorem skipSome_offsetOf {p : Char → Bool} (h : cs <:+ text) :
    skipSome p text (offsetOf text cs) = .ok ((skipSome? p cs).map (offsetOf text)) := by
  rw [skipSome, eatWhile_offsetOf h]
  cases cs with
  | nil => rfl
  | cons c cs => cases hc : p c <;> simp [skipSome?, hc]

theorem skipComma_offsetOf (h : cs <:+ text) :
    eatChar ',' text (offsetOf text cs) =
      .ok ((after? [','] cs).isSome, offsetOf text (skipComma cs)) := by
  rw [eatChar_offsetOf h]
  cases hafter : after? [','] cs with
  | none =>
    have hsame : skipComma cs = cs := by
      unfold skipComma
      split
      · cases hafter
      · rfl
    rw [hsame]
    rfl
  | some rest =>
    obtain rfl := after?_eq_some_iff.mp hafter
    rfl

theorem trailingOptions_offsetOf (h : cs <:+ text) :
    trailingOptions text (offsetOf text cs) = .ok (trailingOptions? cs) := by
  rw [trailingOptions, eatWhile_offsetOf h]
  rfl

theorem skipComma_suffix (cs : List Char) : skipComma cs <:+ cs := by
  unfold skipComma
  split
  · exact List.suffix_cons _ _
  · exact List.suffix_refl _

theorem suffix_of_quotedName? {name : List Char} (h : quotedName? cs = some (name, rest)) :
    rest <:+ cs := by
  rw [eq_of_quotedName? h]
  exact ⟨'"' :: (name ++ ['"']), by simp⟩

/-! ## Columns -/

/-- Takes a name in double quotes that is not empty. -/
def columnName (text : List Char) (pos : Nat) : Except OffsetError (Option (List Char × Nat)) := do
  return (← doubleQuoted text pos).filter fun found => !found.1.isEmpty

/-- The column statement behind `t.`. -/
def typedColumn (text : List Char) (pos : Nat) : Except OffsetError (Option ColumnStatement) := do
  let (type, next) ← eatWhile isWordChar text pos
  if type.isEmpty || ColumnStatement.otherStatements.contains type then return none
  ifFound (skipSome isInlineBlank text next) fun next =>
  ifFound (columnName text next) fun (name, next) =>
  ifFound (trailingOptions text next) fun options =>
  return some ⟨String.ofList name, String.ofList type, String.ofList options⟩

/-- The column statement behind `t.column`. -/
def genericColumn (text : List Char) (pos : Nat) : Except OffsetError (Option ColumnStatement) :=
  ifFound (skipSome isInlineBlank text pos) fun next =>
  ifFound (columnName text next) fun (name, next) => do
  let (_, next) ← eatWhile isInlineBlank text next
  let (comma, next) ← eatChar ',' text next
  if !comma then return none
  let (_, next) ← eatWhile isInlineBlank text next
  ifFound (columnName text next) fun (type, next) =>
  ifFound (trailingOptions text next) fun options =>
  return some ⟨String.ofList name, String.ofList type, String.ofList options⟩

theorem columnName_offsetOf (h : cs <:+ text) :
    columnName text (offsetOf text cs) =
      .ok ((ColumnStatement.name? cs).map (locate text)) := by
  rw [columnName, doubleQuoted_offsetOf h, ColumnStatement.name?]
  cases quotedName? cs with
  | none => rfl
  | some found => cases hempty : found.1.isEmpty <;> simp_all [Option.filter, locate]

theorem suffix_of_name? {name : List Char} (h : ColumnStatement.name? cs = some (name, rest)) :
    rest <:+ cs :=
  suffix_of_quotedName? (Option.filter_eq_some_iff.mp h).1

theorem typedColumn_offsetOf (h : cs <:+ text) :
    typedColumn text (offsetOf text cs) = .ok (ColumnStatement.typed? cs) := by
  have hrest := (List.dropWhile_suffix isWordChar (l := cs)).trans h
  rw [typedColumn, eatWhile_offsetOf h, ok_bind, ColumnStatement.typed?, ← Bool.not_or]
  dsimp only
  generalize htype : ((cs.takeWhile isWordChar).isEmpty ||
      ColumnStatement.otherStatements.contains (cs.takeWhile isWordChar)) = isOther
  cases isOther with
  | true => rfl
  | false =>
    change ifFound _ _ = .ok (Option.bind (skipSome? _ _) _)
    refine ifFound_eq (skipSome_offsetOf hrest) fun next hnext => ?_
    have hnext := (isProperEnd_of_skipSome? hnext).1.trans hrest
    refine ifFound_eq (columnName_offsetOf hnext) fun found hfound => ?_
    have hfound := (suffix_of_name? hfound).trans hnext
    simp only [locate, trailingOptions_offsetOf hfound]
    exact ifFound_ok fun options _ => rfl

theorem genericColumn_offsetOf (h : cs <:+ text) :
    genericColumn text (offsetOf text cs) = .ok (ColumnStatement.generic? cs) := by
  refine ifFound_eq (skipSome_offsetOf h) fun start hstart => ?_
  have hstart := (isProperEnd_of_skipSome? hstart).1.trans h
  refine ifFound_eq (columnName_offsetOf hstart) fun name hname => ?_
  have hname := (suffix_of_name? hname).trans hstart
  have hblanks := (List.dropWhile_suffix isInlineBlank).trans hname
  simp only [locate, eatWhile_offsetOf hname, ok_bind, eatChar_offsetOf hblanks]
  cases hafter : after? [','] (name.2.dropWhile isInlineBlank) with
  | none => rfl
  | some next =>
    have hnext := (suffix_of_after? hafter).trans hblanks
    have hblanks := (List.dropWhile_suffix isInlineBlank).trans hnext
    simp only [Bool.not_true, Bool.false_eq_true, if_false, eatWhile_offsetOf hnext, ok_bind,
      Option.bind_eq_bind, Option.bind_some]
    refine ifFound_eq (columnName_offsetOf hblanks) fun type htype => ?_
    have htype := (suffix_of_name? htype).trans hblanks
    simp only [locate, trailingOptions_offsetOf htype]
    exact ifFound_ok fun options _ => rfl

/-! ## Indexes -/

/-- The index statement behind `t.index`. -/
def indexStatement (text : List Char) (pos : Nat) : Except OffsetError (Option IndexStatement) :=
  ifFound (skipSome isBlank text pos) fun start => do
  if (← peek text start) ≠ some Bracket.square.opening then return none
  ifFound (groupEnd text start) fun stop => do
  let inner ← slice text (start + 1) (← back stop 1)
  if (trim inner).isEmpty then return none
  ifFound (trailingOptions text stop) fun options =>
  return some ⟨String.ofList (← slice text start stop), String.ofList options⟩

theorem indexStatement_offsetOf (h : cs <:+ text) :
    indexStatement text (offsetOf text cs) = .ok (IndexStatement.read? cs) := by
  refine ifFound_eq (skipSome_offsetOf h) fun list hlist => ?_
  have hlist := (isProperEnd_of_skipSome? hlist).1.trans h
  have hsquare : ∀ group, group? list = some group →
      (list.head? = some Bracket.square.opening ↔ group.bracket = .square) := by
    intro group hgroup
    rw [head?_eq_of_group? hgroup]
    cases group.bracket <;> decide
  rw [peek_offsetOf hlist, ok_bind, groupEnd_offsetOf hlist]
  by_cases hhead : list.head? = some Bracket.square.opening
  · rw [if_neg (not_not.mpr hhead)]
    refine ifFound_eq rfl fun group hgroup => ?_
    have hrest := (Group.isProperEnd_rest hgroup).1.trans hlist
    obtain ⟨stop, hstop, hinner⟩ := slice_inner hgroup hlist
    have hbracket := (hsquare group hgroup).mp hhead
    obtain ⟨bracket, inner, rest⟩ := group
    obtain rfl : bracket = .square := hbracket
    rw [hstop, ok_bind, hinner, ok_bind]
    cases hblank : (trim inner).isEmpty with
    | true => rfl
    | false =>
      change ifFound _ _ = .ok (Option.bind (trailingOptions? rest) _)
      rw [trailingOptions_offsetOf hrest]
      refine ifFound_ok fun options _ => ?_
      rw [slice_group hgroup hlist]
      rfl
  · rw [if_pos hhead]
    cases hgroup : group? list with
    | none => rfl
    | some group =>
      have hother := mt (hsquare group hgroup).mpr hhead
      obtain ⟨bracket, inner, rest⟩ := group
      cases bracket with
      | square => exact absurd rfl hother
      | curly => rfl

/-! ## Foreign keys -/

/-- The foreign key statement behind `add_foreign_key`. -/
def foreignKeyStatement (text : List Char) (pos : Nat) :
    Except OffsetError (Option ForeignKeyStatement) :=
  ifFound (skipSome isBlank text pos) fun next =>
  ifFound (doubleQuoted text next) fun (fromTable, next) => do
  let (comma, next) ← eatChar ',' text next
  if !comma then return none
  let (_, next) ← eatWhile isBlank text next
  ifFound (doubleQuoted text next) fun (toTable, next) => do
  let (_, next) ← eatChar ',' text next
  let (options, _) ← eatWhile (· != '\n') text next
  return some ⟨String.ofList fromTable, String.ofList toTable, String.ofList (trim options)⟩

theorem foreignKeyStatement_offsetOf (h : cs <:+ text) :
    foreignKeyStatement text (offsetOf text cs) = .ok (ForeignKeyStatement.read? cs) := by
  refine ifFound_eq (skipSome_offsetOf h) fun start hstart => ?_
  have hstart := (isProperEnd_of_skipSome? hstart).1.trans h
  refine ifFound_eq (doubleQuoted_offsetOf hstart) fun fromTable hfrom => ?_
  have hfrom := (suffix_of_quotedName? hfrom).trans hstart
  simp only [locate, ok_bind, eatChar_offsetOf hfrom]
  cases hafter : after? [','] fromTable.2 with
  | none => rfl
  | some next =>
    have hnext := (suffix_of_after? hafter).trans hfrom
    have hblanks := (trimStart_suffix next).trans hnext
    simp only [Bool.not_true, Bool.false_eq_true, if_false, skipBlanks_offsetOf hnext, ok_bind,
      Option.bind_eq_bind, Option.bind_some]
    refine ifFound_eq (doubleQuoted_offsetOf hblanks) fun toTable hto => ?_
    have hto := (suffix_of_quotedName? hto).trans hblanks
    have hcomma := (skipComma_suffix toTable.2).trans hto
    simp only [locate, skipComma_offsetOf hto, eatWhile_offsetOf hcomma, ok_bind]
    rfl

end RailsSchema.Offset
