import RailsSchema.Proofs.Dump.Basic

/-!
# Deciding whether a dump is well-formed

What a callable is is said by what it is made of, and can be told by scanning. With that, and a
decision for each value from those for its members, it can be computed whether a dump is in
canonical form.
-/

namespace RailsSchema

open Text

/-- A callable is an arrow and, behind white space, nothing but a group in braces. -/
theorem Text.isCallable_iff {cs : List Char} :
    IsCallable cs ↔ ['-', '>'] <+: cs ∧
      (trimStart (cs.drop 2)).head? = some Bracket.curly.opening ∧
        groupEnd? (trimStart (cs.drop 2)) 0 = .ok (some (byteLength (trimStart (cs.drop 2)))) := by
  constructor
  · intro h
    obtain ⟨blanks, body, rfl, hblanks, hhead, hend⟩ := h
    have hstop : Stops isBlank body := by
      intro c hc
      rw [hhead] at hc
      cases hc
      decide
    have htrim : trimStart (('-' :: '>' :: (blanks ++ body)).drop 2) = body :=
      dropWhile_append_of_stops hblanks hstop
    rw [htrim]
    exact ⟨⟨blanks ++ body, rfl⟩, hhead, hend⟩
  · rintro ⟨⟨rest, rfl⟩, hhead, hend⟩
    refine ⟨rest.takeWhile isBlank, trimStart rest, ?_, ?_, hhead, hend⟩
    · rw [trimStart, List.takeWhile_append_dropWhile]
      rfl
    · exact fun c hc => List.mem_takeWhile_imp hc

instance (cs : List Char) : Decidable (IsCallable cs) := decidable_of_iff _ isCallable_iff.symm

namespace Value

variable (P : Value → Prop) [DecidablePred P]

mutual

/-- Decides a predicate everywhere inside a value. -/
def decideEach : (value : Value) → Decidable (value.Each P)
  | .str _ => inferInstanceAs (Decidable (P _))
  | .callable _ => inferInstanceAs (Decidable (P _))
  | .hash entries => @instDecidableAnd _ _ _ (decideEntries entries)
  | .array items => @instDecidableAnd _ _ _ (decideItems items)
  | .numeric _ => inferInstanceAs (Decidable (P _))
  | .symbol _ => inferInstanceAs (Decidable (P _))
  | .keyword _ => inferInstanceAs (Decidable (P _))

/-- Decides a predicate everywhere inside the items of a list. -/
def decideItems : (items : List Value) → Decidable (EachItem P items)
  | [] => .isTrue trivial
  | item :: items => @instDecidableAnd _ _ (decideEach item) (decideItems items)

/-- Decides a predicate everywhere inside the entries of a map. -/
def decideEntries : (entries : List (String × Value)) → Decidable (EachEntry P entries)
  | [] => .isTrue trivial
  | (_, value) :: entries => @instDecidableAnd _ _ (decideEach value) (decideEntries entries)

end

end Value

variable {plain header body foot : String → Prop} [DecidablePred plain] [DecidablePred header]
  [DecidablePred body] [DecidablePred foot] {depth : Nat}

instance : DecidablePred (Value.IsCanonical plain)
  | .str _ => inferInstanceAs (Decidable (_ ∧ _ ∧ plain _))
  | .callable _ => inferInstanceAs (Decidable (_ ∧ _ ∧ IsPlain _))
  | .hash _ => inferInstanceAs (Decidable (_ ∧ ∀ _ ∈ _, _))
  | .array _ => .isTrue trivial
  | .numeric _ => inferInstanceAs (Decidable (Numeral.IsCanonical _))
  | .symbol _ => inferInstanceAs (Decidable (_ ∧ _))
  | .keyword _ => .isTrue trivial

instance (value : Value) : Decidable (value.Canonical plain) :=
  Value.decideEach (Value.IsCanonical plain) value

namespace Dump

instance (options : Options) : Decidable (CanonicalOptions plain depth options) :=
  decidable_of_iff ((OrderedMap.keys options).Nodup ∧ ∀ option ∈ options,
      IsWord option.1.toList ∧ option.2.Canonical plain ∧ option.2.depth ≤ depth)
    ⟨fun h => ⟨h.1, fun o ho => (h.2 o ho).1, fun o ho => (h.2 o ho).2.1,
      fun o ho => (h.2 o ho).2.2⟩,
    fun h => ⟨h.nodup, fun o ho => ⟨h.word o ho, h.value o ho, h.depth_le o ho⟩⟩⟩

instance : (statement : Statement) → Decidable statement.CanonicalSubject
  | .typed .. => inferInstanceAs (Decidable (_ ∧ _ ∧ _ ∧ _))
  | .generic .. => inferInstanceAs (Decidable (_ ∧ _))
  | .index .. => inferInstanceAs (Decidable (_ ∧ ∀ _ ∈ _, _))

instance (statement : Statement) : Decidable (statement.Canonical plain depth) :=
  decidable_of_iff (statement.CanonicalSubject ∧ CanonicalOptions plain depth statement.options)
    ⟨fun h => ⟨h.1, h.2⟩, fun h => ⟨h.subject, h.options⟩⟩

instance (block : Block) : Decidable (block.Canonical header body depth) :=
  decidable_of_iff (IsWord block.name.toList ∧ CanonicalOptions header depth block.options ∧
      ∀ statement ∈ block.statements, statement.Canonical body depth)
    ⟨fun h => ⟨h.1, h.2.1, h.2.2⟩, fun h => ⟨h.name, h.options, h.statements⟩⟩

instance (key : Key) : Decidable (key.Canonical foot depth) :=
  decidable_of_iff (IsWord key.fromTable.toList ∧ IsWord key.toTable.toList ∧
      CanonicalOptions foot depth key.options)
    ⟨fun h => ⟨h.1, h.2.1, h.2.2⟩, fun h => ⟨h.fromTable, h.toTable, h.options⟩⟩

instance (dump : Dump) : Decidable (dump.Canonical header body foot depth) :=
  decidable_of_iff ((dump.blocks.map Block.name).Nodup ∧
      (∀ block ∈ dump.blocks, block.Canonical header body depth) ∧
        ∀ key ∈ dump.keys, key.Canonical foot depth)
    ⟨fun h => ⟨h.1, h.2.1, h.2.2⟩, fun h => ⟨h.nodup, h.blocks, h.keys⟩⟩

instance (dump : Dump) : Decidable (dump.WellFormed depth) :=
  inferInstanceAs (Decidable (dump.Canonical IsPlain IsPlain IsPlain depth))

end Dump

end RailsSchema
