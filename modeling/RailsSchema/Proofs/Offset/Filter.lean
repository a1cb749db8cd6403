import RailsSchema.Proofs.Literal.Filter
import RailsSchema.Proofs.Offset.Value

/-!
# Filtering while reading

The one-pass program drops the items that its filter leaves out as soon as they have been read, at
every level of nesting. Under the legacy filter it still comes to what it would have found without
one, pruned: the filter moves no offset, cuts nothing short, and does not change which entries of a
map replace which (`legacyTruthy_prune`).
-/

namespace RailsSchema.Offset

/-- Under the legacy filter a value, an option map and a list are what they are when all items are
kept, pruned; this holds of values that are read in one pass, too, and of the members of lists and
maps at every depth. -/
theorem legacyTruthy_prune :
    (∀ maxDepth text start,
      parseValue ⟨.legacyTruthy, maxDepth⟩ text start =
        (parseValue ⟨.present, maxDepth⟩ text start).map
          (Option.map fun found => (found.1.prune, found.2))) ∧
    (∀ maxDepth text,
      parseOptions ⟨.legacyTruthy, maxDepth⟩ text =
        (parseOptions ⟨.present, maxDepth⟩ text).map fun entry => (entry.1, entry.2.prune)) ∧
    (∀ maxDepth text,
      parseArray ⟨.legacyTruthy, maxDepth⟩ text =
        ((parseArray ⟨.present, maxDepth⟩ text).filter Value.isLegacyTruthy).map Value.prune) ∧
    ∀ (maxDepth depth : UInt64) text,
      (∀ pos, value .legacyTruthy maxDepth depth text pos =
        (value .present maxDepth depth text pos).map
          (Option.map fun found => (found.1.prune, found.2))) ∧
      gatherItems .legacyTruthy (value .legacyTruthy maxDepth depth text) text =
        (gatherItems .present (value .present maxDepth depth text) text).map
          (fun items => (items.filter Value.isLegacyTruthy).map Value.prune) ∧
      gatherEntries (value .legacyTruthy maxDepth depth text) text =
        (gatherEntries (value .present maxDepth depth text) text).map
          (fun entries => entries.map fun entry => (entry.1, entry.2.prune)) := by
  refine ⟨parseValue_legacyTruthy, parseOptions_legacyTruthy, parseArray_legacyTruthy, ?_⟩
  intro maxDepth depth text
  refine ⟨?_, ?_, ?_⟩
  · intro pos
    rw [value_eq, value_eq]
    exact parseValue_legacyTruthy _ text pos
  · rw [gatherItems_eq (value_offsetOf .legacyTruthy maxDepth depth text),
      gatherItems_eq (value_offsetOf .present maxDepth depth text)]
    exact congrArg Except.ok
      (Literal.itemValues_legacyTruthy fun item _ => item.value_legacyTruthy)
  · rw [gatherEntries_eq (value_offsetOf .legacyTruthy maxDepth depth text),
      gatherEntries_eq (value_offsetOf .present maxDepth depth text)]
    exact congrArg Except.ok
      (Literal.ofEntries_legacyTruthy fun entry _ => entry.2.value_legacyTruthy)

end RailsSchema.Offset
