/-!
# Sets of characters given by ranges of code points

The character classes of this library are tables of closed ranges, as the Unicode character
database lists them. `Ranges.has` is membership in such a table.
-/

namespace RailsSchema.Text

/-- Closed ranges of code points, each written as its first and its last member. -/
abbrev Ranges := List (Nat × Nat)

/-- Whether the code point of a character lies in one of the ranges. -/
def Ranges.has (ranges : Ranges) (c : Char) : Bool :=
  ranges.any fun range => range.1 ≤ c.toNat && c.toNat ≤ range.2

theorem Ranges.has_iff {ranges : Ranges} {c : Char} :
    ranges.has c = true ↔ ∃ range ∈ ranges, range.1 ≤ c.toNat ∧ c.toNat ≤ range.2 := by
  simp [Ranges.has]

end RailsSchema.Text
