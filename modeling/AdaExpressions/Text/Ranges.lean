/-!
# Sets of characters given by ranges of code points

The Unicode properties of this library are tables of inclusive ranges in rising order. A character
has the property when some range of the table holds its code point.
-/

namespace AdaExpressions.Text

/-- An inclusive range of code points. -/
abbrev CodeRange := Nat × Nat

def CodeRange.Holds (range : CodeRange) (c : Char) : Prop :=
  range.1 ≤ c.toNat ∧ c.toNat ≤ range.2

instance (range : CodeRange) (c : Char) : Decidable (range.Holds c) :=
  inferInstanceAs (Decidable (_ ∧ _))

def inRanges (ranges : List CodeRange) (c : Char) : Bool :=
  ranges.any fun range => decide (range.Holds c)

theorem inRanges_iff {ranges : List CodeRange} {c : Char} :
    inRanges ranges c = true ↔ ∃ range ∈ ranges, range.Holds c := by
  simp [inRanges]

end AdaExpressions.Text
