/-!
# Ranges of code points

A character class is given as a list of closed intervals of code points.
-/

namespace LineScript.Text

/-- A set of code points, as closed intervals. -/
abbrev Ranges := List (Nat × Nat)

/-- Whether the code point of `c` lies in one of the intervals. -/
def Ranges.has (ranges : Ranges) (c : Char) : Bool :=
  ranges.any fun (low, high) => low ≤ c.toNat && c.toNat ≤ high

/-- Membership in a class of intervals is membership in one of them. -/
theorem Ranges.has_iff (ranges : Ranges) (c : Char) :
    ranges.has c = true ↔ ∃ range ∈ ranges, range.1 ≤ c.toNat ∧ c.toNat ≤ range.2 := by
  simp [Ranges.has]

end LineScript.Text
