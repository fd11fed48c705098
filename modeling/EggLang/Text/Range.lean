/-
# `EggLang.Text.Range` — membership in a table of code point ranges

Every character class of this library that is not plain ASCII is a table
of inclusive ranges in ascending order.  One test serves them all.
-/

namespace EggLang.Text

/-- The number lies in one of the inclusive ranges. -/
def inRanges (ranges : List (Nat × Nat)) (n : Nat) : Bool :=
  ranges.any fun r => r.1 ≤ n && n ≤ r.2

theorem inRanges_iff {ranges : List (Nat × Nat)} {n : Nat} :
    inRanges ranges n = true ↔ ∃ r ∈ ranges, r.1 ≤ n ∧ n ≤ r.2 := by
  simp [inRanges]

end EggLang.Text
