/-!
# Sets of characters given by ranges

A character property that no small rule describes is a table of ranges of code points. The table
modules of this folder are lists of such ranges, and this module says what belonging to one means.
-/

namespace RewardLedger.Text

/-- The code point `n` lies in one of the closed ranges of `table`. -/
def inRanges (table : List (Nat × Nat)) (n : Nat) : Bool :=
  table.any fun r => r.1 ≤ n && n ≤ r.2

/-- Lying in a table is lying between the ends of one of its ranges. -/
theorem inRanges_iff {table : List (Nat × Nat)} {n : Nat} :
    inRanges table n = true ↔ ∃ r ∈ table, r.1 ≤ n ∧ n ≤ r.2 := by
  simp [inRanges]

end RewardLedger.Text
