import RewardLedger.Text.CharRange

/-!
# Blank characters

Two sets of blanks are in use. Texts are trimmed of every character whose direction class or
category makes it a separator (`isBlank`), which includes the four information separators from
`0x1C` on. Patterns that forbid white space mean the property of that name (`isWhite`), which does
not include them.
-/

namespace RewardLedger.Text

/-- The ranges of the blanks that trimming removes. -/
def blankRanges : List (Nat × Nat) := [
  (0x9, 0xD), (0x1C, 0x20), (0x85, 0x85), (0xA0, 0xA0), (0x1680, 0x1680), (0x2000, 0x200A),
  (0x2028, 0x2029), (0x202F, 0x202F), (0x205F, 0x205F), (0x3000, 0x3000)]

/-- Trimming removes this character. -/
def isBlank (c : Char) : Bool := inRanges blankRanges c.toNat

/-- The character has the white space property. -/
def isWhite (c : Char) : Bool := isBlank c && !(0x1C ≤ c.toNat && c.toNat ≤ 0x1F)

/-- The text without its blanks at both ends. -/
def trim (cs : List Char) : List Char :=
  ((cs.dropWhile isBlank).reverse.dropWhile isBlank).reverse

/-- A trimmed text does not start with a blank. -/
theorem head?_dropWhile_isBlank (cs : List Char) :
    ∀ c ∈ (cs.dropWhile isBlank).head?, isBlank c = false := by
  induction cs with
  | nil => simp
  | cons c r ih =>
    by_cases h : isBlank c <;> simp_all [List.dropWhile]

end RewardLedger.Text
