/-!
# Hexadecimal digits
-/

namespace RewardLedger.Text

/-- The lower case hexadecimal digit of a value below sixteen. -/
def hexChar (d : Nat) : Char := Char.ofNat (if d < 10 then 0x30 + d else 0x57 + d)

/-- The value of a hexadecimal digit of either case. -/
def hexValue? (c : Char) : Option Nat :=
  if '0' ≤ c ∧ c ≤ '9' then some (c.toNat - 0x30)
  else if 'a' ≤ c ∧ c ≤ 'f' then some (c.toNat - 0x57)
  else if 'A' ≤ c ∧ c ≤ 'F' then some (c.toNat - 0x37)
  else none

/-- The last `width` hexadecimal digits of `n`. -/
def hexText : (width n : Nat) → List Char
  | 0, _ => []
  | width + 1, n => hexText width (n / 16) ++ [hexChar (n % 16)]

/-- The number that hexadecimal digits denote. -/
def ofHex (ds : List Nat) : Nat := ds.foldl (fun a d => 16 * a + d) 0

/-- A hexadecimal digit reads back as its value. -/
theorem hexValue?_hexChar {d : Nat} (h : d < 16) : hexValue? (hexChar d) = some d := by
  have all : ∀ e ∈ List.range 16, hexValue? (hexChar e) = some e := by decide
  exact all d (List.mem_range.2 h)

/-- The text has as many digits as asked for. -/
theorem length_hexText (width n : Nat) : (hexText width n).length = width := by
  induction width generalizing n with
  | zero => rfl
  | succ w ih => simp [hexText, ih]

end RewardLedger.Text
