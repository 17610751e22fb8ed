/-!
# Surrogate pairs

In units of 16 bits a character beyond the first `0x10000` is a pair, its high and its low half. A
half without the other is no character, but escapes and units can spell one. Inside a text such a lone
half is represented by a private character of the last plane, by which it can be told; a text that
holds one has no form in UTF-8.
-/

namespace RewardLedger.Text

/-- The unit is the first half of a pair. -/
def isHighHalf (unit : Nat) : Bool := 0xD800 ≤ unit && unit < 0xDC00

/-- The unit is the second half of a pair. -/
def isLowHalf (unit : Nat) : Bool := 0xDC00 ≤ unit && unit < 0xE000

/-- The unit is half of a pair. -/
def isHalf (unit : Nat) : Bool := isHighHalf unit || isLowHalf unit

/-- The character of a pair. -/
def paired (high low : Nat) : Char := Char.ofNat (0x10000 + (high - 0xD800) * 0x400 + (low - 0xDC00))

/-- The character of a unit, or the one that stands for it if it is a lone half. -/
def ofUnit (unit : Nat) : Char := Char.ofNat (if isHalf unit then 0x100000 + unit else unit)

/-- The lone half that a character stands for. -/
def halfOf? (c : Char) : Option Nat :=
  if 0x100000 ≤ c.toNat ∧ isHalf (c.toNat - 0x100000) then some (c.toNat - 0x100000) else none

/-- The characters of units, with the halves of pairs joined. -/
def ofUnits : List Nat → List Char
  | [] => []
  | [unit] => [ofUnit unit]
  | high :: low :: rest =>
    if isHighHalf high && isLowHalf low then paired high low :: ofUnits rest
    else ofUnit high :: ofUnits (low :: rest)

/-- The text holds a lone half. -/
def holdsHalf (s : String) : Bool := s.toList.any fun c => (halfOf? c).isSome

/-- A lone half can be told from the character that stands for it. -/
theorem halfOf?_ofUnit {unit : Nat} (h : isHalf unit = true) : halfOf? (ofUnit unit) = some unit := by
  have bound : 0xD800 ≤ unit ∧ unit < 0xE000 := by
    simp only [isHalf, isHighHalf, isLowHalf, Bool.or_eq_true, Bool.and_eq_true,
      decide_eq_true_eq] at h
    omega
  have valid : (0x100000 + unit).isValidChar := Or.inr ⟨by omega, by omega⟩
  have value : (ofUnit unit).toNat = 0x100000 + unit := by
    rw [ofUnit, if_pos h, Char.ofNat, dif_pos valid]
    rfl
  simp [halfOf?, value, h]

/-- Units that are no halves of pairs stand for themselves. -/
theorem ofUnits_cons {unit : Nat} (h : isHighHalf unit = false) (rest : List Nat) :
    ofUnits (unit :: rest) = ofUnit unit :: ofUnits rest := by
  cases rest <;> simp [ofUnits, h]

end RewardLedger.Text
