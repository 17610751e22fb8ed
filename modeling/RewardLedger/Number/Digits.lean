/-!
# Decimal digits of natural numbers

The digits of a number, most significant first, and the number that a list of digits denotes. The
number of digits (`digitCount`) decides the exponent of a scientific text and whether a coefficient
fits a precision.
-/

namespace RewardLedger

/-- The digits of `n` in front of `acc`; `fuel` bounds their number. -/
def digitsOnto : (fuel n : Nat) → (acc : List Nat) → List Nat
  | 0, _, acc => acc
  | fuel + 1, n, acc => if n < 10 then n :: acc else digitsOnto fuel (n / 10) (n % 10 :: acc)

/-- The decimal digits of a number, most significant first; zero has the one digit 0. -/
def digitsOf (n : Nat) : List Nat := digitsOnto (n + 1) n []

/-- The number that a list of decimal digits denotes, most significant first. -/
def ofDigits (ds : List Nat) : Nat := ds.foldl (fun a d => 10 * a + d) 0

/-- The number of decimal digits of `n`; zero has one. -/
def digitCount (n : Nat) : Nat := (digitsOf n).length

/-- The power of ten with the exponent `k`. -/
def tenTo (k : Nat) : Nat := Nat.pow 10 k

/-- The power of two with the exponent `k`. -/
def twoTo (k : Nat) : Nat := Nat.pow 2 k

/-- The character of a digit value below ten. -/
def digitChar (d : Nat) : Char := Char.ofNat (0x30 + d)

/-- The decimal text of a natural number. -/
def natText (n : Nat) : List Char := (digitsOf n).map digitChar

/-- The decimal text of an integer, with a sign only if it is negative. -/
def intText (i : Int) : List Char := if i < 0 then '-' :: natText i.natAbs else natText i.natAbs

/-- The decimal text of `n`, padded with zeros on the left to at least `width` digits. -/
def paddedText (width n : Nat) : List Char :=
  List.replicate (width - digitCount n) '0' ++ natText n

/-- One more in the exponent multiplies by ten. -/
theorem tenTo_succ (k : Nat) : tenTo (k + 1) = tenTo k * 10 := rfl

/-- One more in the exponent multiplies by two. -/
theorem twoTo_succ (k : Nat) : twoTo (k + 1) = twoTo k * 2 := rfl

/-- A power of ten is positive. -/
theorem tenTo_pos (k : Nat) : 0 < tenTo k := by
  induction k with
  | zero => decide
  | succ k ih => rw [tenTo_succ]; omega

/-- A power of two is positive. -/
theorem twoTo_pos (k : Nat) : 0 < twoTo k := by
  induction k with
  | zero => decide
  | succ k ih => rw [twoTo_succ]; omega

/-- A number below ten is its only digit. -/
theorem digitsOf_of_lt {n : Nat} (h : n < 10) : digitsOf n = [n] := by
  simp [digitsOf, digitsOnto, h]

/-- One more digit at the end multiplies by ten and adds it. -/
theorem ofDigits_append_singleton (ds : List Nat) (d : Nat) :
    ofDigits (ds ++ [d]) = 10 * ofDigits ds + d := by
  simp [ofDigits]

end RewardLedger
