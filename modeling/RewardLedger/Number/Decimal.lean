import RewardLedger.Number.Digits

/-!
# Decimal numbers

A decimal number keeps its exponent: `1.50` and `1.5` are different numbers of the same value. Zero
has a sign and an exponent too. Besides the finite numbers there are the infinities and the two
kinds of not-a-number, quiet and signaling, which may carry a payload.
-/

namespace RewardLedger

/-- A decimal number with its sign and exponent. -/
inductive Decimal where
  /-- The number `± coefficient · 10 ^ exponent`. -/
  | finite (negative : Bool) (coefficient : Nat) (exponent : Int)
  /-- An infinity. -/
  | infinite (negative : Bool)
  /-- Not a number; comparing or computing with a signaling one is an invalid operation. -/
  | nan (negative signaling : Bool) (payload : Nat)
  deriving DecidableEq, Repr, Inhabited

namespace Decimal

/-- The number is neither infinite nor a not-a-number. -/
def isFinite : Decimal → Bool
  | finite .. => true
  | _ => false

/-- The number is a not-a-number. -/
def isNaN : Decimal → Bool
  | nan .. => true
  | _ => false

/-- The number is a signaling not-a-number. -/
def isSignaling : Decimal → Bool
  | nan _ signaling _ => signaling
  | _ => false

/-- The number is a zero of either sign. -/
def isZero : Decimal → Bool
  | finite _ c _ => c == 0
  | _ => false

/-- The number is greater than zero. -/
def isPositive : Decimal → Bool
  | finite negative c _ => !negative && c != 0
  | infinite negative => !negative
  | nan .. => false

/-- The number with its sign turned round; a not-a-number keeps its sign. -/
def negate : Decimal → Decimal
  | finite negative c e => finite (!negative) c e
  | infinite negative => infinite (!negative)
  | nan n s p => nan n s p

/-- A whole number. -/
def ofInt (i : Int) : Decimal := finite (i < 0) i.natAbs 0

/-- The whole number that the number is, if it is one. A number whose first digit stands behind the
point is none, unless it is a zero. -/
def toInt? : Decimal → Option Int
  | finite negative c e =>
    if c = 0 then some 0
    else if 0 ≤ e then some ((if negative then -1 else 1) * ((c * tenTo e.toNat : Nat) : Int))
    else if (digitCount c : Int) ≤ -e then none
    else
      let d := tenTo (-e).toNat
      if c % d = 0 then some ((if negative then -1 else 1) * ((c / d : Nat) : Int)) else none
  | _ => none

/-- The exponent of the first digit of a number with this coefficient and exponent. -/
def leadingExponent (coefficient : Nat) (exponent : Int) : Int :=
  exponent + (digitCount coefficient : Int) - 1

/-- Only finite numbers are positive and finite at once: no zero is positive. -/
theorem isPositive_of_isZero {d : Decimal} (h : d.isZero = true) : d.isPositive = false := by
  cases d <;> simp_all [isZero, isPositive]

end Decimal

end RewardLedger
