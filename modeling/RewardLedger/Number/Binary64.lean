import RewardLedger.Number.Decimal

/-!
# Binary floating point numbers

The numbers of the 64-bit binary format, as exact values: a sign, a mantissa below `2 ^ 53` and a
power of two, or an infinity, or a not-a-number. The nearest such number to a quotient of natural
numbers (`ofQuotient`) is found by exact integer arithmetic; a quotient halfway between two
neighbours goes to the even mantissa.
-/

namespace RewardLedger

/-- A 64-bit binary floating point number. -/
inductive Binary64 where
  /-- The number `± mantissa · 2 ^ exponent`. -/
  | finite (negative : Bool) (mantissa : Nat) (exponent : Int)
  /-- An infinity. -/
  | infinite (negative : Bool)
  /-- Not a number. -/
  | nan
  deriving DecidableEq, Repr, Inhabited

namespace Binary64

/-- The number is neither infinite nor a not-a-number. -/
def isFinite : Binary64 → Bool
  | finite .. => true
  | _ => false

/-- The number is a zero of either sign. -/
def isZero : Binary64 → Bool
  | finite _ m _ => m == 0
  | _ => false

/-- The smallest exponent of a number. -/
def leastExponent : Int := -1074

/-- The largest exponent of a number. -/
def greatestExponent : Int := 971

/-- The mantissa and exponent stand for a number of the format in its only form: the mantissa has
all 53 bits unless the exponent is the smallest one. -/
def IsCanonical (mantissa : Nat) (exponent : Int) : Prop :=
  mantissa < 0x20000000000000 ∧ leastExponent ≤ exponent ∧ exponent ≤ greatestExponent ∧
    (0x10000000000000 ≤ mantissa ∨ exponent = leastExponent)

/-- The quotient `n / d · 2 ^ (-e)`, rounded to a whole number, halves to the even neighbour. -/
def roundedAt (n d : Nat) (e : Int) : Nat :=
  let n' := n * twoTo (-e).toNat
  let d' := d * twoTo e.toNat
  let q := n' / d'
  let r := n' % d'
  if d' < 2 * r ∨ (2 * r = d' ∧ q % 2 = 1) then q + 1 else q

/-- The binary exponent `k` with `2 ^ k ≤ n / d < 2 ^ (k + 1)`, for positive `n` and `d`. -/
def binaryExponent (n d : Nat) : Int :=
  let guess := (Nat.log2 n : Int) - Nat.log2 d
  if n * twoTo (-guess).toNat < d * twoTo guess.toNat then guess - 1 else guess

/-- The number of the format that is nearest to the quotient `n / d` of a natural and a positive
number. -/
def ofQuotient (negative : Bool) (n d : Nat) : Binary64 :=
  if n = 0 then finite negative 0 leastExponent
  else
    let e := max leastExponent (binaryExponent n d - 52)
    let m := roundedAt n d e
    let (m, e) := if m = 0x20000000000000 then (0x10000000000000, e + 1) else (m, e)
    if greatestExponent < e then infinite negative else finite negative m e

/-- The number nearest to `coefficient · 10 ^ exponent`. Numbers far outside the format's range are
settled by their first digit's exponent alone. -/
def ofScientific (negative : Bool) (coefficient digits : Nat) (exponent : Int) : Binary64 :=
  if coefficient = 0 then finite negative 0 leastExponent
  else if 400 < exponent + digits then infinite negative
  else if exponent + digits < -400 then finite negative 0 leastExponent
  else ofQuotient negative (coefficient * tenTo exponent.toNat) (tenTo (-exponent).toNat)

/-- The number nearest to a decimal number. -/
def ofDecimal : Decimal → Binary64
  | .finite negative c e => ofScientific negative c (digitCount c) e
  | .infinite negative => infinite negative
  | .nan .. => nan

/-- The whole number that the number is, if it is one. -/
def toInt? : Binary64 → Option Int
  | finite negative m e =>
    let n := m * twoTo e.toNat
    let d := twoTo (-e).toNat
    if n % d = 0 then some (if negative then -((n / d : Nat) : Int) else ((n / d : Nat) : Int))
    else none
  | _ => none

/-- The number nearest to the sum with one. -/
def plusOne : Binary64 → Binary64
  | finite negative m e =>
    let d := twoTo (-e).toNat
    let n : Int := (m * twoTo e.toNat : Nat)
    let sum := (if negative then -n else n) + d
    ofQuotient (sum < 0) sum.natAbs d
  | x => x

/-- The number with its sign turned round. -/
def negate : Binary64 → Binary64
  | finite negative m e => finite (!negative) m e
  | infinite negative => infinite (!negative)
  | nan => nan

/-- A zero is nearest to zero. -/
theorem ofQuotient_zero (negative : Bool) (d : Nat) :
    ofQuotient negative 0 d = finite negative 0 leastExponent := rfl

end Binary64

end RewardLedger
