import RewardLedger.Number.Binary64
import RewardLedger.Number.Decimal

/-!
# Comparing numbers of different kinds

Whole numbers, binary floating point numbers and decimal numbers are compared by their exact values,
never by converting one kind into another. A finite number of any kind is an integer times a power
of two times a power of ten (`Scaled`). A not-a-number is unordered and differs from every number.
Decimal arithmetic treats two comparisons as invalid operations: any comparison with a signaling
not-a-number, and an order comparison between a decimal and another not-a-number.
-/

namespace RewardLedger

/-- The number `coefficient · 2 ^ twos · 10 ^ tens`. -/
structure Scaled where
  /-- The signed coefficient. -/
  coefficient : Int
  /-- The exponent of two. -/
  twos : Int
  /-- The exponent of ten. -/
  tens : Int
  deriving DecidableEq, Repr, Inhabited

namespace Scaled

/-- The coefficient after bringing the exponents down to `twos` and `tens`. -/
def atExponents (x : Scaled) (twos tens : Int) : Int :=
  x.coefficient * ((twoTo (x.twos - twos).toNat * tenTo (x.tens - tens).toNat : Nat) : Int)

/-- Compare two numbers by bringing them to common exponents. -/
def compareExactly (x y : Scaled) : Ordering :=
  let twos := min x.twos y.twos
  let tens := min x.tens y.tens
  compare (x.atExponents twos tens) (y.atExponents twos tens)

/-- The exponent of the leading bit of the coefficient together with its power of two. -/
def leadingBit (x : Scaled) : Int := Nat.log2 x.coefficient.natAbs + x.twos

/-- The power of ten of `x` exceeds that of `y` by so much that `|x| > |y|` whatever the
coefficients: three bits are less than a factor of ten. -/
def dominates (x y : Scaled) : Bool :=
  y.tens < x.tens && y.leadingBit + 1 ≤ x.leadingBit + 3 * (x.tens - y.tens)

/-- Compare two numbers by their values. Signs and far apart powers of ten are decided without
computing the powers. -/
def compareValues (x y : Scaled) : Ordering :=
  match compare x.coefficient.sign y.coefficient.sign with
  | .lt => .lt
  | .gt => .gt
  | .eq =>
    if x.coefficient = 0 then .eq
    else if x.dominates y then (if x.coefficient < 0 then .lt else .gt)
    else if y.dominates x then (if x.coefficient < 0 then .gt else .lt)
    else compareExactly x y

end Scaled

/-- A number of one of the three kinds. -/
inductive Number where
  /-- A whole number. -/
  | int (value : Int)
  /-- A binary floating point number. -/
  | float (value : Binary64)
  /-- A decimal number. -/
  | decimal (value : Decimal)
  deriving DecidableEq, Repr, Inhabited

/-- The place of a number on the line from negative to positive infinity. -/
inductive Extent where
  /-- An infinity. -/
  | infinite (negative : Bool)
  /-- A finite number. -/
  | finite (value : Scaled)
  deriving DecidableEq, Repr, Inhabited

namespace Extent

/-- Compare two places. -/
def compareValues : Extent → Extent → Ordering
  | infinite true, infinite true => .eq
  | infinite false, infinite false => .eq
  | infinite true, _ => .lt
  | _, infinite true => .gt
  | infinite false, _ => .gt
  | _, infinite false => .lt
  | finite x, finite y => x.compareValues y

end Extent

namespace Number

/-- Where the number lies, unless it is a not-a-number. -/
def extent? : Number → Option Extent
  | int i => some (.finite ⟨i, 0, 0⟩)
  | float (.finite negative m e) => some (.finite ⟨if negative then -(m : Int) else m, e, 0⟩)
  | float (.infinite negative) => some (.infinite negative)
  | float .nan => none
  | decimal (.finite negative c e) => some (.finite ⟨if negative then -(c : Int) else c, 0, e⟩)
  | decimal (.infinite negative) => some (.infinite negative)
  | decimal (.nan ..) => none

/-- The order of two numbers, or nothing if one of them is a not-a-number. -/
def compare? (x y : Number) : Option Ordering := do
  let a ← x.extent?
  let b ← y.extent?
  pure (a.compareValues b)

/-- The number is a decimal. -/
def isDecimal : Number → Bool
  | decimal _ => true
  | _ => false

/-- The number is a signaling not-a-number. -/
def isSignaling : Number → Bool
  | decimal d => d.isSignaling
  | _ => false

/-- Asking whether the two numbers are equal is an invalid operation. -/
def equalityInvalid (x y : Number) : Bool := x.isSignaling || y.isSignaling

/-- Asking which of the two numbers is smaller is an invalid operation. -/
def orderInvalid (x y : Number) : Bool :=
  (x.isDecimal || y.isDecimal) && (x.extent?.isNone || y.extent?.isNone)

/-- The two numbers have the same value; a not-a-number has the value of nothing. -/
def sameValue (x y : Number) : Bool := x.compare? y == some .eq

end Number

end RewardLedger
