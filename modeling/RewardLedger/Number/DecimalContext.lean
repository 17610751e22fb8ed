import RewardLedger.Number.Decimal
import RewardLedger.Number.Rounding

/-!
# Decimal arithmetic in a context

A context bounds the number of digits of a result and its exponent, and says how to round. A sum is
computed exactly and then fitted to the context; `quantize` gives a number a prescribed exponent
and refuses to if that needs more digits than the context allows.
-/

namespace RewardLedger

/-- Why a decimal operation has no result. -/
inductive ArithmeticFault where
  /-- The operation is not defined on these numbers, or its result does not fit the precision. -/
  | invalidOperation
  /-- The result is larger than the greatest exponent allows. -/
  | overflow
  deriving DecidableEq, Repr, Inhabited

/-- The bounds on the result of an operation and the direction of rounding. -/
structure DecimalContext where
  /-- The greatest number of digits of a result. -/
  precision : Nat
  /-- The direction of rounding. -/
  rounding : Rounding
  /-- The greatest exponent of a result's first digit. -/
  greatest : Int := 999999
  /-- The smallest exponent of the first digit of a number with full precision. -/
  least : Int := -999999
  deriving DecidableEq, Repr, Inhabited

namespace DecimalContext

/-- The largest precision that a context can have. -/
def maxPrecision : Int := 999999999999999999

/-- The context of operations that name none: 28 digits, halves to the even neighbour. -/
def standard : DecimalContext := { precision := 28, rounding := .halfEven }

/-- The smallest exponent of the last digit of a result. -/
def tiny (ctx : DecimalContext) : Int := ctx.least - (ctx.precision : Int) + 1

/-- The coefficient without its last `k` digits, rounded in the context's direction. -/
def dropDigits (ctx : DecimalContext) (negative : Bool) (coefficient k : Nat) : Nat :=
  ctx.rounding.dropDigits negative coefficient k

/-! ## Fitting a number to the context -/

/-- Round a number to the precision. A carry into one more digit moves the exponent. -/
def fitPrecision (ctx : DecimalContext) (negative : Bool) (coefficient : Nat) (exponent : Int) :
    Except ArithmeticFault Decimal :=
  if digitCount coefficient ≤ ctx.precision then .ok (.finite negative coefficient exponent)
  else
    let dropped := digitCount coefficient - ctx.precision
    let rounded := ctx.dropDigits negative coefficient dropped
    let (c, e) :=
      if digitCount rounded ≤ ctx.precision then (rounded, exponent + dropped)
      else (rounded / 10, exponent + dropped + 1)
    if ctx.greatest < Decimal.leadingExponent c e then .error .overflow
    else .ok (.finite negative c e)

/-- Fit a finite number to the context: a zero to the nearest exponent allowed, any other number by
rounding; a number that is too large overflows. -/
def fit (ctx : DecimalContext) (negative : Bool) (coefficient : Nat) (exponent : Int) :
    Except ArithmeticFault Decimal :=
  if coefficient = 0 then .ok (.finite negative 0 (min ctx.greatest (max ctx.tiny exponent)))
  else if ctx.greatest < Decimal.leadingExponent coefficient exponent then .error .overflow
  else if Decimal.leadingExponent coefficient exponent < ctx.least ∧ exponent < ctx.tiny then
    .ok (.finite negative
      (ctx.dropDigits negative coefficient (ctx.tiny - exponent).toNat) ctx.tiny)
  else ctx.fitPrecision negative coefficient exponent

/-- A not-a-number as the result of an operation: quiet, with at most the last digits of its
payload that the precision allows. -/
def quietNaN (ctx : DecimalContext) (negative : Bool) (payload : Nat) : Decimal :=
  .nan negative false
    (if digitCount payload ≤ ctx.precision then payload else payload % tenTo ctx.precision)

/-- The result of an operation with a not-a-number among its operands: a signaling one makes the
operation invalid, and a quiet one is its result, the left one first. -/
def nanResult? (ctx : DecimalContext) (a b : Decimal) : Option (Except ArithmeticFault Decimal) :=
  if a.isSignaling || b.isSignaling then some (.error .invalidOperation)
  else
    match a, b with
    | .nan negative _ payload, _ => some (.ok (ctx.quietNaN negative payload))
    | _, .nan negative _ payload => some (.ok (ctx.quietNaN negative payload))
    | _, _ => none

/-! ## Prescribing the exponent -/

/-- The finite number with its exponent changed to `target`, if it then fits the precision. -/
def quantizeFinite (ctx : DecimalContext) (negative : Bool) (coefficient : Nat)
    (exponent target : Int) : Except ArithmeticFault Decimal :=
  if ctx.greatest < target ∨ target < ctx.tiny then .error .invalidOperation
  else if coefficient = 0 then ctx.fit negative 0 target
  else if (ctx.precision : Int) < digitCount coefficient + (exponent - target) then
    .error .invalidOperation
  else if ctx.greatest < Decimal.leadingExponent coefficient exponent then
    .error .invalidOperation
  else
    let c :=
      if target ≤ exponent then coefficient * tenTo (exponent - target).toNat
      else ctx.dropDigits negative coefficient (target - exponent).toNat
    if ctx.precision < digitCount c ∨ ctx.greatest < Decimal.leadingExponent c target then
      .error .invalidOperation
    else .ok (.finite negative c target)

/-- The number `a` with the exponent of `b`. -/
def quantize (ctx : DecimalContext) (a b : Decimal) : Except ArithmeticFault Decimal :=
  match ctx.nanResult? a b with
  | some result => result
  | none =>
    match a, b with
    | .finite negative c e, .finite _ _ target => ctx.quantizeFinite negative c e target
    | .infinite negative, .infinite _ => .ok (.infinite negative)
    | _, _ => .error .invalidOperation

/-- The power of ten with the exponent `k`, as a number with the coefficient one. -/
def powerOfTen (ctx : DecimalContext) (k : Int) : Except ArithmeticFault Decimal :=
  if 2 * (ctx.greatest + ctx.precision) < k.natAbs then .error .invalidOperation
  else ctx.fit false 1 k

/-! ## Sums -/

/-- A signed coefficient. -/
def signed (negative : Bool) (coefficient : Nat) : Int :=
  if negative then -(coefficient : Int) else coefficient

/-- The sum of two numbers, the first of which has the larger exponent or the same, fitted to the
context. An exact zero takes the sign of its operands, and of operands with different signs the
positive one unless numbers are rounded toward negative infinity. -/
def addAligned (ctx : DecimalContext) (negA : Bool) (a : Nat) (expA : Int)
    (negB : Bool) (b : Nat) (expB : Int) : Except ArithmeticFault Decimal :=
  let total := signed negA (a * tenTo (expA - expB).toNat) + signed negB b
  let negative :=
    if total = 0 then (if negA = negB then negA else ctx.rounding == .floor) else total < 0
  ctx.fit negative total.natAbs expB

/-- The sum of two finite numbers, the first of which has the larger exponent or the same. A second
number that lies wholly below the digits that rounding looks at counts as one unit there, which
rounds the same way and keeps the powers of ten small. -/
def addOrdered (ctx : DecimalContext) (negA : Bool) (a : Nat) (expA : Int)
    (negB : Bool) (b : Nat) (expB : Int) : Except ArithmeticFault Decimal :=
  if a = 0 then
    let negative :=
      if b = 0 then (if negA = negB then negA else ctx.rounding == .floor) else negB
    ctx.fit negative b expB
  else
    let sticky : Int :=
      expA - 1 + (if ctx.precision < digitCount a then 0 else (digitCount a : Int) - ctx.precision - 1)
    if expB < expA ∧ Decimal.leadingExponent b expB < sticky then
      ctx.addAligned negA a expA negB (min b 1) sticky
    else ctx.addAligned negA a expA negB b expB

/-- The sum of two numbers. -/
def add (ctx : DecimalContext) (a b : Decimal) : Except ArithmeticFault Decimal :=
  match ctx.nanResult? a b with
  | some result => result
  | none =>
    match a, b with
    | .finite negA ca ea, .finite negB cb eb =>
      if eb ≤ ea then ctx.addOrdered negA ca ea negB cb eb
      else ctx.addOrdered negB cb eb negA ca ea
    | .infinite negA, .infinite negB =>
      if negA = negB then .ok (.infinite negA) else .error .invalidOperation
    | .infinite negA, _ => .ok (.infinite negA)
    | _, b => .ok b

/-- The difference of two numbers. -/
def subtract (ctx : DecimalContext) (a b : Decimal) : Except ArithmeticFault Decimal :=
  match ctx.nanResult? a b with
  | some result => result
  | none => ctx.add a b.negate

/-- The number with its sign turned round, fitted to the context. -/
def minus (ctx : DecimalContext) (a : Decimal) : Except ArithmeticFault Decimal :=
  match a with
  | .finite negative c e => ctx.fit (!negative) c e
  | .infinite negative => .ok (.infinite (!negative))
  | .nan negative signaling payload =>
    if signaling then .error .invalidOperation else .ok (ctx.quietNaN negative payload)

/-- A number with no more digits than the precision is not rounded. -/
theorem fitPrecision_of_le (ctx : DecimalContext) (negative : Bool) {coefficient : Nat}
    (exponent : Int) (h : digitCount coefficient ≤ ctx.precision) :
    ctx.fitPrecision negative coefficient exponent = .ok (.finite negative coefficient exponent) := by
  simp [fitPrecision, h]

end DecimalContext

end RewardLedger
