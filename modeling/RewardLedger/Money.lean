import RewardLedger.Failure.Basic

/-!
# Amounts of money

All amounts are decimals with the same number of places behind the point (`Money.scale`) and at most
`precision` digits. An amount given as a number or a text is rounded to the scale once; sums and
differences are rounded to the precision and then brought back to the scale.
-/

namespace RewardLedger

/-- How amounts of money are kept. -/
structure Money where
  /-- The number of places behind the point; without one no amount can be rounded. -/
  scale : Option Int
  /-- The precision and the direction of rounding. -/
  context : DecimalContext
  deriving DecidableEq, Repr, Inhabited

namespace Money

/-- Two places, 28 digits, halves away from zero. -/
def standard : Money := ⟨some 2, { precision := 28, rounding := .halfUp }⟩

/-- The rules for amounts with this scale, precision and direction of rounding. A precision beyond
64 bits is refused as a number, any other that no context can have as a precision. -/
def make (scale : Option Int) (precision : Int) (rounding : Rounding) : Except Failure Money :=
  if 1 ≤ precision ∧ precision ≤ DecimalContext.maxPrecision then
    .ok ⟨scale, { precision := precision.toNat, rounding }⟩
  else if -0x8000000000000000 ≤ precision ∧ precision < 0x8000000000000000 then .error .precisionRange
  else .error .outOfRange

/-- The smallest positive amount. -/
def quantum (m : Money) : Except Failure Decimal :=
  match m.scale with
  | some places => (DecimalContext.standard.powerOfTen (-places)).mapError .arithmetic
  | none => .error .wrongKind

/-- The amount rounded to the scale, if it fits the precision. -/
def quantize (m : Money) (d : Decimal) : Except Failure Decimal :=
  let rounded : Except Failure Decimal := do
    (m.context.quantize d (← m.quantum)).mapError .arithmetic
  match rounded with
  | .error (.arithmetic .invalidOperation) => .error (.fault (.amountRange d))
  | answer => answer

/-- The amount zero. -/
def zero (m : Money) : Except Failure Decimal := m.quantize (.finite false 0 0)

/-- The longest whole number, in digits, that can be written as a text. -/
def longestNumber : Nat := 4300

/-- The number that an amount is given as, not yet rounded. Truth values and floating point numbers
are no amounts: the latter would bring their binary error into the ledger. -/
def readNumber (v : Value) : Except Failure Decimal :=
  match v with
  | .bool _ => .error (.fault (.amountKind v))
  | .float _ => .error (.fault (.amountKind v))
  | .decimal d => .ok d
  | .int i => if longestNumber < digitCount i.natAbs then .error .numberTooLong else .ok (.ofInt i)
  | _ =>
    match Decimal.ofChars? v.plain with
    | some d => .ok d
    | none => .error (.fault (.amountFormat v))

/-- The amount that a value denotes, rounded to the scale. -/
def parse (m : Money) (v : Value) : Except Failure Decimal := do
  let d ← readNumber v
  if d.isFinite then m.quantize d else .error (.fault (.amountFormat v))

/-- The amount that a value denotes, which must be greater than zero. -/
def positive (m : Money) (v : Value) : Except Failure Decimal := do
  let d ← m.parse v
  if d.isPositive then .ok d else .error (.fault .amountNotPositive)

/-- The result of a decimal operation as an amount. -/
def settle (m : Money) (result : Except ArithmeticFault Decimal) : Except Failure Decimal :=
  match result with
  | .ok d => m.quantize d
  | .error cause => .error (.arithmetic cause)

/-- The sum of two amounts. -/
def add (m : Money) (a b : Decimal) : Except Failure Decimal := m.settle (m.context.add a b)

/-- The difference of two amounts. -/
def subtract (m : Money) (a b : Decimal) : Except Failure Decimal :=
  m.settle (m.context.subtract a b)

/-- What `positive` accepts is greater than zero. -/
theorem isPositive_of_positive {m : Money} {v : Value} {d : Decimal} (h : m.positive v = .ok d) :
    d.isPositive = true := by
  simp only [positive, bind, Except.bind] at h
  cases hp : m.parse v with
  | error e => simp [hp] at h
  | ok a =>
    simp only [hp] at h
    split at h
    · simp_all
    · simp at h

end Money

end RewardLedger
