import RewardLedger.Failure.Basic

/-!
# Arithmetic with values

Numbers can be counted on and have opposites; values that are no numbers cannot. The results are of
the kind of the number: exact for whole numbers, rounded for floating point numbers, and fitted to
the standard context for decimal numbers.
-/

namespace RewardLedger.Value

/-- The result of a decimal operation in the standard context. -/
def ofDecimalResult (result : Except ArithmeticFault Decimal) : Except Failure Value :=
  match result with
  | .ok d => .ok (decimal d)
  | .error cause => .error (.arithmetic cause)

/-- The number that is greater by one. -/
def successor : Value → Except Failure Value
  | bool b => .ok (int (if b then 2 else 1))
  | int i => .ok (int (i + 1))
  | float x => .ok (float x.plusOne)
  | decimal d => ofDecimalResult (DecimalContext.standard.add d (.ofInt 1))
  | _ => .error .wrongKind

/-- The number with the opposite sign. -/
def negated : Value → Except Failure Value
  | bool b => .ok (int (if b then -1 else 0))
  | int i => .ok (int (-i))
  | float x => .ok (float x.negate)
  | decimal d => ofDecimalResult (DecimalContext.standard.minus d)
  | _ => .error .wrongKind

/-- The successor of a whole number is a whole number. -/
@[simp] theorem successor_int (i : Int) : (int i).successor = .ok (int (i + 1)) := rfl

end RewardLedger.Value
