import RewardLedger.Rule.Condition
import RewardLedger.Rule.Path
import RewardLedger.Value.Order

/-!
# Evaluating conditions

A condition holds for an event or does not. Fields that are not there and values of unsuitable kinds
make a comparison false. Values are equal only if they are of the same kind, except that numbers of
all kinds, which truth values are not, are compared by value. An operand that decides a group is the
last one looked at.
-/

namespace RewardLedger

namespace Value

/-- The number that the value is; a truth value is none. -/
def plainNumber? : Value → Option Number
  | bool _ => none
  | v => v.number?

/-- The values are of the same kind and equal, all numbers being of one kind. -/
def strictEquals (a b : Value) : Except Failure Bool :=
  match a.plainNumber?, b.plainNumber? with
  | some _, some _ => a.equalTo b
  | none, none => if a.kindName = b.kindName then a.equalTo b else .ok false
  | _, _ => .ok false

/-- The values are numbers in an order that passes the test. -/
def comparesAs (test : Ordering → Bool) (a b : Value) : Except Failure Bool :=
  match a.plainNumber?, b.plainNumber? with
  | some x, some y =>
    if x.orderInvalid y then .error (.arithmetic .invalidOperation)
    else .ok ((x.compare? y).any test)
  | _, _ => .ok false

/-- The value equals one of the items. -/
def equalsOneOf (a : Value) : List Value → Except Failure Bool
  | [] => .ok false
  | item :: rest => do if ← a.strictEquals item then pure true else equalsOneOf a rest

/-- The text has the other text in it. -/
def hasPart (text part : List Char) : Bool :=
  part.isPrefixOf text ||
    match text with
    | [] => false
    | _ :: rest => hasPart rest part

end Value

/-- The operator holds between the field, if it is there, and the value. -/
def Operator.holds (op : Operator) (field : Option Value) (value : Value) : Except Failure Bool :=
  match op, field with
  | .present, field => .ok (field.any fun v => !v.isNull)
  | .absent, field => .ok (!field.any fun v => !v.isNull)
  | .equal, none => .ok false
  | .equal, some v => v.strictEquals value
  | .notEqual, none => .ok true
  | .notEqual, some v => return !(← v.strictEquals value)
  | .among, field =>
    match value, field with
    | .list items, some v => v.equalsOneOf items
    | _, _ => .ok false
  | .notAmong, field =>
    match value, field with
    | .list _, none => .ok true
    | .list items, some v => return !(← v.equalsOneOf items)
    | _, _ => .ok false
  | .greater, some v => v.comparesAs (· == .gt) value
  | .less, some v => v.comparesAs (· == .lt) value
  | .atLeast, some v => v.comparesAs (· != .lt) value
  | .atMost, some v => v.comparesAs (· != .gt) value
  | .contains, some (.str s) =>
    match value with
    | .str part => .ok (Value.hasPart s.toList part.toList)
    | _ => .ok false
  | _, _ => .ok false

namespace Condition

/-- A leaf holds for an event. -/
def leafHolds (path : String) (op : LeafOperator) (value event : Value) : Except Failure Bool :=
  match op with
  | .unknown _ => .ok false
  | .known op =>
    if path = "" then .ok false
    else do op.holds (← Path.resolve event path) value

mutual

/-- The condition holds for an event. -/
def evaluate (event : Value) : Condition → Except Failure Bool
  | leaf path op value => leafHolds path op value event
  | group .all operands => allHold event operands
  | group .any operands => anyHolds event operands

/-- All of several conditions hold, as far as it takes to know. -/
def allHold (event : Value) : List Condition → Except Failure Bool
  | [] => .ok true
  | c :: rest => do if ← c.evaluate event then allHold event rest else pure false

/-- One of several conditions holds, as far as it takes to know. -/
def anyHolds (event : Value) : List Condition → Except Failure Bool
  | [] => .ok false
  | c :: rest => do if ← c.evaluate event then pure true else anyHolds event rest

end

/-- A condition with an empty path holds for no event. -/
@[simp] theorem evaluate_never (event : Value) (op : String) :
    (never op).evaluate event = .ok false := rfl

end Condition

end RewardLedger
