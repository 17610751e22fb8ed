import RewardLedger.Failure.Basic

/-!
# Fields of events

A path names a field of an event: its parts, between dots, are the names of fields and the places of
items of lists. A part that does not lead on makes the path lead nowhere. A part that consists of
digits is read as a number when it is used as a place; digits that form no number, and too many of
them, are failures.
-/

namespace RewardLedger

namespace Path

/-- The parts of a path. -/
def parts (path : String) : List String :=
  (path.toList.splitOn '.').map String.ofList

/-- The part denotes a place in a list rather than a name. -/
def isPlace (part : String) : Bool := part != "" && part.toList.all Text.isDigit

/-- The place that a part of digits denotes. -/
def place (part : String) : Except Failure Nat :=
  let decimals := part.toList.takeWhile fun c => (Text.decimalValue? c).isSome
  if 4300 < decimals.length then .error (.textTooLong decimals.length)
  else
    match part.toList.mapM Text.decimalValue? with
    | some ds => .ok (ofDigits ds)
    | none => .error (.notWhole part)

/-- Where one part leads. -/
def step (part : String) : Value → Except Failure (Option Value)
  | .object fields => .ok (Fields.find? fields part)
  | .list items =>
    if isPlace part then
      match place part with
      | .ok n => .ok items[n]?
      | .error e => .error e
    else .ok none
  | _ => .ok none

/-- Where several parts lead, one after the other. -/
def follow : List String → Value → Except Failure (Option Value)
  | [], v => .ok (some v)
  | part :: rest, v => do
    match ← step part v with
    | some w => follow rest w
    | none => pure none

/-- The value that a path leads to in an event, if it leads to one. -/
def resolve (event : Value) (path : String) : Except Failure (Option Value) :=
  follow (parts path) event

/-- Following no parts stays at the value. -/
@[simp] theorem follow_nil (v : Value) : follow [] v = .ok (some v) := rfl

end Path

end RewardLedger
