import RewardLedger.Failure.Basic
import RewardLedger.Value.Equality

/-!
# The order of values

Numbers of all kinds are ordered by value, texts by their characters, instants by time and
identifiers by number. Lists are ordered by their first items that differ, and so are sequences; if
one of them ends before that, it comes first. Values of different kinds, and values of the other
kinds, have no order.
-/

namespace RewardLedger

/-- An order relation between two values. -/
inductive OrderRelation where
  /-- The first is less than the second. -/
  | less
  /-- The first is less than the second or equal to it. -/
  | atMost
  /-- The first is greater than the second. -/
  | greater
  /-- The first is greater than the second or equal to it. -/
  | atLeast
  deriving DecidableEq, Repr, Inhabited

/-- The relation holds between two things of which the first stands in this order to the second. -/
def OrderRelation.admits : OrderRelation → Ordering → Bool
  | less, o => o == .lt
  | atMost, o => o != .gt
  | greater, o => o == .gt
  | atLeast, o => o != .lt

namespace Value

/-- The two values are equal, if they can be compared. -/
def equalTo (a b : Value) : Except Failure Bool :=
  match a.equals b with
  | some answer => .ok answer
  | none => .error (.arithmetic .invalidOperation)

/-- The relation holds between two values of which at most one is a list or a sequence, if they have
an order. A not-a-number stands in no relation to a number. -/
def scalarsRelated (r : OrderRelation) (a b : Value) : Except Failure Bool :=
  match a.number?, b.number? with
  | some x, some y =>
    if x.orderInvalid y then .error (.arithmetic .invalidOperation)
    else .ok ((x.compare? y).any r.admits)
  | _, _ =>
    match a, b with
    | str s, str t => .ok (r.admits (compare s t))
    | instant s, instant t =>
      if s.comparable t then .ok (r.admits (compare s.micros t.micros)) else .error .wrongKind
    | uuid u, uuid v => .ok (r.admits (compare u.value v.value))
    | _, _ => .error .wrongKind

mutual

/-- The relation holds between two values, if they have an order. -/
def related (r : OrderRelation) : Value → Value → Except Failure Bool
  | list xs, list ys => itemsRelated r xs ys
  | tuple xs, tuple ys => itemsRelated r xs ys
  | a, b => scalarsRelated r a b

/-- The relation holds between the first items that differ, or else between the lengths. -/
def itemsRelated (r : OrderRelation) : List Value → List Value → Except Failure Bool
  | [], [] => .ok (r.admits .eq)
  | [], _ :: _ => .ok (r.admits .lt)
  | _ :: _, [] => .ok (r.admits .gt)
  | x :: xs, y :: ys => do if ← x.equalTo y then itemsRelated r xs ys else x.related r y

end

/-- The first value is less than the second, if they have an order. -/
def lessThan (a b : Value) : Except Failure Bool := a.related .less b

/-- The first value is greater than the second, if they have an order. -/
def greaterThan (a b : Value) : Except Failure Bool := a.related .greater b

/-- Texts are ordered by their characters. -/
theorem lessThan_str (s t : String) :
    (str s).lessThan (str t) = .ok (compare s t == .lt) := by
  simp [lessThan, related, scalarsRelated, number?, OrderRelation.admits]

end Value

/-- A key of two parts, the second of which decides between equal first parts. -/
structure SortKey where
  /-- The first part. -/
  major : Value
  /-- The second part. -/
  minor : Value
  deriving Repr, Inhabited

/-- The first key is less than the second. -/
def SortKey.lessThan (a b : SortKey) : Except Failure Bool := do
  if ← a.major.equalTo b.major then
    if ← a.minor.equalTo b.minor then pure false else a.minor.lessThan b.minor
  else a.major.lessThan b.major

end RewardLedger
