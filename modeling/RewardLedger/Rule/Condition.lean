import RewardLedger.Value.Basic

/-!
# Conditions

A condition is a tree. Its leaves compare one field of an event, named by a dotted path, with a
value; its inner nodes ask for all or for one of their operands. A leaf may carry the name of an
operator that does not exist, which rules kept from other times may; such a leaf never holds.
-/

namespace RewardLedger

/-- What a leaf asks of a field. -/
inductive Operator where
  /-- Equal to the value. -/
  | equal
  /-- Not equal to the value. -/
  | notEqual
  /-- A number greater than the value. -/
  | greater
  /-- A number less than the value. -/
  | less
  /-- A number greater than the value or equal to it. -/
  | atLeast
  /-- A number less than the value or equal to it. -/
  | atMost
  /-- Equal to an item of the value. -/
  | among
  /-- Equal to no item of the value. -/
  | notAmong
  /-- There and not null. -/
  | present
  /-- Not there, or null. -/
  | absent
  /-- A text that has the value in it. -/
  | contains
  deriving DecidableEq, Repr, Inhabited

namespace Operator

/-- The operators. -/
def all : List Operator :=
  [equal, notEqual, greater, less, atLeast, atMost, among, notAmong, present, absent, contains]

/-- The symbol of an operator. -/
def symbol : Operator → String
  | equal => "="
  | notEqual => "!="
  | greater => ">"
  | less => "<"
  | atLeast => ">="
  | atMost => "<="
  | among => "in"
  | notAmong => "not_in"
  | present => "exists"
  | absent => "not_exists"
  | contains => "contains"

/-- The operator of a symbol. -/
def ofSymbol? (symbol : String) : Option Operator := all.find? (·.symbol = symbol)

/-- The operator with the symbol that the value is. -/
def ofValue? : Value → Option Operator
  | .str s => ofSymbol? s
  | _ => none

/-- An operator is found by its symbol. -/
theorem ofSymbol?_symbol (op : Operator) : ofSymbol? op.symbol = some op := by
  cases op <;> decide

/-- A symbol belongs to the operator that is found for it. -/
theorem symbol_of_ofSymbol? {symbol : String} {op : Operator} (h : ofSymbol? symbol = some op) :
    op.symbol = symbol := by
  simpa using List.find?_some h

end Operator

/-- How the operands of a group are joined. -/
inductive Connective where
  /-- All operands must hold. -/
  | all
  /-- One operand must hold. -/
  | any
  deriving DecidableEq, Repr, Inhabited

namespace Connective

/-- The symbol of a connective. -/
def symbol : Connective → String
  | all => "AND"
  | any => "OR"

/-- The connective of a symbol. -/
def ofSymbol? (symbol : String) : Option Connective :=
  if symbol = "AND" then some all else if symbol = "OR" then some any else none

/-- The connective with the symbol that the value is. -/
def ofValue? : Value → Option Connective
  | .str s => ofSymbol? s
  | _ => none

/-- A connective is found by its symbol. -/
theorem ofSymbol?_symbol (c : Connective) : ofSymbol? c.symbol = some c := by cases c <;> decide

end Connective

/-- The operator of a leaf. -/
inductive LeafOperator where
  /-- One of the operators. -/
  | known (op : Operator)
  /-- A name that belongs to no operator. -/
  | unknown (name : String)
  deriving DecidableEq, Repr, Inhabited

/-- The symbol or name of the operator of a leaf. -/
def LeafOperator.symbol : LeafOperator → String
  | known op => op.symbol
  | unknown name => name

/-- A condition on events. -/
inductive Condition where
  /-- A comparison of the field that the path names. -/
  | leaf (path : String) (op : LeafOperator) (value : Value)
  /-- Several conditions joined. -/
  | group (connective : Connective) (operands : List Condition)
  deriving Repr, Inhabited

namespace Condition

/-- The condition that holds for no event: its path is empty. -/
def never (op : String) : Condition := leaf "" (.unknown op) .null

mutual

/-- The written form of a condition. -/
def toValue : Condition → Value
  | leaf path op value => .object [("field", .str path), ("op", .str op.symbol), ("value", value)]
  | group connective operands =>
    .object [("operator", .str connective.symbol), ("operands", .list (toValues operands))]

/-- The written forms of several conditions. -/
def toValues : List Condition → List Value
  | [] => []
  | c :: rest => c.toValue :: toValues rest

end

/-- The written forms stand in the order of the conditions. -/
theorem toValues_eq_map (cs : List Condition) : toValues cs = cs.map toValue := by
  induction cs with
  | nil => simp [toValues]
  | cons c rest ih => simp [toValues, ih]

end Condition

end RewardLedger
