import RewardLedger.Failure.Basic
import RewardLedger.Rule.Condition
import RewardLedger.Text.Ordered

/-!
# Reading conditions

A condition is read from an object in one of two forms. The present form of a group has the fields
`operator` and `operands`, that of a leaf the fields `field`, `op` and `value`. The older form has a
field `type`, which names the connective of a group with `children` or else marks a leaf with
`operator` in place of `op`. `Shape` is what an object is meant to be before its parts are checked.

Rules are read strictly when they are made, and leniently when they come from the store: lenient
reading puts something of no effect in the place of what is malformed. Either way the value in the place
of a name is written down, in a message or in the condition, which fails if it cannot be written.
-/

namespace RewardLedger

/-- What an object is meant to be. -/
inductive Shape where
  /-- A group with this connective; its operands are those of the named field. -/
  | group (connective : Value) (operandsField : String)
  /-- A leaf. -/
  | leaf (path op value : Value)
  /-- Neither. -/
  | unrecognised
  deriving Repr

namespace Shape

/-- The text names a connective in letters of any case. -/
def olderConnective? (kind : Value) : Option Connective :=
  Connective.ofSymbol? (String.ofList (kind.plain.map Char.toUpper))

/-- The object is in the older form. -/
def isOlder (fields : Fields) : Bool :=
  fields.has "type" && !fields.has "operands" && !fields.has "op"

/-- The object is in the older form, with a type that cannot be written and so names nothing. -/
def isUnwritable (fields : Fields) : Bool :=
  isOlder fields && !(fields.get "type").isWritable

/-- The object is meant to be a group. -/
def isGroup (fields : Fields) : Bool :=
  fields.has "operands" || (fields.has "operator" && !fields.has "field")

/-- What the object is meant to be. -/
def of (fields : Fields) : Shape :=
  if isOlder fields then
    match olderConnective? (fields.get "type") with
    | some connective => .group (.str connective.symbol) "children"
    | none => .leaf (fields.get "field") (fields.get "operator") (fields.get "value")
  else if isGroup fields then .group (fields.get "operator") "operands"
  else if fields.has "field" then .leaf (fields.get "field") (fields.get "op") (fields.get "value")
  else .unrecognised

end Shape

/-- How much is demanded of what is read. -/
inductive Strictness where
  /-- Whatever is malformed is refused. -/
  | strict
  /-- Something else is put in the place of what is malformed. -/
  | lenient
  deriving DecidableEq, Repr, Inhabited

namespace Value

/-- The value is null, a truth value, a number that is no decimal, or a text. -/
def isPrimitive : Value → Bool
  | null | bool _ | int _ | float _ | str _ => true
  | _ => false

/-- The value is a list of primitive values. -/
def isPrimitiveList : Value → Bool
  | list items => items.all isPrimitive
  | _ => false

end Value

/-- What is wrong with the value that an operator compares with, if something is. -/
def Operator.valueFault? (op : Operator) (value : Value) : Option RuleFault :=
  match op with
  | .present | .absent => none
  | .among | .notAmong => if value.isPrimitiveList then none else some (.needsList op.symbol)
  | _ => if value.isPrimitive then none else some (.needsPrimitive op.symbol value.kindName)

namespace Condition

/-- Refuse a fault when reading strictly, and go on with something else when reading leniently. -/
def refuse {α : Type} (strictness : Strictness) (fault : RuleFault) (otherwise : α) :
    Except Failure α :=
  match strictness with
  | .strict => .error fault.failure
  | .lenient => .ok otherwise

/-- Refuse a value that is no name, or go on with something made of its text. -/
def refuseName {α : Type} (strictness : Strictness) (fault : RuleFault) (v : Value)
    (otherwise : String → α) : Except Failure α :=
  if v.isWritable then refuse strictness fault (otherwise v.plainText) else .error .numberTooLong

/-- The path that a value gives. -/
def readPath (strictness : Strictness) (path : Value) : Except Failure String :=
  match path with
  | .str s => if s = "" then refuse strictness .fieldPath "" else .ok s
  | _ => refuse strictness .fieldPath ""

/-- The operator that a value gives. -/
def readOperator (strictness : Strictness) (op : Value) : Except Failure LeafOperator :=
  match Operator.ofValue? op with
  | some known => .ok (.known known)
  | none => refuseName strictness (.operator op) op .unknown

/-- Check the value that an operator compares with. -/
def checkValue (strictness : Strictness) (op : LeafOperator) (value : Value) :
    Except Failure Unit :=
  match op with
  | .known op =>
    match op.valueFault? value with
    | some fault => refuse strictness fault ()
    | none => .ok ()
  | .unknown _ => .ok ()

/-- Read a leaf. -/
def readLeaf (strictness : Strictness) (path op value : Value) : Except Failure Condition := do
  let path ← readPath strictness path
  let op ← readOperator strictness op
  checkValue strictness op value
  pure (leaf path op value)

/-- Read a group whose operands are given as they were read, or by nothing if they are no list. The
older form takes an empty value of any kind for an empty list. -/
def readGroup (strictness : Strictness) (connective : Value)
    (operands : Option (List (Except Failure Condition))) : Except Failure Condition :=
  match Connective.ofValue? connective with
  | none => refuseName strictness (.connective connective) connective never
  | some c => do
    let operands ← match operands with
      | some operands => pure operands
      | none => refuse strictness .operandsKind []
    if operands.isEmpty then refuse strictness (.noOperands c.symbol) () else pure ()
    return group c (← operands.mapM id)

/-- The operands of a group that were read from the named field of an object. -/
def operandsIn (fields : Fields) (readings : List (String × Option (List (Except Failure Condition))))
    (name : String) : Option (List (Except Failure Condition)) :=
  if name = "children" && !(fields.get name).truthy then some []
  else ((readings.find? fun r => r.1 = name).map Prod.snd).getD none

mutual

/-- Read a condition. -/
def read (strictness : Strictness) : Value → Except Failure Condition
  | .object fields =>
    let readings := readFields strictness fields
    if Shape.isUnwritable fields then .error .numberTooLong
    else
      match Shape.of fields with
      | .group connective name => readGroup strictness connective (operandsIn fields readings name)
      | .leaf path op value => readLeaf strictness path op value
      | .unrecognised =>
        refuse strictness (.conditionShape (Text.inOrder (Fields.names fields))) (never "")
  | v => refuse strictness (.conditionKind v.kindName) (never "")

/-- For each field of an object that is a list, the conditions that its items are. -/
def readFields (strictness : Strictness) :
    List (String × Value) → List (String × Option (List (Except Failure Condition)))
  | [] => []
  | (name, v) :: rest => (name, readItems strictness v) :: readFields strictness rest

/-- The conditions that the items of a list are; nothing for a value that is no list. -/
def readItems (strictness : Strictness) : Value → Option (List (Except Failure Condition))
  | .list items => some (readAll strictness items)
  | _ => none

/-- The conditions that several values are. -/
def readAll (strictness : Strictness) : List Value → List (Except Failure Condition)
  | [] => []
  | v :: rest => read strictness v :: readAll strictness rest

end

/-- Every item of a list is read by itself. -/
theorem readAll_eq_map (strictness : Strictness) (items : List Value) :
    readAll strictness items = items.map (read strictness) := by
  induction items with
  | nil => simp [readAll]
  | cons v rest ih => simp [readAll, ih]

end Condition

end RewardLedger
