import RewardLedger.Rule.ConditionReader

/-!
# Actions of rules

A rule lists what should happen when its condition holds. An action has a type and parameters; strict
reading accepts the known types only.
-/

namespace RewardLedger

/-- Something that should happen. -/
structure Action where
  /-- The type of the action. -/
  type : String
  /-- The parameters of the action. -/
  params : Fields
  deriving Repr, Inhabited

namespace Action

/-- The type of the actions that credit a reward. -/
def createReward : String := "createReward"

/-- The known types of actions. -/
def types : List String := [createReward, "setRewardStatus", "issueVoucher", "sendNotification"]

/-- The written form of an action. -/
def toValue (a : Action) : Value := .object [("type", .str a.type), ("params", .object a.params)]

/-- The parameters that an object gives; none if it names none. -/
def readParams (strictness : Strictness) (fields : Fields) : Except Failure Fields :=
  match fields.find? "params" with
  | none => .ok []
  | some (.object params) => .ok params
  | some _ => Condition.refuse strictness .paramsKind []

/-- The type of action that a value gives. -/
def readType (strictness : Strictness) (type : Value) : Except Failure String :=
  match type with
  | .str name =>
    if types.contains name then .ok name else Condition.refuse strictness (.actionType type) name
  | _ => Condition.refuseName strictness (.actionType type) type id

/-- Read an action. -/
def read (strictness : Strictness) : Value → Except Failure Action
  | .object fields => do
    let params ← readParams strictness fields
    let type ← readType strictness (Fields.get fields "type")
    pure ⟨type, params⟩
  | v => .error (RuleFault.failure (.actionKind v.kindName))

/-- Read a list of actions, which when reading strictly must not be empty. -/
def readList (strictness : Strictness) : Value → Except Failure (List Action)
  | .list items => do
    if items.isEmpty then Condition.refuse strictness .noActions () else pure ()
    items.mapM (read strictness)
  | _ => .error (RuleFault.failure .actionsKind)

/-- The written form of several actions. -/
def listToValue (actions : List Action) : Value := .list (actions.map toValue)

end Action

end RewardLedger
