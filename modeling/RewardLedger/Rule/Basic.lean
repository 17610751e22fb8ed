import RewardLedger.Rule.Action
import RewardLedger.Rule.Evaluation
import RewardLedger.World

/-!
# Rules

A rule is a version of a named set of a condition and actions. The store keeps rules as rows; the
columns whose form nothing depends on stay values. A stored rule is read leniently, for it was checked
when it was made.
-/

namespace RewardLedger

/-- A version of a rule. -/
structure Rule where
  /-- The identifier of the version. -/
  id : Value
  /-- The name that all versions share. -/
  name : Value
  /-- The number of the version, from 1. -/
  version : Value
  /-- When the actions should happen. -/
  condition : Condition
  /-- What should happen. -/
  actions : List Action
  /-- The version takes part in evaluations. -/
  active : Value
  /-- A description. -/
  description : Value
  /-- Further particulars. -/
  metadata : Value
  /-- When the version was made. -/
  createdAt : Value
  deriving Repr, Inhabited

namespace Rule

/-- Read a rule from its row. -/
def ofRow (row : Fields) : Except Failure Rule := do
  let id ← row.column "id"
  let name ← row.column "name"
  let version ← row.column "version"
  let condition ← Condition.read .lenient (← row.column "conditions")
  let actions ← Action.readList .lenient (← row.column "actions")
  let active ← row.column "is_active"
  pure {
    id, name, version, condition, actions, active
    description := row.get "description"
    metadata := (row.get "metadata").orElse (.object [])
    createdAt := row.get "created_at" }

/-- The written form of the time at which a version was made. -/
def createdText (createdAt : Value) : Except Failure Value :=
  match createdAt with
  | .instant t => .ok (.str t.isoText)
  | v => if v.truthy then .error .noPart else .ok .null

/-- The written form of a rule. -/
def toValue (r : Rule) : Except Failure Value := do
  let createdAt ← createdText r.createdAt
  pure (.object [
    ("id", .str r.id.plainText), ("name", r.name), ("description", r.description),
    ("version", r.version), ("is_active", r.active), ("conditions", r.condition.toValue),
    ("actions", Action.listToValue r.actions), ("metadata", r.metadata),
    ("created_at", createdAt)])

end Rule

/-- An action that a rule asks for. -/
structure TriggeredAction where
  /-- The action. -/
  action : Action
  /-- The identifier of the version of the rule. -/
  ruleId : Value
  /-- The name of the rule. -/
  ruleName : Value
  /-- The number of the version. -/
  ruleVersion : Value
  deriving Repr, Inhabited

/-- The written form of a triggered action. -/
def TriggeredAction.toValue (t : TriggeredAction) : Value :=
  .object [
    ("type", .str t.action.type), ("params", .object t.action.params),
    ("rule_id", .str t.ruleId.plainText), ("rule_name", t.ruleName),
    ("rule_version", t.ruleVersion)]

/-- What the evaluation of one rule came to. -/
structure RuleEvaluation where
  /-- The identifier of the version of the rule. -/
  ruleId : Value
  /-- The name of the rule. -/
  ruleName : Value
  /-- The number of the version. -/
  version : Value
  /-- The condition held. -/
  isMatch : Bool
  /-- The actions of the rule if its condition held, otherwise none. -/
  actions : List Action
  deriving Repr, Inhabited

/-- The written form of an evaluation. -/
def RuleEvaluation.toValue (e : RuleEvaluation) : Value :=
  .object [
    ("rule_id", .str e.ruleId.plainText), ("rule_name", e.ruleName), ("version", e.version),
    ("matched", .bool e.isMatch), ("triggered_actions", Action.listToValue e.actions)]

end RewardLedger
