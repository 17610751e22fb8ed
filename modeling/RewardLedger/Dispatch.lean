import RewardLedger.Ledger.Rewards
import RewardLedger.Rule.Engine

/-!
# Carrying actions out

The dispatcher carries out the actions that the rule engine reports. The actions of a type that has no
handler are skipped. A refusal for a reason of the domain makes the action fail and keeps no other
action from being carried out; any other failure ends the whole dispatch.
-/

namespace RewardLedger

/-- The event and the parties that actions are carried out for. -/
structure DispatchContext where
  /-- The user to be rewarded. -/
  referrer : Value
  /-- The user who was referred. -/
  referred : Value
  /-- The identifier of the event. -/
  eventId : Value
  deriving Repr, Inhabited

/-- What carrying an action out gave. -/
inductive ActionResult where
  /-- A reward was credited. -/
  | credited (result : CreditResult)
  /-- A handler answered. -/
  | answered (result : Value)
  deriving Repr, Inhabited

/-- The written form of what carrying an action out gave. -/
def ActionResult.toValue : ActionResult → Except Failure Value
  | credited result => result.json
  | answered result => .ok result

/-- What became of an action. -/
inductive ActionStatus where
  /-- The action was carried out, with this result. -/
  | executed (result : ActionResult)
  /-- The action has no handler. -/
  | skipped
  /-- The action was refused, with this message. -/
  | failed (message : String)
  deriving Repr, Inhabited

namespace ActionStatus

/-- The name of what became of an action. -/
def name : ActionStatus → String
  | executed _ => "executed"
  | skipped => "skipped"
  | failed _ => "failed"

/-- The written form of the result, null standing for none. -/
def result : ActionStatus → Except Failure Value
  | executed result => result.toValue
  | skipped | failed _ => .ok .null

/-- The written form of the message, null standing for none. -/
def error : ActionStatus → Value
  | failed message => .str message
  | executed _ | skipped => .null

end ActionStatus

/-- An action and what became of it. -/
structure Outcome where
  /-- The action. -/
  action : TriggeredAction
  /-- What became of it. -/
  status : ActionStatus
  deriving Repr, Inhabited

/-- The written form of an outcome. -/
def Outcome.toValue (o : Outcome) : Except Failure Value := do
  let result ← o.status.result
  pure (.object [
    ("action", o.action.toValue), ("status", .str o.status.name), ("result", result),
    ("error", o.status.error)])

namespace Dispatch

/-- The amount that an action names. A floating point number stands for its shortest decimal text
here. -/
def actionAmount : Value → Value
  | .float x =>
    match Decimal.ofChars? x.chars with
    | some d => .decimal d
    | none => .float x
  | v => v

/-- The key under which the reward of an action is requested. -/
def rewardKey (t : TriggeredAction) (eventId : Value) : String :=
  "rule:" ++ t.ruleId.plainText ++ ":v" ++ t.ruleVersion.plainText ++ ":" ++ eventId.plainText

/-- The further particulars of the reward of an action. -/
def rewardMetadata (t : TriggeredAction) (eventId : Value) : Value :=
  .object [
    ("source", .str "rule"), ("rule_id", .str t.ruleId.plainText), ("rule_name", t.ruleName),
    ("rule_version", t.ruleVersion), ("event_id", eventId),
    ("reward_type", Fields.get t.action.params "type")]

/-- Credit the reward that an action asks for. -/
def creditReward (cfg : Config) (context : DispatchContext) (t : TriggeredAction) :
    Op CreditResult :=
  match Fields.find? t.action.params "amount" with
  | none => Op.refuse .amountMissing
  | some amount =>
    Rewards.credit cfg context.referrer context.referred (actionAmount amount)
      (.str (rewardKey t context.eventId)) (Fields.get t.action.params "currency")
      (rewardMetadata t context.eventId)

/-- Let a handler carry an action out. An invalid transition cannot be reported by a message alone: its
message is made of the states. -/
def handle (cfg : Config) (context : DispatchContext) (t : TriggeredAction) :
    Handler → Op ActionResult
  | .creditReward => ActionResult.credited <$> creditReward cfg context t
  | .answers result => pure (.answered result)
  | .refuses .invalidTransition _ => throw .wrongKind
  | .refuses kind message => Op.refuse (.reported kind message)

/-- Record that an action failed, if the failure is one of the domain. -/
def recordFailure (context : DispatchContext) (t : TriggeredAction) (e : Failure) :
    Op ActionStatus :=
  match e.faultKind?, e.message? with
  | some _, some message => do
    Op.log .warning "rule_action_failed" [
      ("action_type", .str t.action.type), ("rule_id", .str t.ruleId.plainText),
      ("event_id", context.eventId), ("error", .str message)]
    pure (.failed message)
  | _, _ => throw e

/-- Carry an action out, if its type has a handler. -/
def carryOut (cfg : Config) (handlers : Handlers) (context : DispatchContext)
    (t : TriggeredAction) : Op ActionStatus :=
  match handlers.find? t.action.type with
  | none => pure .skipped
  | some handler =>
    tryCatch (ActionStatus.executed <$> handle cfg context t handler) (recordFailure context t)

/-- Carry actions out, one after the other, and tell what became of each. -/
def run (cfg : Config) (handlers : Handlers) (actions : List TriggeredAction)
    (context : DispatchContext) : Op (List Outcome) :=
  actions.mapM fun t => Outcome.mk t <$> carryOut cfg handlers context t

end Dispatch

end RewardLedger
