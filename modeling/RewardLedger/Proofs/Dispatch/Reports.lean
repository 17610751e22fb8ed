import RewardLedger.Proofs.Ledger.Refusals
import RewardLedger.Proofs.Replay
import RewardLedger.Proofs.Rule.Laws

/-!
# What becomes of actions

Carrying an action out comes to one of three things (`Dispatch.Carried`): the action is skipped for
want of a handler, it fails because its handler meets a fault, and then the tables are left alone,
or it is executed. Carrying actions out reports what became of each of them in turn
(`Dispatch.Reports`), whatever became of the ones before.

A failure outside of the domain is not caught, though, and cuts the dispatch short. It comes from
crediting the reward of an action alone, for one of the reasons of `Books.CutsShort`. Among these
are parameters that nobody looks at when a rule is made, such as a currency that is no text.
-/

namespace RewardLedger

variable {cfg : Config} {b b' : Books} {w w' : World}

open Op

/-- The action is one of a version of a rule: its identifier, its name and its number have the kinds
that they are stored with. -/
structure TriggeredAction.OfVersion (t : TriggeredAction) : Prop where
  /-- The identifier of the version. -/
  ruleId : ∃ id, t.ruleId = .uuid id
  /-- The name of the rule. -/
  ruleName : ∃ name, t.ruleName = .str name
  /-- The number of the version. -/
  ruleVersion : ∃ n, t.ruleVersion = .int n

/-- The actions that a stored version asks for are its own. -/
theorem StoredRule.ofVersion_triggeredBy (r : StoredRule) :
    ∀ t ∈ RuleEngine.triggeredBy r.toRule, t.OfVersion := by
  intro t ht
  obtain ⟨action, -, rfl⟩ := List.mem_map.1 ht
  exact ⟨⟨_, rfl⟩, ⟨_, rfl⟩, ⟨_, rfl⟩⟩

namespace Dispatch

variable {context : DispatchContext} {t : TriggeredAction} {e : Failure}

/-- The JSON form of the particulars of the reward of an action is made from that of the type of the
reward, which alone can be a value of any kind. -/
theorem exists_jsonForm_rewardMetadata (ht : t.OfVersion) (event : String) :
    ∃ f : Value → Value, (rewardMetadata t (.str event)).jsonForm =
      (Fields.get t.action.params "type").jsonForm.map f := by
  obtain ⟨-, ⟨name, hname⟩, ⟨n, hn⟩⟩ := ht
  refine ⟨fun form => .object [
    ("source", .str "rule"), ("rule_id", .str t.ruleId.plainText), ("rule_name", .str name),
    ("rule_version", .int n), ("event_id", .str event), ("reward_type", form)], ?_⟩
  rw [rewardMetadata, hname, hn]
  cases htype : (Fields.get t.action.params "type").jsonForm with
  | error e =>
    simp only [Value.jsonForm, Value.fieldsJsonForm, htype]
    rfl
  | ok form =>
    simp only [Value.jsonForm, Value.fieldsJsonForm, htype]
    rfl

/-- What is logged when an action failed. -/
def failureRecord (context : DispatchContext) (t : TriggeredAction) (message : String) : LogRecord :=
  ⟨.warning, "rule_action_failed", [
    ("action_type", .str t.action.type), ("rule_id", .str t.ruleId.plainText),
    ("event_id", context.eventId), ("error", .str message)]⟩

/-- A fault is recorded with its message. -/
theorem recordFailure_of_isFault {message : String} (h : e.isFault = true)
    (hmessage : e.message? = some message) :
    recordFailure context t e = (do
      Op.log .warning "rule_action_failed" (failureRecord context t message).details
      pure (.failed message)) := by
  obtain ⟨kind, hkind⟩ := Option.isSome_iff_exists.1 h
  rw [recordFailure, hkind, hmessage]
  rfl

/-- Without actions there is nothing to run. -/
theorem run_nil (handlers : Handlers) (context : DispatchContext) :
    run cfg handlers [] context = pure [] := List.mapM_nil

/-- The first action is carried out first. -/
theorem run_cons (handlers : Handlers) (context : DispatchContext) (t : TriggeredAction)
    (rest : List TriggeredAction) : run cfg handlers (t :: rest) context = (do
      let status ← carryOut cfg handlers context t
      let outcomes ← run cfg handlers rest context
      pure (⟨t, status⟩ :: outcomes)) := by
  rw [run, List.mapM_cons, map_eq_pure_bind, bind_assoc]
  rfl

end Dispatch

/-! ## Over a run -/

/-- A clock that starts with the first year and moves on with every reading. -/
def Clock.early : Clock := { now := ⟨0, some 0⟩, step := 1 }

namespace Dispatch

/-- One of two users referred the other. -/
def betweenTwo : DispatchContext := ⟨.uuid ⟨1⟩, .uuid ⟨2⟩, .str "e"⟩

/-- The first version of a rule asks for a reward of ten, for one without an amount, for a voucher
and for a notification. -/
def assorted : List TriggeredAction :=
  [⟨"createReward", [("amount", .int 10)]⟩, ⟨"createReward", []⟩, ⟨"issueVoucher", []⟩,
    ⟨"sendNotification", []⟩].map fun action : Action => ⟨action, .uuid ⟨3⟩, .str "A", .int 1⟩

end Dispatch

namespace Dispatch

/-- Carry out what the rules ask for when an event happens. -/
def runEvent (cfg : Config) (handlers : Handlers) (event : Value) (context : DispatchContext) :
    Op (List Outcome) := do
  run cfg handlers (← RuleEngine.evaluate event) context

end Dispatch

/-- Two users are added, and a rule is made that asks for these actions whenever there is an `x`. -/
def Turn.ruleAsking (actions : List Value) : List Turn :=
  twoUsers 0 ++ [⟨.early, .createRule (.str "A") (Condition.writtenPresent "x") (.list actions)
    .null .null (.bool true)⟩]

end RewardLedger
