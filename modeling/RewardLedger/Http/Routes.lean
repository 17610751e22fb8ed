import RewardLedger.Call
import RewardLedger.Http.Form
import RewardLedger.Http.Route

/-!
# The routes of the program

Which requests the program answers, and with which operations.
-/

namespace RewardLedger.Http

namespace Routes

/-- Answer with the written form of a result and the usual status. -/
def ok (op : Op Value) : Op Answer := do return ⟨200, ← op⟩

/-- An optional text, null standing for none. -/
def textOrNull (s : Option String) : Value := .ofText? s

/-- Objects as values. -/
def objects (fs : List Fields) : Value := .list (fs.map .object)

/-! ## The program itself -/

/-- The program is there. -/
def health (_ : Arguments) : Checked (Op Answer) :=
  .valid (pure ⟨200, .object [
    ("status", .str "healthy"), ("service", .str "referral-ledger")]⟩)

/-! ## Users -/

/-- Add a user. -/
def createUser (a : Arguments) : Checked (Op Answer) :=
  (a.form NewUser.read).map fun user => do
    return ⟨201, (← Users.create (.str user.email) (textOrNull user.name)).json⟩

/-- All users. -/
def listUsers (_ : Arguments) : Checked (Op Answer) :=
  .valid (ok (return .list ((← Users.all).map User.json)))

/-- A user. -/
def getUser (a : Arguments) : Checked (Op Answer) :=
  (a.identifier "user_id").map fun id => ok (User.json <$> Users.get (.uuid id))

/-- Give a user another name. -/
def renameUser (a : Arguments) : Checked (Op Answer) :=
  (fun id name => ok (User.json <$> Users.rename (.uuid id) (.str name)))
    <$> a.identifier "user_id" <*> a.form readNewName

/-- The balance of a user. -/
def userBalance (cfg : Config) (a : Arguments) : Checked (Op Answer) :=
  (fun id currency =>
      ok (UserBalance.json <$> Ledger.getBalance cfg (.uuid id) (textOrNull currency)))
    <$> a.identifier "user_id" <*> a.parameter "currency" none (Check.optional Check.text)

/-- A page of the entries of a user. -/
def userLedger (cfg : Config) (a : Arguments) : Checked (Op Answer) :=
  (fun id cursor limit =>
      ok (Call.written LedgerPage.json
        (Ledger.listByUser cfg (.uuid id) (.ofUuid? cursor) (.int limit))))
    <$> a.identifier "user_id" <*> a.parameter "cursor" none (Check.optional Check.uuid)
    <*> a.parameter "limit" 20 (Check.intBetween 1 100)

/-! ## Entries -/

/-- An entry. -/
def getEntry (a : Arguments) : Checked (Op Answer) :=
  (a.identifier "entry_id").map fun id =>
    ok (Call.written LedgerEntry.json (Ledger.getEntry (.uuid id)))

/-- Take an entry back. -/
def reverseEntry (cfg : Config) (a : Arguments) : Checked (Op Answer) :=
  (fun id reason =>
      ok (Call.written LedgerEntry.json
        (Rewards.reverseEntry cfg (.uuid id) (textOrNull reason))))
    <$> a.identifier "entry_id" <*> a.formOr none readReason

/-! ## Rewards -/

/-- Credit a reward. A repeated request is answered with another status. -/
def createReward (cfg : Config) (a : Arguments) : Checked (Op Answer) :=
  (a.form NewReward.read).map fun r => do
    let result ← Rewards.credit cfg (.uuid r.referrer) (.uuid r.referred) (.decimal r.amount)
      (.str r.key) (textOrNull r.currency) (.object r.metadata)
    return ⟨if result.replayed then 200 else 201, ← Op.ofExcept result.json⟩

/-- The rewards in a state, or all. -/
def listRewards (a : Arguments) : Checked (Op Answer) :=
  (fun (status : Option RewardStatus) limit =>
      ok (Call.listed Reward.json
        (Rewards.all (textOrNull (status.map RewardStatus.name)) (.int limit))))
    <$> a.parameter "status" none (Check.optional (Check.member RewardStatus.ofName?))
    <*> a.parameter "limit" 50 (Check.intBetween 1 200)

/-- A reward. -/
def getReward (a : Arguments) : Checked (Op Answer) :=
  (a.identifier "reward_id").map fun id =>
    ok (Call.written Reward.json (Rewards.get (.uuid id)))

/-- The entries of a reward. -/
def rewardEntries (a : Arguments) : Checked (Op Answer) :=
  (a.identifier "reward_id").map fun id =>
    ok (Call.listed LedgerEntry.json (Rewards.entriesFor (.uuid id)))

/-- Confirm a reward. -/
def confirmReward (a : Arguments) : Checked (Op Answer) :=
  (a.identifier "reward_id").map fun id =>
    ok (Call.written Reward.json (Rewards.confirm (.uuid id)))

/-- Pay a reward out. -/
def payReward (cfg : Config) (a : Arguments) : Checked (Op Answer) :=
  (a.identifier "reward_id").map fun id =>
    ok (Call.written RewardResult.json (Rewards.pay cfg (.uuid id)))

/-- Take a reward back. -/
def reverseReward (cfg : Config) (a : Arguments) : Checked (Op Answer) :=
  (fun id reason =>
      ok (Call.written RewardResult.json (Rewards.reverse cfg (.uuid id) (textOrNull reason))))
    <$> a.identifier "reward_id" <*> a.formOr none readReason

/-! ## Rules -/

/-- Make a version of a rule. -/
def createRule (a : Arguments) : Checked (Op Answer) :=
  (a.form NewRule.read).map fun r => do
    let rule ← RuleBook.create (.str r.name) (.object r.conditions) (objects r.actions)
      (.object r.metadata) (textOrNull r.description) (.bool r.active)
    return ⟨201, ← Op.ofExcept rule.toValue⟩

/-- All rules, or the active ones. -/
def listRules (a : Arguments) : Checked (Op Answer) :=
  (a.parameter "active_only" false Check.bool).map fun activeOnly =>
    ok (Call.listed Rule.toValue (if activeOnly then RuleBook.active else RuleBook.all))

/-- The latest version of each name. -/
def latestRules (_ : Arguments) : Checked (Op Answer) :=
  .valid (ok (Call.listed Rule.toValue RuleBook.latestPerName))

/-- An object with one field. -/
def named (name : String) (op : Op Value) : Op Value := do return .object [(name, ← op)]

/-- The actions that the rules ask for when an event happens. -/
def evaluateEvent (a : Arguments) : Checked (Op Answer) :=
  (a.form readEvent).map fun event =>
    ok (named "actions" do
      return .list ((← RuleEngine.evaluate (.object event)).map TriggeredAction.toValue))

/-- The evaluation of every rule for an event. -/
def explainEvent (a : Arguments) : Checked (Op Answer) :=
  (a.form readEvent).map fun event =>
    ok (named "results" do
      return .list ((← RuleEngine.explain (.object event)).map RuleEvaluation.toValue))

/-- Carry out what the rules ask for when an event happens. -/
def dispatchEvent (cfg : Config) (a : Arguments) : Checked (Op Answer) :=
  (a.form Occurrence.read).map fun o =>
    ok (named "outcomes" do
      let actions ← RuleEngine.evaluate (.object o.event)
      let handlers := (← get).handlers
      Call.listed Outcome.toValue
        (Dispatch.run cfg handlers actions ⟨.uuid o.referrer, .uuid o.referred, .str o.eventId⟩))

/-- A rule. -/
def getRule (a : Arguments) : Checked (Op Answer) :=
  (a.identifier "rule_id").map fun id =>
    ok (Call.written Rule.toValue (RuleBook.get (.uuid id)))

/-- The changes that a form asks for. -/
def changesOf (c : RuleChange) : RuleBook.Changes where
  name := textOrNull c.name
  conditions := c.conditions.map .object
  actions := c.actions.map objects
  metadata := (c.metadata.map Value.object).getD .null
  description := textOrNull c.description
  active := (c.active.map Value.bool).getD .null

/-- Apply changes to a rule. -/
def updateRule (a : Arguments) : Checked (Op Answer) :=
  (fun id change =>
      ok (Call.written Rule.toValue (RuleBook.update (.uuid id) (changesOf change))))
    <$> a.identifier "rule_id" <*> a.form RuleChange.read

/-- Deactivate a rule. -/
def deactivateRule (a : Arguments) : Checked (Op Answer) :=
  (a.identifier "rule_id").map fun id =>
    ok (Call.written Rule.toValue (RuleBook.deactivate (.uuid id)))

end Routes

/-! ## The table of routes -/

open Segment Routes

/-- The routes, in the order in which they are tried. -/
def routes (cfg : Config) : List Route := [
  ⟨"GET", [fixed "health"], false, health⟩,
  ⟨"POST", [fixed "users"], true, createUser⟩,
  ⟨"GET", [fixed "users"], false, listUsers⟩,
  ⟨"GET", [fixed "users", .any], false, getUser⟩,
  ⟨"PATCH", [fixed "users", .any], true, renameUser⟩,
  ⟨"GET", [fixed "users", .any, fixed "balance"], false, userBalance cfg⟩,
  ⟨"GET", [fixed "users", .any, fixed "ledger"], false, userLedger cfg⟩,
  ⟨"GET", [fixed "ledger", fixed "entries", .any], false, getEntry⟩,
  ⟨"POST", [fixed "ledger", fixed "entries", .any, fixed "reverse"], true, reverseEntry cfg⟩,
  ⟨"POST", [fixed "rewards"], true, createReward cfg⟩,
  ⟨"GET", [fixed "rewards"], false, listRewards⟩,
  ⟨"GET", [fixed "rewards", .any], false, getReward⟩,
  ⟨"GET", [fixed "rewards", .any, fixed "entries"], false, rewardEntries⟩,
  ⟨"POST", [fixed "rewards", .any, fixed "confirm"], false, confirmReward⟩,
  ⟨"POST", [fixed "rewards", .any, fixed "pay"], false, payReward cfg⟩,
  ⟨"POST", [fixed "rewards", .any, fixed "reverse"], true, reverseReward cfg⟩,
  ⟨"POST", [fixed "rules"], true, createRule⟩,
  ⟨"GET", [fixed "rules"], false, listRules⟩,
  ⟨"GET", [fixed "rules", fixed "latest"], false, latestRules⟩,
  ⟨"POST", [fixed "rules", fixed "evaluate"], true, evaluateEvent⟩,
  ⟨"POST", [fixed "rules", fixed "explain"], true, explainEvent⟩,
  ⟨"POST", [fixed "rules", fixed "dispatch"], true, dispatchEvent cfg⟩,
  ⟨"GET", [fixed "rules", .any], false, getRule⟩,
  ⟨"PUT", [fixed "rules", .any], true, updateRule⟩,
  ⟨"DELETE", [fixed "rules", .any], false, deactivateRule⟩]

end RewardLedger.Http
