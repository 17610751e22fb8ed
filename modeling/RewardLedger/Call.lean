import RewardLedger.Dispatch
import RewardLedger.Ledger.Users
import RewardLedger.Seed

/-!
# Calls

Everything that can be asked of the program, as data: a call names an operation and its arguments, and
performing it answers with the written form of the result.
-/

namespace RewardLedger

/-- A call of the store itself. -/
inductive StoreCall where
  /-- Add a row, which must be an object. -/
  | insert (table : String) (row : Value)
  /-- Change columns of a row. -/
  | update (table : String) (key : Value) (changes : Fields)
  /-- The row with a primary key. -/
  | get (table : String) (key : Value)
  /-- The row with a key in an index. -/
  | findUnique (table index : String) (key : List Value)
  /-- The rows whose columns have these values. -/
  | select (table : String) (columns : Fields)
  /-- The number of rows. -/
  | count (table : String)
  /-- Whether a transaction is open. -/
  | inTransaction
  deriving Repr, Inhabited

/-- A call of the program. -/
inductive Call where
  /-- Add a user. -/
  | createUser (email name : Value)
  /-- A user. -/
  | getUser (id : Value)
  /-- The user with an email. -/
  | getUserByEmail (email : Value)
  /-- Whether there is a user. -/
  | hasUser (id : Value)
  /-- Give a user another name. -/
  | renameUser (id name : Value)
  /-- All users. -/
  | listUsers
  /-- Add an entry. -/
  | createEntry (user entryType amount : Value) (details : Ledger.EntryDetails)
  /-- Add a credit. -/
  | createCredit (user amount : Value) (details : Ledger.EntryDetails)
  /-- Add a debit. -/
  | createDebit (user amount : Value) (details : Ledger.EntryDetails)
  /-- Take an entry back on behalf of a reward or of none. -/
  | reverseEntry (id reason reward : Value)
  /-- An entry. -/
  | getEntry (id : Value)
  /-- The entries of a user. -/
  | entriesForUser (user : Value)
  /-- The entries of a reward. -/
  | entriesForReward (reward : Value)
  /-- The balance of a user. -/
  | calculateBalance (user currency : Value)
  /-- The balance of a user in a currency, with what it rests on. -/
  | getBalance (user currency : Value)
  /-- A page of the entries of a user. -/
  | listByUser (user cursor limit : Value)
  /-- The balance of a user after so many entries, counted from the end if the number is negative,
  and the balance after the rest. -/
  | foldInParts (user : Value) (first : Int)
  /-- The fingerprint of a request. -/
  | fingerprint (referrer referred amount currency : Value)
  /-- What is known of a request. -/
  | checkRequest (key fingerprint : Value)
  /-- Record a request. -/
  | recordRequest (key fingerprint response : Value)
  /-- A recorded request. -/
  | getRequest (key : Value)
  /-- The recorded requests that may be removed. -/
  | expiredRequests (now : Value)
  /-- Credit a reward. -/
  | creditReward (referrer referred amount key currency metadata : Value)
  /-- Confirm a reward. -/
  | confirmReward (id : Value)
  /-- Pay a reward out. -/
  | payReward (id : Value)
  /-- Take a reward back. -/
  | reverseReward (id reason : Value)
  /-- Take an entry back, with its reward if it is the credit of one. -/
  | reverseRewardEntry (id reason : Value)
  /-- A reward. -/
  | getReward (id : Value)
  /-- The rewards in a state. -/
  | listRewards (status limit : Value)
  /-- The entries of a reward that must exist. -/
  | rewardEntries (id : Value)
  /-- The oldest credit of a reward. -/
  | oldestCredit (id : Value)
  /-- Make a version of a rule. -/
  | createRule (name conditions actions metadata description active : Value)
  /-- Apply changes to a rule. -/
  | updateRule (id : Value) (changes : RuleBook.Changes)
  /-- Deactivate a rule. -/
  | deactivateRule (id : Value)
  /-- A rule. -/
  | getRule (id : Value)
  /-- All rules. -/
  | listRules
  /-- The active rules. -/
  | activeRules
  /-- The latest version of each name. -/
  | latestRules
  /-- The latest version of a name. -/
  | latestRule (name : Value)
  /-- The actions that the rules ask for when an event happens. -/
  | evaluateEvent (event : Value)
  /-- The evaluation of every rule for an event. -/
  | explainEvent (event : Value)
  /-- Carry out what the rules ask for when an event happens. -/
  | dispatchEvent (event : Value) (context : DispatchContext)
  /-- Carry these actions out. -/
  | dispatchActions (actions : List TriggeredAction) (context : DispatchContext)
  /-- Let a handler carry out a type of actions. -/
  | registerHandler (type : String) (handler : Handler)
  /-- Start again with the built-in handlers and these. -/
  | replaceHandlers (handlers : Handlers)
  /-- Set the clock, or its step, or both. -/
  | setClock (now : Option Instant) (step : Option Int)
  /-- Add the demonstration data. -/
  | seed
  /-- Call the store itself. -/
  | store (call : StoreCall)
  deriving Repr, Inhabited

/-- The row has these values in these columns, an absent column counting as null. -/
def Fields.hasValues (row : Fields) : Fields → Except Failure Bool
  | [] => .ok true
  | (name, v) :: rest => do if ← (row.get name).equalTo v then row.hasValues rest else pure false

/-- The columns of a row that is given as an object. -/
def StoreCall.fieldsOf : Value → Except Failure Fields
  | .object fields => .ok fields
  | _ => .error .noPart

/-- Perform a call of the store itself. -/
def StoreCall.perform : StoreCall → Op Value
  | insert table row => do
    discard <| Op.query (·.table table)
    .object <$> Op.change (Store.insert table (← Op.ofExcept (fieldsOf row)))
  | update table key changes => .object <$> Op.change (Store.update table key changes)
  | get table key => .ofOption .object <$> Op.query (·.get table key)
  | findUnique table index key => .ofOption .object <$> Op.query (·.findUnique table index key)
  | select table columns =>
    (fun rows => .list (rows.map .object)) <$> Op.query (·.select table (·.hasValues columns))
  | count table => (fun n => .int n) <$> Op.query (·.count table)
  | inTransaction => do return .bool (← MonadState.get).store.inTransaction

namespace Call

/-- The written forms of several results. -/
def listed {α : Type} (write : α → Except Failure Value) (op : Op (List α)) : Op Value := do
  return .list (← Op.ofExcept ((← op).mapM write))

/-- The written form of a result. -/
def written {α : Type} (write : α → Except Failure Value) (op : Op α) : Op Value := do
  Op.ofExcept (write (← op))

/-- The written form of a result that may be absent. -/
def writtenIfAny {α : Type} (write : α → Except Failure Value) (op : Op (Option α)) : Op Value := do
  match ← op with
  | some a => Op.ofExcept (write a)
  | none => pure .null

/-- The balance after the first entries of a user, counted from the end if their number is negative,
and after the rest. -/
def foldParts (cfg : Config) (user : Value) (first : Int) : Op Value := do
  let postings := (← Ledger.entriesForUser user).map LedgerEntry.posting
  let first := (if first < 0 then postings.length + first else first).toNat
  let zero ← Op.ofExcept cfg.money.zero
  let before ← Op.ofExcept (Balance.fold cfg.money zero (postings.take first))
  let after ← Op.ofExcept (Balance.fold cfg.money before (postings.drop first))
  pure (.list [.decimal before, .decimal after])

/-- The written form of what is known of a request. -/
def writeStanding (key : Value) : Requests.Standing → Value
  | .fresh => .object [("fresh", key)]
  | .answered response => .object [("cached", key), ("response", response)]

/-- The written form of a call of a handler that is not built in. -/
def writeHandled (context : DispatchContext) (t : TriggeredAction) : Value :=
  .list [t.toValue, .str context.referrer.plainText, .str context.referred.plainText,
    context.eventId]

/-- Carry actions out, and tell what became of them and which were handed to handlers that are not
built in. -/
def dispatch (cfg : Config) (actions : List TriggeredAction) (context : DispatchContext) :
    Op Value := do
  let handlers := (← MonadState.get).handlers
  let outcomes ← Dispatch.run cfg handlers actions context
  let written ← Op.ofExcept (outcomes.mapM Outcome.toValue)
  let handled := actions.filter fun t => handlers.isForeign t.action.type
  pure (.object [
    ("outcomes", .list written), ("handled", .list (handled.map (writeHandled context)))])

/-- Perform a call. -/
def perform (cfg : Config) : Call → Op Value
  | createUser email name => User.json <$> Users.create email name
  | getUser id => User.json <$> Users.get id
  | getUserByEmail email => User.json <$> Users.getByEmail email
  | hasUser id => .bool <$> Users.has id
  | renameUser id name => User.json <$> Users.rename id name
  | listUsers => (fun us => .list (us.map User.json)) <$> Users.all
  | createEntry user entryType amount details =>
    written LedgerEntry.json (Ledger.createEntry cfg user entryType amount details)
  | createCredit user amount details =>
    written LedgerEntry.json (Ledger.createCredit cfg user amount details)
  | createDebit user amount details =>
    written LedgerEntry.json (Ledger.createDebit cfg user amount details)
  | reverseEntry id reason reward =>
    written LedgerEntry.json (Ledger.reverseEntry cfg id reason reward)
  | getEntry id => written LedgerEntry.json (Ledger.getEntry id)
  | entriesForUser user => listed LedgerEntry.json (Ledger.entriesForUser user)
  | entriesForReward reward => listed LedgerEntry.json (Ledger.entriesForReward reward)
  | calculateBalance user currency => .decimal <$> Ledger.calculateBalance cfg user currency
  | getBalance user currency => UserBalance.json <$> Ledger.getBalance cfg user currency
  | listByUser user cursor limit =>
    written LedgerPage.json (Ledger.listByUser cfg user cursor limit)
  | foldInParts user first => foldParts cfg user first
  | fingerprint referrer referred amount currency =>
    .str <$> Op.ofExcept (Requests.fingerprint cfg referrer referred amount currency)
  | checkRequest key hash => writeStanding key <$> Requests.check key hash
  | recordRequest key hash response =>
    written RequestRecord.json (Requests.record cfg key hash response)
  | getRequest key => writtenIfAny RequestRecord.json (Requests.get? key)
  | expiredRequests now => listed RequestRecord.json (Requests.expired now)
  | creditReward referrer referred amount key currency metadata =>
    written CreditResult.json (Rewards.credit cfg referrer referred amount key currency metadata)
  | confirmReward id => written Reward.json (Rewards.confirm id)
  | payReward id => written RewardResult.json (Rewards.pay cfg id)
  | reverseReward id reason => written RewardResult.json (Rewards.reverse cfg id reason)
  | reverseRewardEntry id reason =>
    written LedgerEntry.json (Rewards.reverseEntry cfg id reason)
  | getReward id => written Reward.json (Rewards.get id)
  | listRewards status limit => listed Reward.json (Rewards.all status limit)
  | rewardEntries id => listed LedgerEntry.json (Rewards.entriesFor id)
  | oldestCredit id => writtenIfAny LedgerEntry.json (Rewards.oldestCredit id)
  | createRule name conditions actions metadata description active =>
    written Rule.toValue (RuleBook.create name conditions actions metadata description active)
  | updateRule id changes => written Rule.toValue (RuleBook.update id changes)
  | deactivateRule id => written Rule.toValue (RuleBook.deactivate id)
  | getRule id => written Rule.toValue (RuleBook.get id)
  | listRules => listed Rule.toValue RuleBook.all
  | activeRules => listed Rule.toValue RuleBook.active
  | latestRules => listed Rule.toValue RuleBook.latestPerName
  | latestRule name => writtenIfAny Rule.toValue (RuleBook.latest? name)
  | evaluateEvent event =>
    (fun ts => .list (ts.map TriggeredAction.toValue)) <$> RuleEngine.evaluate event
  | explainEvent event =>
    (fun es => .list (es.map RuleEvaluation.toValue)) <$> RuleEngine.explain event
  | dispatchEvent event context => do dispatch cfg (← RuleEngine.evaluate event) context
  | dispatchActions actions context => dispatch cfg actions context
  | registerHandler type handler => do
    modify fun w => { w with handlers := w.handlers.register type handler }
    pure .null
  | replaceHandlers handlers => do
    let handlers := Handlers.withBuiltIn handlers
    modify fun w => { w with handlers }
    pure (.list (handlers.types.map .str))
  | setClock now step => do
    modify fun w => { w with clock := {
      w.clock with now := now.getD w.clock.now, step := step.getD w.clock.step } }
    pure .null
  | seed => do
    let (users, rule) ← Seed.run
    let rule ← Op.ofExcept rule.toValue
    pure (.object [("users", .list (users.map User.json)), ("rule", rule)])
  | store call => call.perform

end Call

end RewardLedger
