import RewardLedger.Ledger.Entries
import RewardLedger.Ledger.Requests

/-!
# Rewards

A reward is credited for a referral, then confirmed and paid out, or taken back before it is paid. A
reward and the ledger entries that its state implies are always written in one transaction.

Arguments come unchecked, as values of any kind.
-/

namespace RewardLedger.Rewards

/-- The reward of a row. -/
def rewardOf (row : Fields) : Except Failure Reward := (Reward.ofRow row).toExcept

/-! ## Reading -/

/-- The reward with the identifier. -/
def get (id : Value) : Op Reward := do
  match ← Op.query (·.get rewardsTable id) with
  | some row => Op.ofExcept (rewardOf row)
  | none => Op.refuse (.rewardNotFound id)

/-- The items up to a limit; a negative limit counts from the end, and none means all. -/
def upTo {α : Type} (limit : Value) (items : List α) : Except Failure (List α) :=
  match limit with
  | .null => .ok items
  | _ => do
    let n ← Ledger.itemCount limit
    pure (items.take (if n < 0 then (items.length : Int) + n else n).toNat)

/-- The rewards in a state, or all if none is given, newest first. -/
def all (status : Value := .null) (limit : Value := .int 50) : Op (List Reward) := do
  let rows ← Op.query (·.select rewardsTable fun row =>
    if status.isNull then .ok true else row.columnIs "status" status)
  let sorted ← Op.ofExcept (sortByKeyDown Ledger.timeKey rows)
  Op.ofExcept (do (← upTo limit sorted).mapM rewardOf)

/-- The ledger entries of a reward, oldest first. -/
def entriesFor (id : Value) : Op (List LedgerEntry) := do
  discard <| get id
  Ledger.entriesForReward id

/-- The oldest credit of a reward. -/
def oldestCredit (id : Value) : Op (Option LedgerEntry) := do
  return (← Ledger.entriesForReward id).find? fun e => e.entryType = .credit

/-! ## Crediting -/

/-- A request for a credit that has been found in order. -/
structure CreditRequest where
  /-- The user to be rewarded. -/
  referrer : Value
  /-- The user who was referred. -/
  referred : Value
  /-- The amount. -/
  amount : Decimal
  /-- The currency. -/
  currency : Value
  /-- The key of the request. -/
  key : Value
  /-- The fingerprint of the request. -/
  fingerprint : String
  /-- Further particulars of the reward: an object. -/
  metadata : Value
  deriving Repr, Inhabited

/-- Particulars that must have a JSON form. -/
def requireJson (metadata : Value) : Except Failure Value :=
  match metadata.jsonForm with
  | .ok _ => .ok metadata
  | .error .noJsonForm => .error (.fault .metadataNotJson)
  | .error e => .error e

/-- The further particulars of a reward must be an object with a JSON form, or null. -/
def checkMetadata (metadata : Value) : Except Failure Value :=
  match metadata with
  | .null => .ok (.object [])
  | .object _ | .map _ => requireJson metadata
  | _ => .error (.fault .metadataKind)

/-- Check a request for a credit. -/
def checkRequest (cfg : Config) (referrer referred amount key currency metadata : Value) :
    Except Failure CreditRequest := do
  if ← referrer.equalTo referred then throw (.fault .selfReferral)
  let value ← cfg.money.positive amount
  let currency := cfg.currencyOf currency
  let metadata ← checkMetadata metadata
  let fingerprint ← Requests.fingerprint cfg referrer referred (.decimal value) currency
  pure { referrer, referred, amount := value, currency, key, fingerprint, metadata }

/-- A party of a referral must be a user. -/
def requireParty (role : String) (id : Value) : Op Unit := do
  if (← Op.query (·.get usersTable id)).isNone then Op.refuse (.partyNotFound role id)

/-- Answer a request as it was answered before. -/
def replay (request : CreditRequest) (response : Value) : Op CreditResult := do
  let result ← Op.ofExcept (Checked.toExcept (Check.record CreditResult.ofFields response))
  Op.log .info "reward_credit_replayed"
    [("reward_id", .str result.reward.id.text), ("idempotency_key", request.key)]
  pure { result with replayed := true }

/-- Add the row of a pending reward. -/
def insertReward (request : CreditRequest) : Op Fields := do
  let id ← Op.freshId
  let now ← Op.readClock
  Op.change (Store.insert rewardsTable [
    ("id", .uuid id), ("idempotency_key", request.key), ("referrer_id", request.referrer),
    ("referred_id", request.referred), ("status", .str RewardStatus.pending.name),
    ("amount", .decimal request.amount), ("currency", request.currency),
    ("metadata", request.metadata), ("created_at", .instant now)])

/-- Add a reward, its credit, and the record of the request. -/
def creditFresh (cfg : Config) (request : CreditRequest) : Op CreditResult := do
  requireParty "Referrer" request.referrer
  requireParty "Referred user" request.referred
  let row ← insertReward request
  let entry ← Ledger.createCredit cfg request.referrer (.decimal request.amount) {
    currency := request.currency
    rewardId := row.get "id"
    metadata := .object [
      ("reward_type", .str "referral"),
      ("referred_user_id", .str request.referred.plainText)] }
  let reward ← Op.ofExcept (rewardOf row)
  let result : CreditResult := { reward, entry, replayed := false }
  let response ← Op.ofExcept result.json
  discard <| Requests.record cfg request.key (.str request.fingerprint) response
  pure result

/-- Carry a request out, or answer it as before. -/
def creditOnce (cfg : Config) (request : CreditRequest) : Op CreditResult := do
  let result ← Op.transaction do
    match ← Requests.check request.key (.str request.fingerprint) with
    | .answered response => replay request response
    | .fresh => creditFresh cfg request
  unless result.replayed do
    Op.log .info "reward_credited" [
      ("reward_id", .str result.reward.id.text), ("entry_id", .str result.entry.id.text),
      ("referrer_id", .str request.referrer.plainText), ("amount", .str request.amount.text),
      ("currency", request.currency)]
  pure result

/-- Credit a reward. A request whose key is stored already while it is carried out is tried once
more, so that the record stored then answers it. -/
def credit (cfg : Config) (referrer referred amount key : Value)
    (currency metadata : Value := .null) : Op CreditResult := do
  let request ← Op.ofExcept (checkRequest cfg referrer referred amount key currency metadata)
  Op.onDuplicate (creditOnce cfg request) do
    Op.log .info "reward_credit_raced" [("idempotency_key", key)]
    creditOnce cfg request

/-! ## Moving on -/

/-- The reward must be able to move to the state. -/
def requireTransition (reward : Reward) (target : RewardStatus) : Op Unit := do
  unless reward.status.canMove target do Op.refuse (.invalidTransition reward.status target)

/-- Confirm a reward. -/
def confirm (id : Value) : Op Reward := do
  let row ← Op.transaction do
    requireTransition (← get id) .confirmed
    let now ← Op.readClock
    Op.change (Store.update rewardsTable id [
      ("status", .str RewardStatus.confirmed.name), ("confirmed_at", .instant now)])
  Op.log .info "reward_confirmed" [("reward_id", .str id.plainText)]
  Op.ofExcept (rewardOf row)

/-- Pay a reward out: a debit takes its amount from the balance. -/
def pay (cfg : Config) (id : Value) : Op RewardResult := do
  let (row, entry) ← Op.transaction do
    let reward ← get id
    requireTransition reward .paid
    let now ← Op.readClock
    let entry ← Ledger.createDebit cfg (.uuid reward.referrerId) (.decimal reward.amount) {
      currency := .str reward.currency
      rewardId := .uuid reward.id
      metadata := .object [("payout", .bool true), ("paid_at", .str now.isoText)] }
    let row ← Op.change (Store.update rewardsTable id [
      ("status", .str RewardStatus.paid.name), ("paid_at", .instant now)])
    pure (row, entry)
  Op.log .info "reward_paid"
    [("reward_id", .str id.plainText), ("entry_id", .str entry.id.text)]
  return ⟨← Op.ofExcept (rewardOf row), entry⟩

/-- Take a reward back: its credit is taken back with it. -/
def reverse (cfg : Config) (id : Value) (reason : Value := .null) : Op RewardResult := do
  let (row, reversal) ← Op.transaction do
    requireTransition (← get id) .reversed
    match ← oldestCredit id with
    | none => Op.refuse (.noCreditEntry id)
    | some credit =>
      let reversal ← Ledger.reverseEntry cfg (.uuid credit.id) reason id
      let now ← Op.readClock
      let row ← Op.change (Store.update rewardsTable id [
        ("status", .str RewardStatus.reversed.name), ("reversed_at", .instant now),
        ("reversal_reason", reason)])
      pure (row, reversal)
  Op.log .info "reward_reversed" [
    ("reward_id", .str id.plainText), ("reversal_id", .str reversal.id.text),
    ("reason", reason)]
  return ⟨← Op.ofExcept (rewardOf row), reversal⟩

/-- The reward whose oldest credit the entry is. -/
def rewardCreditedBy (entry : LedgerEntry) (id : Value) : Op (Option Uuid) := do
  match entry.rewardId with
  | none => pure none
  | some reward =>
    match ← oldestCredit (.uuid reward) with
    | none => pure none
    | some credit =>
      if ← Op.ofExcept ((Value.uuid credit.id).equalTo id) then pure (some reward)
      else pure none

/-- Take an entry back. Taking the oldest credit of a reward back takes the reward back; any other
entry of a reward cannot be taken back by itself. -/
def reverseEntry (cfg : Config) (id : Value) (reason : Value := .null) : Op LedgerEntry :=
  Op.transaction do
    let entry ← Ledger.getEntry id
    match ← rewardCreditedBy entry id with
    | some reward => return (← reverse cfg (.uuid reward) reason).entry
    | none => Ledger.reverseEntry cfg id reason

end RewardLedger.Rewards
