import RewardLedger.Schema.Kinds
import RewardLedger.Value.Json

/-!
# Records

What the ledger answers with. Rows become records by a lenient check of their columns, and records
become objects of JSON kinds: decimals, identifiers and instants are written as texts.
-/

namespace RewardLedger

/-! ## Parts in JSON -/

/-- An identifier in JSON. -/
def Uuid.json (u : Uuid) : Value := .str u.text

/-- A decimal in JSON. -/
def Decimal.json (d : Decimal) : Value := .str d.text

/-- An instant in JSON. -/
def Instant.json (t : Instant) : Value := .str t.zuluText

/-- An optional part in JSON, null standing for nothing. -/
def Value.ofOption {α : Type} (json : α → Value) : Option α → Value
  | some a => json a
  | none => .null

/-! ## Users -/

/-- A user. -/
structure User where
  /-- The identifier. -/
  id : Uuid
  /-- The email, without blanks at its ends and in lower case. -/
  email : String
  /-- The name to show. -/
  name : Option String
  /-- When the user was added. -/
  createdAt : Instant
  deriving DecidableEq, Repr, Inhabited

namespace User

/-- Read a user from its row. -/
def ofRow (row : Fields) : Checked User :=
  User.mk <$> row.required "id" Check.uuid <*> row.required "email" Check.text
    <*> row.defaulting "name" none (Check.optional Check.text)
    <*> row.required "created_at" Check.instant

/-- A user in JSON. -/
def json (u : User) : Value :=
  .object [("id", u.id.json), ("email", .str u.email), ("name", .ofOption .str u.name),
    ("created_at", u.createdAt.json)]

end User

/-! ## Entries of the ledger -/

/-- An entry of the ledger. -/
structure LedgerEntry where
  /-- The identifier. -/
  id : Uuid
  /-- The user whose balance it concerns. -/
  userId : Uuid
  /-- The reward that it belongs to, if it belongs to one. -/
  rewardId : Option Uuid
  /-- What it does to the balance. -/
  entryType : EntryType
  /-- The amount. -/
  amount : Decimal
  /-- The currency. -/
  currency : String
  /-- Whether it counts. -/
  status : EntryStatus
  /-- The entry that it takes back, if it takes one back. -/
  reversalOf : Option Uuid
  /-- Further particulars: an object. -/
  metadata : Value
  /-- When it was made. -/
  createdAt : Instant
  deriving Repr, Inhabited

namespace LedgerEntry

/-- Read an entry from its row. -/
def ofRow (row : Fields) : Checked LedgerEntry :=
  LedgerEntry.mk <$> row.required "id" Check.uuid <*> row.required "user_id" Check.uuid
    <*> row.defaulting "reward_id" none (Check.optional Check.uuid)
    <*> row.required "entry_type" (Check.member EntryType.ofName?)
    <*> row.required "amount" Check.decimal
    <*> row.defaulting "currency" "INR" Check.text
    <*> row.defaulting "status" .posted (Check.member EntryStatus.ofName?)
    <*> row.defaulting "reversal_of_entry_id" none (Check.optional Check.uuid)
    <*> row.defaulting "metadata" (.object []) Check.mapping
    <*> row.required "created_at" Check.instant

/-- An entry in JSON. -/
def json (e : LedgerEntry) : Except Failure Value := do
  let metadata ← e.metadata.jsonForm
  pure (.object [
    ("id", e.id.json), ("user_id", e.userId.json), ("reward_id", .ofOption Uuid.json e.rewardId),
    ("entry_type", .str e.entryType.name), ("amount", e.amount.json),
    ("currency", .str e.currency), ("status", .str e.status.name),
    ("reversal_of_entry_id", .ofOption Uuid.json e.reversalOf), ("metadata", metadata),
    ("created_at", e.createdAt.json)])

end LedgerEntry

/-! ## Rewards -/

/-- A reward. -/
structure Reward where
  /-- The identifier. -/
  id : Uuid
  /-- The key under which it was requested. -/
  idempotencyKey : String
  /-- The user who is rewarded. -/
  referrerId : Uuid
  /-- The user who was referred. -/
  referredId : Uuid
  /-- Where it stands. -/
  status : RewardStatus
  /-- The amount. -/
  amount : Decimal
  /-- The currency. -/
  currency : String
  /-- Further particulars: an object. -/
  metadata : Value
  /-- When it was credited. -/
  createdAt : Instant
  /-- When it was confirmed. -/
  confirmedAt : Option Instant
  /-- When it was paid out. -/
  paidAt : Option Instant
  /-- When it was taken back. -/
  reversedAt : Option Instant
  /-- Why it was taken back. -/
  reversalReason : Option String
  deriving Repr, Inhabited

namespace Reward

/-- Read a reward from its row. -/
def ofRow (row : Fields) : Checked Reward :=
  Reward.mk <$> row.required "id" Check.uuid <*> row.required "idempotency_key" Check.text
    <*> row.required "referrer_id" Check.uuid <*> row.required "referred_id" Check.uuid
    <*> row.required "status" (Check.member RewardStatus.ofName?)
    <*> row.required "amount" Check.decimal
    <*> row.defaulting "currency" "INR" Check.text
    <*> row.defaulting "metadata" (.object []) Check.mapping
    <*> row.required "created_at" Check.instant
    <*> row.defaulting "confirmed_at" none (Check.optional Check.instant)
    <*> row.defaulting "paid_at" none (Check.optional Check.instant)
    <*> row.defaulting "reversed_at" none (Check.optional Check.instant)
    <*> row.defaulting "reversal_reason" none (Check.optional Check.text)

/-- A reward in JSON. -/
def json (r : Reward) : Except Failure Value := do
  let metadata ← r.metadata.jsonForm
  pure (.object [
    ("id", r.id.json), ("idempotency_key", .str r.idempotencyKey),
    ("referrer_id", r.referrerId.json), ("referred_id", r.referredId.json),
    ("status", .str r.status.name), ("amount", r.amount.json), ("currency", .str r.currency),
    ("metadata", metadata), ("created_at", r.createdAt.json),
    ("confirmed_at", .ofOption Instant.json r.confirmedAt),
    ("paid_at", .ofOption Instant.json r.paidAt),
    ("reversed_at", .ofOption Instant.json r.reversedAt),
    ("reversal_reason", .ofOption .str r.reversalReason)])

end Reward

/-- A reward together with the ledger entry that an operation made for it. -/
structure RewardResult where
  /-- The reward. -/
  reward : Reward
  /-- The entry. -/
  entry : LedgerEntry
  deriving Repr, Inhabited

/-- A reward and its entry in JSON. -/
def RewardResult.json (r : RewardResult) : Except Failure Value := do
  let reward ← r.reward.json
  let entry ← r.entry.json
  pure (.object [("reward", reward), ("ledger_entry", entry)])

/-- The answer to a request for a credit. -/
structure CreditResult where
  /-- The reward. -/
  reward : Reward
  /-- The entry that credits it. -/
  entry : LedgerEntry
  /-- The answer repeats that to an earlier request. -/
  replayed : Bool
  deriving Repr, Inhabited

namespace CreditResult

/-- Read an answer from its fields. -/
def ofFields (fields : Fields) : Checked CreditResult :=
  CreditResult.mk <$> fields.required "reward" (Check.partsOf Reward.ofRow)
    <*> fields.required "ledger_entry" (Check.partsOf LedgerEntry.ofRow)
    <*> fields.defaulting "replayed" false Check.bool

/-- An answer in JSON. -/
def json (r : CreditResult) : Except Failure Value := do
  let reward ← r.reward.json
  let entry ← r.entry.json
  pure (.object [("reward", reward), ("ledger_entry", entry), ("replayed", .bool r.replayed)])

end CreditResult

/-! ## Recorded requests -/

/-- A request that was carried out, with the answer to it. -/
structure RequestRecord where
  /-- The key of the request. -/
  key : String
  /-- The fingerprint of what was requested. -/
  requestHash : String
  /-- The answer. -/
  response : Fields
  /-- When the request was carried out. -/
  createdAt : Instant
  /-- From when on the record may be removed. -/
  expiresAt : Instant
  deriving Repr, Inhabited

namespace RequestRecord

/-- Read a record from its row. -/
def ofRow (row : Fields) : Checked RequestRecord :=
  RequestRecord.mk <$> row.required "key" Check.text <*> row.required "request_hash" Check.text
    <*> row.required "response" Check.object <*> row.required "created_at" Check.instant
    <*> row.required "expires_at" Check.instant

/-- The record may be removed. -/
def isExpired (r : RequestRecord) (now : Instant) : Bool := r.expiresAt.notAfter now

/-- A record in JSON. -/
def json (r : RequestRecord) : Except Failure Value := do
  let response ← (Value.object r.response).jsonForm
  pure (.object [
    ("key", .str r.key), ("request_hash", .str r.requestHash), ("response", response),
    ("created_at", r.createdAt.json), ("expires_at", r.expiresAt.json)])

end RequestRecord

/-! ## Views of the ledger -/

/-- What a user's entries in one currency come to. -/
structure UserBalance where
  /-- The user. -/
  userId : Uuid
  /-- The currency. -/
  currency : String
  /-- The balance. -/
  balance : Decimal
  /-- How many of the entries count. -/
  postedEntries : Nat
  /-- How many entries there are. -/
  totalEntries : Nat
  /-- When the last entry was made. -/
  lastAt : Option Instant
  deriving Repr, Inhabited

/-- A balance in JSON. -/
def UserBalance.json (b : UserBalance) : Value :=
  .object [
    ("user_id", b.userId.json), ("currency", .str b.currency),
    ("current_balance", b.balance.json), ("posted_entries", .int b.postedEntries),
    ("total_entries", .int b.totalEntries),
    ("last_transaction_at", .ofOption Instant.json b.lastAt)]

/-- One page of a user's entries, newest first. -/
structure LedgerPage where
  /-- The user. -/
  userId : Uuid
  /-- The entries of the page. -/
  entries : List LedgerEntry
  /-- The greatest number of entries of the page. -/
  limit : Int
  /-- There are older entries. -/
  hasMore : Bool
  /-- Where the next page starts, if there is one. -/
  nextCursor : Option Uuid
  deriving Repr, Inhabited

/-- A page in JSON. -/
def LedgerPage.json (p : LedgerPage) : Except Failure Value := do
  let entries ← p.entries.mapM LedgerEntry.json
  pure (.object [
    ("user_id", p.userId.json), ("entries", .list entries), ("limit", .int p.limit),
    ("has_more", .bool p.hasMore), ("next_cursor", .ofOption Uuid.json p.nextCursor)])

end RewardLedger
