import RewardLedger.Ledger.Config
import RewardLedger.Ledger.Records
import RewardLedger.Sha256
import RewardLedger.Tables
import RewardLedger.World

/-!
# Recorded requests

A request for a credit carries a key. The first request with a key is recorded with its fingerprint
and its answer; a later one with the same fingerprint gets the recorded answer, and one with another
fingerprint is refused. The fingerprint is the digest of a canonical text of what is requested.

Records are kept even when they have expired; `expired` lists those that may be removed.
-/

namespace RewardLedger.Requests

/-- The canonical text of a request. -/
def canonicalText (cfg : Config) (referrer referred amount currency : Value) :
    Except Failure String := do
  let value ← cfg.money.parse amount
  let request : Value := .object [
    ("referrer_id", .str referrer.plainText), ("referred_id", .str referred.plainText),
    ("amount", .str value.text), ("currency", currency)]
  match request.canonical? with
  | some cs => pure (String.ofList cs)
  | none => throw .wrongKind

/-- The fingerprint of a request. -/
def fingerprint (cfg : Config) (referrer referred amount currency : Value) :
    Except Failure String := do
  let text ← canonicalText cfg referrer referred amount currency
  pure (Sha256.hexDigest text.toUTF8.toList)

/-- What is known of a request when it comes. -/
inductive Standing where
  /-- Nothing: the request is new. -/
  | fresh
  /-- It was carried out before, with this answer. -/
  | answered (response : Value)
  deriving Repr

/-- What is known of a request with that key and fingerprint. -/
def check (key fingerprint : Value) : Op Standing := do
  match ← Op.query (·.get requestsTable key) with
  | none => pure .fresh
  | some row =>
    if ← Op.ofExcept (row.columnIs "request_hash" fingerprint) then
      return .answered (← Op.ofExcept (row.column "response"))
    else
      Op.log .warning "idempotency_key_conflict" [("idempotency_key", key)]
      Op.refuse .idempotencyConflict

/-- The record of a row. -/
def recordOf (row : Fields) : Except Failure RequestRecord := (RequestRecord.ofRow row).toExcept

/-- Record a request with its answer. -/
def record (cfg : Config) (key fingerprint response : Value) : Op RequestRecord := do
  let now ← Op.readClock
  match now.later? cfg.retention with
  | none => throw .outOfRange
  | some expiry =>
    let stored ← Op.change (Store.insert requestsTable [
      ("key", key), ("request_hash", fingerprint), ("response", response),
      ("created_at", .instant now), ("expires_at", .instant expiry)])
    Op.ofExcept (recordOf stored)

/-- The record with the key, if there is one. -/
def get? (key : Value) : Op (Option RequestRecord) := do
  match ← Op.query (·.get requestsTable key) with
  | some row => Op.ofExcept (some <$> recordOf row)
  | none => pure none

/-- A value at or after which something has expired: the current time if none is given. -/
def orNow (now : Value) : Op Value := do
  if now.truthy then pure now else return .instant (← Op.readClock)

/-- The records that may be removed at that time. -/
def expired (now : Value := .null) : Op (List RequestRecord) := do
  let now ← orNow now
  let rows ← Op.query (·.select requestsTable fun row => do
    now.related .atLeast (← row.column "expires_at"))
  Op.ofExcept (rows.mapM recordOf)

end RewardLedger.Requests
