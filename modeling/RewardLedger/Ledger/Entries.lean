import RewardLedger.Ledger.Balance
import RewardLedger.Ledger.Config
import RewardLedger.Tables
import RewardLedger.Value.Pairs
import RewardLedger.World

/-!
# The ledger

Entries are added and never changed or removed, except that an entry becomes void in the transaction
that adds the reversal which takes it back. Balances are always computed from the entries.

Arguments come unchecked, as values of any kind. An entry is checked as a record only after its
transaction has ended.
-/

namespace RewardLedger.Ledger

/-- Entries are ordered by the time at which they were made, and then by their place in the store. -/
def timeKey (row : Fields) : Except Failure SortKey := do
  pure ⟨← row.column "created_at", ← row.column sequenceColumn⟩

/-- The entry of a row. -/
def entryOf (row : Fields) : Except Failure LedgerEntry := (LedgerEntry.ofRow row).toExcept

/-- There must be a user with the identifier. -/
def requireUser (id : Value) : Op Unit := do
  if (← Op.query (·.get usersTable id)).isNone then Op.refuse (.userNotFound id)

/-! ## Reading -/

/-- The entry with the identifier. -/
def getEntry (id : Value) : Op LedgerEntry := do
  match ← Op.query (·.get entriesTable id) with
  | some row => Op.ofExcept (entryOf row)
  | none => Op.refuse (.entryNotFound id)

/-- The rows of entries with that value in a column. -/
def rowsWith (column : String) (v : Value) : Op (List Fields) :=
  Op.query (·.select entriesTable (·.columnIs column v))

/-- The entries of rows, oldest first. -/
def oldestFirst (rows : List Fields) : Except Failure (List LedgerEntry) := do
  (← sortByKey timeKey rows).mapM entryOf

/-- The entries of a user, oldest first. -/
def entriesForUser (user : Value) : Op (List LedgerEntry) := do
  Op.ofExcept (oldestFirst (← rowsWith "user_id" user))

/-- The entries of a reward, oldest first. -/
def entriesForReward (reward : Value) : Op (List LedgerEntry) := do
  Op.ofExcept (oldestFirst (← rowsWith "reward_id" reward))

/-! ## Adding -/

/-- What an entry is made from besides its user, type and amount. -/
structure EntryDetails where
  /-- The currency, or something empty for the usual one. -/
  currency : Value := .null
  /-- The reward that the entry belongs to. -/
  rewardId : Value := .null
  /-- The entry that it takes back. -/
  reversalOf : Value := .null
  /-- Further particulars. -/
  metadata : Value := .null
  deriving Repr, Inhabited

/-- The entry that is to be taken back must be there and count. -/
def requireReversible (id : Value) : Op Unit := do
  unless id.isNull do
    match ← Op.query (·.get entriesTable id) with
    | none => Op.refuse (.entryNotFound id)
    | some entry =>
      if ← Op.ofExcept (entry.columnIs "status" (.str EntryStatus.void.name)) then
        Op.refuse (.alreadyVoid id)

/-- Add the row of an entry. -/
def insertEntry (cfg : Config) (user entryType : Value) (amount : Decimal)
    (details : EntryDetails) : Op Fields := do
  let id ← Op.freshId
  let metadata ← Op.ofExcept (details.metadata.orElse (.object [])).asObject
  let now ← Op.readClock
  Op.onDuplicate
    (Op.change (Store.insert entriesTable [
      ("id", .uuid id), ("user_id", user), ("reward_id", details.rewardId),
      ("entry_type", entryType), ("amount", .decimal amount),
      ("currency", cfg.currencyOf details.currency), ("status", .str EntryStatus.posted.name),
      ("reversal_of_entry_id", details.reversalOf), ("metadata", metadata),
      ("created_at", .instant now)]))
    (Op.refuse (.alreadyReversed details.reversalOf))

/-- The name of a type of entries; no other value has a name. -/
def typeName : Value → Except Failure String
  | .str s => if (EntryType.ofName? s).isSome then .ok s else .error .noPart
  | _ => .error .noPart

/-- Add an entry. -/
def createEntry (cfg : Config) (user entryType amount : Value) (details : EntryDetails := {}) :
    Op LedgerEntry := do
  let value ← Op.ofExcept (cfg.money.positive amount)
  let stored ← Op.transaction do
    requireUser user
    requireReversible details.reversalOf
    insertEntry cfg user entryType value details
  let entryType ← Op.ofExcept (typeName entryType)
  Op.log .info "ledger_entry_posted" [
    ("entry_id", .str (stored.get "id").plainText), ("user_id", .str user.plainText),
    ("entry_type", .str entryType), ("amount", .str value.text),
    ("currency", stored.get "currency")]
  Op.ofExcept (entryOf stored)

/-- The further particulars of an entry with what made the entry among them; they must be an object
or empty. -/
def taggedMetadata (metadata : Value) (action : String) : Except Failure Value :=
  match metadata.orElse (.object []) with
  | .object fields => .ok (.object (Fields.put fields "action" (.str action)))
  | .map entries => .ok (.map (Value.putEntry entries (.str "action") (.str action)))
  | _ => .error .wrongKind

/-- Add a credit. -/
def createCredit (cfg : Config) (user amount : Value) (details : EntryDetails := {}) :
    Op LedgerEntry := do
  let metadata ← Op.ofExcept (taggedMetadata details.metadata "credit")
  createEntry cfg user (.str EntryType.credit.name) amount { details with metadata }

/-- Add a debit. -/
def createDebit (cfg : Config) (user amount : Value) (details : EntryDetails := {}) :
    Op LedgerEntry := do
  let metadata ← Op.ofExcept (taggedMetadata details.metadata "debit")
  createEntry cfg user (.str EntryType.debit.name) amount { details with metadata }

/-! ## Taking back -/

/-- The further particulars of a reversal. -/
def reversalMetadata (id reason : Value) (entry : LedgerEntry) : Value :=
  .object [
    ("action", .str "reversal"), ("reason", reason),
    ("original_entry_id", .str id.plainText),
    ("original_type", .str entry.entryType.name)]

/-- The entry may be taken back on behalf of the reward: it belongs to none or to that one. -/
def requireOwner (id : Value) (entry : LedgerEntry) (reward : Value) : Op Unit := do
  match entry.rewardId with
  | none => pure ()
  | some owner =>
    unless ← Op.ofExcept ((Value.uuid owner).equalTo reward) do
      Op.refuse (.rewardOwnedEntry id owner)

/-- Make an entry void and add the reversal that takes it back. An entry that belongs to a reward is
taken back on behalf of that reward only. -/
def reverseEntry (cfg : Config) (id : Value) (reason reward : Value := .null) :
    Op LedgerEntry := do
  let reversal ← Op.transaction do
    let entry ← getEntry id
    requireOwner id entry reward
    if entry.status = .void then Op.refuse (.alreadyVoid id)
    if (← Op.query (·.findUnique entriesTable "reversal_of_entry_id" [id])).isSome then
      Op.refuse (.alreadyReversed id)
    let reversal ← createEntry cfg (.uuid entry.userId) (.str EntryType.reversal.name)
      (.decimal entry.amount) {
        currency := .str entry.currency
        rewardId := .ofUuid? entry.rewardId
        reversalOf := id
        metadata := reversalMetadata id reason entry }
    discard <| Op.change
      (Store.update entriesTable id [("status", .str EntryStatus.void.name)])
    pure reversal
  Op.log .info "ledger_entry_reversed"
    [("entry_id", .str id.plainText), ("reversal_id", .str reversal.id.text)]
  pure reversal

/-! ## Balances -/

/-- The entries in a currency. -/
def inCurrency (currency : Value) (entries : List LedgerEntry) : List LedgerEntry :=
  entries.filter fun e => currency.sameKey (.str e.currency)

/-- The balance of entries from zero. -/
def balanceOf (cfg : Config) (entries : List LedgerEntry) : Except Failure Decimal := do
  Balance.fold cfg.money (← cfg.money.zero) (entries.map LedgerEntry.posting)

/-- The balance of a user, in all currencies together if none is given. -/
def calculateBalance (cfg : Config) (user : Value) (currency : Value := .null) : Op Decimal := do
  requireUser user
  let entries ← entriesForUser user
  Op.ofExcept (balanceOf cfg
    (if currency.isNull then entries else inCurrency currency entries))

/-- The balance of a user in one currency, with what it rests on. -/
def getBalance (cfg : Config) (user : Value) (currency : Value := .null) : Op UserBalance := do
  let currency := cfg.currencyOf currency
  let entries ← Op.transaction do
    requireUser user
    return inCurrency currency (← entriesForUser user)
  let balance ← Op.ofExcept (balanceOf cfg entries)
  Op.ofExcept (Checked.toExcept (UserBalance.mk
    <$> Checked.under (.field "user_id") (Check.uuid user)
    <*> Checked.under (.field "currency") (Check.text currency)
    <*> Checked.under (.field "current_balance") (Check.finiteDecimal balance)
    <*> pure (entries.countP fun e => e.status = .posted)
    <*> pure entries.length
    <*> pure (entries.getLast?.map LedgerEntry.createdAt)))

/-! ## Pages -/

/-- The page limit must lie between 1 and the greatest one. -/
def requireLimit (cfg : Config) (limit : Value) : Except Failure Unit := do
  if ← limit.lessThan (.int 1) then throw (.fault (.pageLimit cfg.pageMax))
  if ← limit.greaterThan (.int cfg.pageMax) then throw (.fault (.pageLimit cfg.pageMax))

/-- The number of items that a limit stands for; only whole numbers and truth values stand for
one. -/
def itemCount : Value → Except Failure Int
  | .int i => .ok i
  | .bool b => .ok (if b then 1 else 0)
  | _ => .error .wrongKind

/-- The rows after the one with the identifier, which must be an entry of the user; all rows if there
is none to start after. -/
def rowsAfter (user cursor : Value) (rows : List Fields) : Op (List Fields) := do
  if cursor.isNull then pure rows
  else
    match ← Op.query (·.get entriesTable cursor) with
    | none => Op.refuse (.entryNotFound cursor)
    | some anchor =>
      unless ← Op.ofExcept (anchor.columnIs "user_id" user) do Op.refuse (.entryNotFound cursor)
      let key ← Op.ofExcept (timeKey anchor)
      Op.ofExcept (rows.filterM fun row => do (← timeKey row).lessThan key)

/-- One page of the entries of a user, newest first. The cursor is the identifier of the last entry
of the page before; entries that are added later never come on one of the next pages, unless the
clock runs backwards. -/
def listByUser (cfg : Config) (user : Value) (cursor : Value := .null) (limit : Value := .int 20) :
    Op LedgerPage := do
  Op.ofExcept (requireLimit cfg limit)
  let rows ← Op.transaction do
    requireUser user
    let rows ← rowsWith "user_id" user
    rowsAfter user cursor (← Op.ofExcept (sortByKeyDown timeKey rows))
  let limit ← Op.ofExcept (itemCount limit)
  let hasMore := limit < (rows.length : Int)
  let entries ← Op.ofExcept ((rows.take limit.toNat).mapM entryOf)
  Op.ofExcept (Checked.toExcept (LedgerPage.mk
    <$> Checked.under (.field "user_id") (Check.uuid user)
    <*> pure entries <*> pure limit <*> pure hasMore
    <*> pure (if hasMore then entries.getLast?.map LedgerEntry.id else none)))

end RewardLedger.Ledger
