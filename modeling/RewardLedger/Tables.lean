import RewardLedger.Store.Basic

/-!
# The tables of the ledger

Users are found by their email; of a user only the name may change. Of a ledger entry only the
status may change, and an entry is reversed by at most one other. Rewards are found by their
idempotency key and change with their state. Recorded requests never change. Of a rule only whether
it is active may change, and a name has each version once.
-/

namespace RewardLedger

/-- The name of the table of users. -/
def usersTable : String := "users"

/-- The name of the table of ledger entries. -/
def entriesTable : String := "ledger_entries"

/-- The name of the table of rewards. -/
def rewardsTable : String := "rewards"

/-- The name of the table of recorded requests. -/
def requestsTable : String := "idempotency_keys"

/-- The name of the table of rules. -/
def rulesTable : String := "rules"

/-- The store with the empty tables of the ledger. -/
def Store.ledger : Store where
  tables := [
    (usersTable, {
      mutableColumns := ["name"]
      indexes := [{ name := "email", columns := ["email"] }] }),
    (entriesTable, {
      mutableColumns := ["status"]
      indexes := [{ name := "reversal_of_entry_id", columns := ["reversal_of_entry_id"] }] }),
    (rewardsTable, {
      mutableColumns := ["status", "confirmed_at", "paid_at", "reversed_at", "reversal_reason"]
      indexes := [{ name := "idempotency_key", columns := ["idempotency_key"] }] }),
    (requestsTable, { primaryKey := "key" }),
    (rulesTable, {
      mutableColumns := ["is_active"]
      indexes := [{ name := "name_version", columns := ["name", "version"] }] })]

end RewardLedger
