import RewardLedger.Money

/-!
# How the ledger is kept
-/

namespace RewardLedger

/-- What the operations of the ledger depend on. -/
structure Config where
  /-- How amounts are kept. -/
  money : Money
  /-- The currency of amounts that name none. -/
  currency : String
  /-- The greatest number of entries of a page. -/
  pageMax : Int
  /-- The microseconds for which a recorded request must be kept. -/
  retention : Int
  deriving DecidableEq, Repr, Inhabited

/-- The currency that a value names: the usual one for a value that counts as empty. -/
def Config.currencyOf (cfg : Config) (currency : Value) : Value :=
  currency.orElse (.str cfg.currency)

end RewardLedger
