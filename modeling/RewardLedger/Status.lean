/-!
# Kinds and states of entries and rewards

A ledger entry is a credit, a debit or a reversal and is posted or void. A reward starts as pending
and moves along `RewardStatus.next`; paid and reversed rewards stay what they are.
-/

namespace RewardLedger

/-- What a ledger entry does to the balance. -/
inductive EntryType where
  /-- Adds to the balance. -/
  | credit
  /-- Takes from the balance. -/
  | debit
  /-- Marks the entry that it points at as taken back. -/
  | reversal
  deriving DecidableEq, Repr, Inhabited

/-- The types of entries. -/
def EntryType.all : List EntryType := [.credit, .debit, .reversal]

/-- The name of a type of entries. -/
def EntryType.name : EntryType → String
  | .credit => "CREDIT"
  | .debit => "DEBIT"
  | .reversal => "REVERSAL"

/-- The type of entries of a name. -/
def EntryType.ofName? (name : String) : Option EntryType := all.find? (·.name = name)

/-- Whether a ledger entry counts. -/
inductive EntryStatus where
  /-- The entry counts. -/
  | posted
  /-- The entry has been reversed and no longer counts. -/
  | void
  deriving DecidableEq, Repr, Inhabited

/-- The states of entries. -/
def EntryStatus.all : List EntryStatus := [.posted, .void]

/-- The name of a state of entries. -/
def EntryStatus.name : EntryStatus → String
  | .posted => "POSTED"
  | .void => "VOID"

/-- The state of entries of a name. -/
def EntryStatus.ofName? (name : String) : Option EntryStatus := all.find? (·.name = name)

/-- Where a reward stands. -/
inductive RewardStatus where
  /-- Credited and waiting. -/
  | pending
  /-- Confirmed and waiting for its payout. -/
  | confirmed
  /-- Paid out. -/
  | paid
  /-- Taken back. -/
  | reversed
  deriving DecidableEq, Repr, Inhabited

namespace RewardStatus

/-- The states of rewards. -/
def all : List RewardStatus := [pending, confirmed, paid, reversed]

/-- The name of a state of rewards. -/
def name : RewardStatus → String
  | pending => "PENDING"
  | confirmed => "CONFIRMED"
  | paid => "PAID"
  | reversed => "REVERSED"

/-- The state of rewards of a name. -/
def ofName? (name : String) : Option RewardStatus := all.find? (·.name = name)

/-- The states that a reward can move to. -/
def next : RewardStatus → List RewardStatus
  | pending => [confirmed, reversed]
  | confirmed => [paid, reversed]
  | paid => []
  | reversed => []

/-- A reward in the first state can move to the second. -/
def canMove (current target : RewardStatus) : Bool := current.next.contains target

/-- A state is found by its name. -/
theorem ofName?_name (s : RewardStatus) : ofName? s.name = some s := by cases s <;> decide

/-- No state can be left for itself. -/
theorem canMove_self (s : RewardStatus) : s.canMove s = false := by cases s <;> decide

end RewardStatus

/-- A type of entries is found by its name. -/
theorem EntryType.ofName?_name (t : EntryType) : ofName? t.name = some t := by
  cases t <;> decide

/-- A state of entries is found by its name. -/
theorem EntryStatus.ofName?_name (s : EntryStatus) : ofName? s.name = some s := by
  cases s <;> decide

end RewardLedger
