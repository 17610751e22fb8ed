import RewardLedger.Ledger.Records
import RewardLedger.Money

/-!
# The balance

A balance is what the entries of a history come to: a posted credit adds its amount, a posted debit
takes it, and all other entries do nothing. A reversal does nothing itself; its effect is that the
entry it takes back is void.
-/

namespace RewardLedger

/-- An entry as far as the balance depends on it. -/
structure Posting where
  /-- What the entry does to the balance. -/
  entryType : EntryType
  /-- Whether it counts. -/
  status : EntryStatus
  /-- The amount. -/
  amount : Decimal
  deriving DecidableEq, Repr, Inhabited

/-- The entry as far as the balance depends on it. -/
def LedgerEntry.posting (e : LedgerEntry) : Posting := ⟨e.entryType, e.status, e.amount⟩

namespace Balance

/-- The balance after one more entry. -/
def step (money : Money) (balance : Decimal) (p : Posting) : Except Failure Decimal :=
  match p.status, p.entryType with
  | .posted, .credit => money.add balance p.amount
  | .posted, .debit => money.subtract balance p.amount
  | _, _ => .ok balance

/-- The balance after several more entries. -/
def fold (money : Money) (start : Decimal) (postings : List Posting) : Except Failure Decimal :=
  postings.foldlM (step money) start

/-- Folding the first part of a history and then the rest is folding all of it. -/
theorem fold_append (money : Money) (start : Decimal) (before after : List Posting) :
    fold money start (before ++ after) =
      (fold money start before).bind fun balance => fold money balance after := by
  simp only [fold, List.foldlM_append]
  rfl

/-- A void entry does not change the balance. -/
theorem step_void (money : Money) (balance amount : Decimal) (entryType : EntryType) :
    step money balance ⟨entryType, .void, amount⟩ = .ok balance := by
  cases entryType <;> rfl

end Balance

end RewardLedger
