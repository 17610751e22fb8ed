import RewardLedger.Value.Order

/-!
# Sorting

Sorting is stable and fails if two keys that have to be compared have no order. The items at the start
that are in order already, or fall strictly, form a first run; every other item is then inserted
behind the last one that it is not less than, which is searched for by halving. Where the keys have a
consistent order this is the stable sorted list; where they have not, as with not-a-numbers, it says
which comparisons decide.
-/

namespace RewardLedger

namespace Sorting

variable {α : Type}

/-- Lengthen a run, whose last item comes first, by the items that go on falling, or not falling, and
give the run and what comes after it. -/
def extendRun (before : α → α → Except Failure Bool) (falling : Bool) :
    (run : List α) → List α → Except Failure (List α × List α)
  | last :: run, next :: rest => do
    if (← before next last) = falling then extendRun before falling (next :: last :: run) rest
    else pure (last :: run, next :: rest)
  | run, rest => .ok (run, rest)

/-- The first run in ascending order, and the items after it. -/
def firstRun (before : α → α → Except Failure Bool) :
    List α → Except Failure (List α × List α)
  | first :: second :: rest => do
    let falling ← before second first
    let (run, rest) ← extendRun before falling [second, first] rest
    pure (if falling then run else run.reverse, rest)
  | items => .ok (items, [])

/-- The place of an item between the places `low` and `high` of a sorted list, found by halving the
distance at most `fuel` times. -/
def place (before : α → α → Except Failure Bool) (item : α) (sorted : List α) :
    (fuel low high : Nat) → Except Failure Nat
  | 0, low, _ => .ok low
  | fuel + 1, low, high =>
    let middle := low + (high - low) / 2
    match sorted[middle]? with
    | some other =>
      if low < high then do
        if ← before item other then place before item sorted fuel low middle
        else place before item sorted fuel (middle + 1) high
      else .ok low
    | none => .ok low

/-- Insert an item into a sorted list. -/
def insert (before : α → α → Except Failure Bool) (sorted : List α) (item : α) :
    Except Failure (List α) := do
  let i ← place before item sorted sorted.length 0 sorted.length
  pure (sorted.take i ++ item :: sorted.drop i)

/-- Sort items. -/
def sortWith (before : α → α → Except Failure Bool) (items : List α) : Except Failure (List α) := do
  let (run, rest) ← firstRun before items
  rest.foldlM (insert before) run

end Sorting

/-- Sort items by keys of any kind with an order, in ascending order. -/
def sortOn {α κ : Type} (before : κ → κ → Except Failure Bool) (key : α → Except Failure κ)
    (items : List α) : Except Failure (List α) := do
  let keyed ← items.mapM fun item => do pure (← key item, item)
  return (← Sorting.sortWith (fun a b => before a.1 b.1) keyed).map Prod.snd

/-- Sort items by their keys, in ascending order. -/
def sortByKey {α : Type} (key : α → Except Failure SortKey) (items : List α) :
    Except Failure (List α) := sortOn SortKey.lessThan key items

/-- Sort items by their keys, in descending order; items with equal keys keep their order. -/
def sortByKeyDown {α : Type} (key : α → Except Failure SortKey) (items : List α) :
    Except Failure (List α) := do
  let keyed ← items.mapM fun item => do pure (← key item, item)
  return (← Sorting.sortWith (fun a b => a.1.lessThan b.1) keyed.reverse).reverse.map Prod.snd

end RewardLedger
