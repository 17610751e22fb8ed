import RewardLedger.Value.Sorting

/-!
# Tables

A table holds rows in the order in which they were added, and for each of its unique indexes the
composite keys that are taken. A row with a null among the columns of an index has no key there and
collides with no other. Which columns of a row may change later is fixed for the whole table. Rows
are read in the order in which they were added, unless the table lets their places be changed.
-/

namespace RewardLedger

/-- The column in which each row carries its place in the order of all rows. -/
def sequenceColumn : String := "_seq"

/-! ## Indexes -/

/-- A unique index of a table. -/
structure Index where
  /-- The name of the index. -/
  name : String
  /-- The columns whose values form the key. -/
  columns : List String
  /-- The keys that are taken, each with the primary key of its row. -/
  entries : List (List Value × Value) := []
  deriving Repr, Inhabited

namespace Index

/-- The key of a row in the index, if none of its columns is null. -/
def keyOf? (ix : Index) (row : Fields) : Option (List Value) :=
  let key := ix.columns.map row.get
  if key.any Value.isNull then none else some key

/-- The primary key that is entered under a key. -/
def find? (ix : Index) (key : List Value) : Option Value :=
  (ix.entries.find? fun e => Value.sameKeys e.1 key).map Prod.snd

/-- Enter a primary key under a key, in place of what was entered there. -/
def enter : List (List Value × Value) → List Value → Value → List (List Value × Value)
  | [], key, pk => [(key, pk)]
  | (k, p) :: rest, key, pk =>
    if Value.sameKeys k key then (k, pk) :: rest else (k, p) :: enter rest key pk

/-- The index with the row entered under the given primary key. -/
def add (ix : Index) (row : Fields) (pk : Value) : Index :=
  match ix.keyOf? row with
  | none => ix
  | some key => { ix with entries := enter ix.entries key pk }

/-- The index without the key of the row. -/
def remove (ix : Index) (row : Fields) : Index :=
  match ix.keyOf? row with
  | none => ix
  | some key => { ix with entries := ix.entries.filter fun e => !Value.sameKeys e.1 key }

/-- Adding a row keeps the name of the index. -/
@[simp] theorem name_add (ix : Index) (row : Fields) (pk : Value) :
    (ix.add row pk).name = ix.name := by
  simp only [add]; split <;> rfl

/-- Removing a row keeps the name of the index. -/
@[simp] theorem name_remove (ix : Index) (row : Fields) : (ix.remove row).name = ix.name := by
  simp only [remove]; split <;> rfl

/-- Adding a row keeps the columns of the index. -/
@[simp] theorem columns_add (ix : Index) (row : Fields) (pk : Value) :
    (ix.add row pk).columns = ix.columns := by
  simp only [add]; split <;> rfl

/-- Removing a row keeps the columns of the index. -/
@[simp] theorem columns_remove (ix : Index) (row : Fields) :
    (ix.remove row).columns = ix.columns := by
  simp only [remove]; split <;> rfl

end Index

/-! ## Rows and tables -/

/-- A row of a table. -/
structure Row where
  /-- The place of the row in the order of all rows ever offered to the store. -/
  seq : Nat
  /-- The primary key under which the row was added. -/
  key : Value
  /-- The columns of the row. -/
  columns : Fields
  deriving Repr, Inhabited

/-- A table with its rows and indexes. -/
structure Table where
  /-- The column of the primary key. -/
  primaryKey : String := "id"
  /-- The columns that may change. -/
  mutableColumns : List String := []
  /-- The unique indexes. -/
  indexes : List Index := []
  /-- The rows in the order in which they were added. -/
  rows : List Row := []
  deriving Repr, Inhabited

namespace Table

/-- The row with the given primary key. -/
def find? (t : Table) (key : Value) : Option Row := t.rows.find? fun r => r.key.sameKey key

/-- The row that an index has under a key with that primary key. A primary key with a not-a-number
in it, which equals nothing, still belongs to the row that has it, unless the index, which keeps a
copy, has another thing of the surroundings there. -/
def entered? (t : Table) (ix : Index) (key : List Value) (pk : Value) : Option Row :=
  if pk.isUnordered && !pk.holdsOpaque then
    t.rows.find? fun r => r.key.isUnordered && (ix.keyOf? r.columns).any (Value.sameKeys · key)
  else t.find? pk

/-- The rows as they are read: in the order of the places that they hold. Only a table that lets the
places be changed has to be put in that order. -/
def inOrder (t : Table) : Except Failure (List Fields) :=
  let rows := t.rows.map Row.columns
  if t.mutableColumns.contains sequenceColumn then
    sortOn Value.lessThan (fun row => .ok (row.get sequenceColumn)) rows
  else .ok rows

/-- A table that keeps the places of its rows is read in the order in which they were added. -/
theorem inOrder_of_notMem {t : Table} (h : sequenceColumn ∉ t.mutableColumns) :
    t.inOrder = .ok (t.rows.map Row.columns) := by
  simp [inOrder, h]

/-- Enter a row in every index. -/
def index (t : Table) (row : Fields) : Table :=
  { t with indexes := t.indexes.map fun ix => ix.add row (row.get t.primaryKey) }

/-- Remove the keys of a row from every index. -/
def unindex (t : Table) (row : Fields) : Table :=
  { t with indexes := t.indexes.map fun ix => ix.remove row }

/-- Why a row cannot be entered in the indexes, if it cannot: its key is taken in the first index
that refuses it, or is no possible key there. -/
def refusal? (t : Table) (table : String) (row : Fields) : Option Failure :=
  t.indexes.findSome? fun ix =>
    match ix.keyOf? row with
    | none => none
    | some key =>
      if !Value.allHashable key then some .wrongKind
      else if (ix.find? key).isSome then some (.duplicate table ix.name key)
      else none

/-- Add a row at the end and enter it in the indexes. -/
def append (t : Table) (row : Row) : Table :=
  { t with rows := t.rows ++ [row] }.index row.columns

/-- Replace the columns of the row with that place. -/
def setColumns (t : Table) (seq : Nat) (columns : Fields) : Table :=
  { t with rows := t.rows.map fun r => if r.seq = seq then { r with columns } else r }

/-- Take the row with that place out of the table and its indexes. -/
def discard (t : Table) (seq : Nat) : Table :=
  match t.rows.find? fun r => r.seq = seq with
  | none => t
  | some row => { t with rows := t.rows.filter fun r => r.seq ≠ seq }.unindex row.columns

/-- Give columns of the row with that place their previous values back. -/
def restore (t : Table) (seq : Nat) (previous : Fields) : Table :=
  match t.rows.find? fun r => r.seq = seq with
  | none => t
  | some row =>
    let columns := row.columns.putAll previous
    ((t.unindex row.columns).setColumns seq columns).index columns

/-- A primary key that is no not-a-number leads to the row that has an equal one. -/
theorem entered?_of_ordered (t : Table) (ix : Index) (key : List Value) {pk : Value}
    (h : pk.isUnordered = false) : t.entered? ix key pk = t.find? pk := by
  simp [entered?, h]

/-- Entering a row in the indexes keeps the rows. -/
@[simp] theorem rows_index (t : Table) (row : Fields) : (t.index row).rows = t.rows := rfl

/-- Removing keys from the indexes keeps the rows. -/
@[simp] theorem rows_unindex (t : Table) (row : Fields) : (t.unindex row).rows = t.rows := rfl

/-- A row that was added stands behind the others. -/
@[simp] theorem rows_append (t : Table) (row : Row) : (t.append row).rows = t.rows ++ [row] := rfl

end Table

end RewardLedger
