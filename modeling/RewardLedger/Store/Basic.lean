import RewardLedger.Store.Table
import RewardLedger.Text.Ordered

/-!
# The store

Named tables with transactions. Rows are never deleted; only the columns that a table declares
mutable change. While a transaction is open the store keeps the changes made in it, newest first, and
takes them back if the transaction is given up. The numbers that order the rows are used up by
refused rows too and never given out again.

`insert` and `update` are the only changes; each of them answers with the stored row.
-/

namespace RewardLedger

/-- A change that can be taken back. -/
inductive Undo where
  /-- The row with that place was added to the table. -/
  | inserted (table : String) (seq : Nat)
  /-- Columns of the row with that place had these values. -/
  | updated (table : String) (seq : Nat) (previous : Fields)
  deriving Repr

/-- The store. -/
structure Store where
  /-- The tables by name. -/
  tables : List (String × Table)
  /-- The changes of the open transaction, newest first, if one is open. -/
  undo : Option (List Undo) := none
  /-- The place of the next row. -/
  nextSeq : Nat := 1
  deriving Repr, Inhabited

/-- A change of the store that may fail; what it has changed before it fails stays changed. -/
abbrev StoreM := ExceptT Failure (StateM Store)

namespace Store

/-! ## Tables by name -/

/-- The table of a name. -/
def table? (s : Store) (name : String) : Option Table :=
  (s.tables.find? fun t => t.1 = name).map Prod.snd

/-- The table of a name, which must exist. -/
def table (s : Store) (name : String) : Except Failure Table :=
  match s.table? name with
  | some t => .ok t
  | none => .error (.unknownTable (.str name))

/-- Change the table of a name. -/
def modifyTable (s : Store) (name : String) (f : Table → Table) : Store :=
  { s with tables := s.tables.map fun t => if t.1 = name then (t.1, f t.2) else t }

/-! ## Reading -/

/-- The row of a table with that primary key. -/
def get (s : Store) (name : String) (key : Value) : Except Failure (Option Fields) := do
  let t ← s.table name
  if key.hashable then pure ((t.find? key).map Row.columns) else throw .wrongKind

/-- The row that an index of a table has under that key. -/
def findUnique (s : Store) (name index : String) (key : List Value) :
    Except Failure (Option Fields) := do
  let t ← s.table name
  match t.indexes.find? fun ix => ix.name = index with
  | none => throw (.unknownIndex name index)
  | some ix =>
    if Value.allHashable key then
      match ix.find? key with
      | none => pure none
      | some pk =>
        if pk.hashable then pure ((t.entered? ix key pk).map Row.columns) else throw .wrongKind
    else throw .wrongKind

/-- The rows of a table that are to be kept, in the order of their places. -/
def select (s : Store) (name : String) (keep : Fields → Except Failure Bool) :
    Except Failure (List Fields) := do
  let t ← s.table name
  (← t.inOrder).filterM keep

/-- All rows of a table, in the order of their places. -/
def all (s : Store) (name : String) : Except Failure (List Fields) := do
  (← s.table name).inOrder

/-- The number of rows of a table. -/
def count (s : Store) (name : String) : Except Failure Nat := do
  let t ← s.table name
  pure t.rows.length

/-! ## Transactions -/

/-- A transaction is open. -/
def inTransaction (s : Store) : Bool := s.undo.isSome

/-- Open a transaction. -/
def opened (s : Store) : Store := { s with undo := some [] }

/-- Remember a change, if a transaction is open. -/
def remember (s : Store) (u : Undo) : Store := { s with undo := s.undo.map (u :: ·) }

/-- Take one change back. -/
def revert (s : Store) : Undo → Store
  | .inserted name seq => s.modifyTable name (·.discard seq)
  | .updated name seq previous => s.modifyTable name (·.restore seq previous)

/-- Close the open transaction and keep its changes. -/
def committed (s : Store) : Store := { s with undo := none }

/-- Close the open transaction and take its changes back, the newest first. -/
def rolledBack (s : Store) : Store :=
  { (s.undo.getD []).foldl revert s with undo := none }

/-! ## Changing -/

/-- The next place, which is then used up. -/
def takeSeq : StoreM Nat := do
  let s ← getThe Store
  set { s with nextSeq := s.nextSeq + 1 }
  pure s.nextSeq

/-- Add a row to a table. -/
def insert (name : String) (row : Fields) : StoreM Fields := do
  let t ← liftM ((← getThe Store).table name)
  let key := row.get t.primaryKey
  if key.isNull then throw (.noPrimaryKey name t.primaryKey)
  unless key.hashable do throw .wrongKind
  if (t.find? key).isSome then throw (.duplicate name t.primaryKey [key])
  let seq ← takeSeq
  let columns := row.put sequenceColumn (.int seq)
  match t.refusal? name columns with
  | some refusal => throw refusal
  | none =>
    modify fun s => (s.modifyTable name (·.append ⟨seq, key, columns⟩)).remember
      (.inserted name seq)
    pure columns

/-- Change columns of the row of a table with that primary key. A refusal because of a taken key
leaves the indexes as they were; a value that cannot be a key leaves the row out of them. -/
def update (name : String) (key : Value) (changes : Fields) : StoreM Fields := do
  let t ← liftM ((← getThe Store).table name)
  let illegal := Text.inOrder (changes.names.filter fun c => !t.mutableColumns.contains c)
  unless illegal.isEmpty do throw (.immutable name illegal)
  unless key.hashable do throw .wrongKind
  match t.find? key with
  | none => throw (.unknownRow name key)
  | some row =>
    let columns := row.columns.putAll changes
    let bare := t.unindex row.columns
    match bare.refusal? name columns with
    | some refusal =>
      let kept := match refusal with
        | .duplicate .. => bare.index row.columns
        | _ => bare
      modify fun s => s.modifyTable name fun _ => kept
      throw refusal
    | none =>
      let previous := changes.names.map fun c => (c, row.columns.get c)
      modify fun s => (s.modifyTable name fun _ =>
        (bare.setColumns row.seq columns).index columns).remember (.updated name row.seq previous)
      pure columns

/-- Opening a transaction keeps the tables. -/
@[simp] theorem tables_opened (s : Store) : s.opened.tables = s.tables := rfl

/-- Closing a transaction in which nothing changed keeps the tables. -/
theorem tables_rolledBack_opened (s : Store) : s.opened.rolledBack.tables = s.tables := rfl

end Store

end RewardLedger
