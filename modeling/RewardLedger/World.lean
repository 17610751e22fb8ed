import RewardLedger.Handler
import RewardLedger.Money
import RewardLedger.Store.Basic

/-!
# Operations and their surroundings

An operation works on the store, takes fresh identifiers, reads the clock and writes to the log. It
may fail, and what it did until then stays done; a transaction takes its changes of the store back,
but neither identifiers nor clock readings nor log records.
-/

namespace RewardLedger

/-- The clock. It shows the readings that are laid out in advance, one after the other; after these
each reading moves it on by the same step. -/
structure Clock where
  /-- What the next reading gives when no more readings are laid out. -/
  now : Instant
  /-- The microseconds by which such a reading moves the clock on. -/
  step : Int
  /-- The readings that are laid out in advance. -/
  planned : List Instant := []
  deriving DecidableEq, Repr, Inhabited

/-- The next reading and the clock after it. A clock that cannot be moved on cannot be read. -/
def Clock.read? (c : Clock) : Option (Instant × Clock) :=
  match c.planned with
  | t :: rest => some (t, { c with planned := rest })
  | [] => (c.now.later? c.step).map fun next => (c.now, { c with now := next })

/-- How important a log record is. -/
inductive LogLevel where
  /-- Of use when looking for errors. -/
  | debug
  /-- Normal business. -/
  | info
  /-- Something was refused. -/
  | warning
  deriving DecidableEq, Repr

/-- The name of a level. -/
def LogLevel.name : LogLevel → String
  | debug => "debug"
  | info => "info"
  | warning => "warning"

/-- A record of the log. -/
structure LogRecord where
  /-- How important it is. -/
  level : LogLevel
  /-- What happened. -/
  event : String
  /-- The particulars. -/
  details : Fields
  deriving Repr

/-- What operations work on. -/
structure World where
  /-- The store. -/
  store : Store
  /-- The clock. -/
  clock : Clock
  /-- How many identifiers have been given out. -/
  issued : Nat := 0
  /-- The log, newest record first. -/
  log : List LogRecord := []
  /-- What carries actions out. -/
  handlers : Handlers := Handlers.builtIn
  deriving Repr, Inhabited

namespace World

/-- Open a transaction, unless one is open already. -/
def enter (w : World) : World :=
  if w.store.inTransaction then w else { w with store := w.store.opened }

/-- Close the transaction that was opened in the world `outer`, if one was: its changes of the store
are kept or taken back. -/
def leave (outer w : World) (keep : Bool) : World :=
  if outer.store.inTransaction then w
  else { w with store := if keep then w.store.committed else w.store.rolledBack }

variable {w w' : World}

/-- Inside a transaction no other one is opened. -/
theorem enter_of_inTransaction (h : w.store.inTransaction = true) : w.enter = w := if_pos h

/-- Inside a transaction closing one changes nothing. -/
theorem leave_of_inTransaction (h : w.store.inTransaction = true) (keep : Bool) :
    leave w w' keep = w' := if_pos h

/-- Outside of a transaction one is opened. -/
theorem enter_of_undo_none (h : w.store.undo = none) :
    w.enter = { w with store := w.store.opened } := by
  rw [enter, Store.inTransaction, h]
  rfl

/-- A transaction that was opened is closed with its changes kept. -/
theorem leave_kept (h : w.store.undo = none) :
    leave w w' true = { w' with store := w'.store.committed } := by
  rw [leave, Store.inTransaction, h]
  rfl

/-- A transaction that was opened is closed with its changes taken back. -/
theorem leave_givenUp (h : w.store.undo = none) :
    leave w w' false = { w' with store := w'.store.rolledBack } := by
  rw [leave, Store.inTransaction, h]
  rfl

/-- Opening a transaction and keeping its changes leaves the store as it is. -/
theorem committed_enter (h : w.store.undo = none) : w.enter.store.committed = w.store := by
  rw [enter_of_undo_none h]
  exact congrArg (fun undo => { w.store with undo }) h.symm

end World

/-- An operation; what it has done before it fails stays done. -/
abbrev Op := ExceptT Failure (StateM World)

namespace Op

/-- Run an operation. -/
def perform {α : Type} (op : Op α) (w : World) : Except Failure α × World := op.run.run w

/-- The result of a computation that does not look at the world. -/
def ofExcept {α : Type} (result : Except Failure α) : Op α := liftM result

/-- The answer of the store to a question. -/
def query {α : Type} (question : Store → Except Failure α) : Op α := do
  ofExcept (question (← get).store)

/-- Change the store. -/
def change {α : Type} (action : StoreM α) : Op α := do
  let w ← get
  let (result, store) := action.run.run w.store
  set { w with store }
  ofExcept result

/-- A fresh identifier: the number of identifiers given out so far, this one included. -/
def freshId : Op Uuid := do
  let w ← get
  set { w with issued := w.issued + 1 }
  pure ⟨w.issued + 1⟩

/-- Read the clock and move it on. -/
def readClock : Op Instant := do
  let w ← get
  match w.clock.read? with
  | some (now, clock) =>
    set { w with clock }
    pure now
  | none => throw .outOfRange

/-- Write a record to the log. -/
def log (level : LogLevel) (event : String) (details : Fields) : Op Unit :=
  modify fun w => { w with log := ⟨level, event, details⟩ :: w.log }

/-- Do all of the body or nothing: if the body fails, its changes of the store are taken back. Inside
another transaction the body is part of that one, which alone decides. -/
def transaction {α : Type} (body : Op α) : Op α := fun w =>
  let (result, w') := body w.enter
  (result, World.leave w w' result.isOk)

/-- Refuse for a reason of the domain. -/
def refuse {α : Type} (fault : Fault) : Op α := throw (.fault fault)

/-- Do the body, and if a unique constraint is violated do something else instead. -/
def onDuplicate {α : Type} (body : Op α) (otherwise : Op α) : Op α :=
  tryCatch body fun e =>
    match e with
    | .duplicate .. => otherwise
    | e => throw e

end Op

/-! ## Rows -/

/-- The value of a column that the row must have. -/
def Fields.column (row : Fields) (name : String) : Except Failure Value :=
  match row.find? name with
  | some v => .ok v
  | none => .error (.noColumn name)

/-- The column that the row must have equals the value. -/
def Fields.columnIs (row : Fields) (name : String) (v : Value) : Except Failure Bool := do
  (← row.column name).equalTo v

end RewardLedger
