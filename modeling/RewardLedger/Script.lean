import RewardLedger.World

/-!
# Scripts

A script is a list of steps. A step is a call or a transaction of further steps. A step that fails
ends the transaction around it, unless the step is marked as caught; at the top a failure ends
nothing. A transaction may also be given up on purpose when its steps are done. Every step is
reported, those of a failed transaction up to the one that failed.
-/

namespace RewardLedger

/-- A step of a script that makes calls of the type `κ`. -/
inductive Step (κ : Type) where
  /-- A call. -/
  | call (action : κ) (caught : Bool)
  /-- A transaction. -/
  | transaction (steps : List (Step κ)) (abandon caught : Bool)
  deriving Repr

/-- What a step did. -/
inductive Report where
  /-- A call: its result, the number of rows of each table after it, and what it wrote to the log. -/
  | call (result : Except Failure Value) (counts : List (String × Nat)) (log : List LogRecord)
  /-- A transaction: the reports of its steps, and the failure that ended it, if one did. -/
  | transaction (steps : List Report) (failure : Option Failure)

/-- The failure of a step. -/
def Report.failure? : Report → Option Failure
  | call (.error e) .. => some e
  | call (.ok _) .. => none
  | transaction _ failure => failure

/-- The failure of the step does not end the transaction around it. -/
def Step.isCaught {κ : Type} : Step κ → Bool
  | call _ caught => caught
  | transaction _ _ caught => caught

namespace World

/-- The number of rows of each table. -/
def counts (w : World) : List (String × Nat) :=
  w.store.tables.map fun t => (t.1, t.2.rows.length)

/-- The records of the log that were written since it had so many. -/
def logSince (w : World) (before : Nat) : List LogRecord :=
  (w.log.take (w.log.length - before)).reverse

end World

variable {κ : Type}

mutual

/-- Run a step. -/
def Step.run (perform : κ → Op Value) : Step κ → World → Report × World
  | .call action _, w =>
    let (result, w') := (perform action).perform w
    (.call result w'.counts (w'.logSince w.log.length), w')
  | .transaction steps abandon _, w =>
    let (reports, failure, w') := Step.runBody perform steps w.enter
    let failure := failure <|> (if abandon then some .abandoned else none)
    (.transaction reports failure, World.leave w w' failure.isNone)

/-- Run the steps of a transaction, up to one that fails without being caught. -/
def Step.runBody (perform : κ → Op Value) : List (Step κ) → World →
    List Report × Option Failure × World
  | [], w => ([], none, w)
  | step :: rest, w =>
    let (report, w') := step.run perform w
    match report.failure?, step.isCaught with
    | some e, false => ([report], some e, w')
    | _, _ =>
      let (reports, failure, w'') := Step.runBody perform rest w'
      (report :: reports, failure, w'')

end

/-- Run the steps of a script. -/
def Step.runAll (perform : κ → Op Value) : List (Step κ) → World → List Report × World
  | [], w => ([], w)
  | step :: rest, w =>
    let (report, w') := step.run perform w
    let (reports, w'') := Step.runAll perform rest w'
    (report :: reports, w'')

end RewardLedger
