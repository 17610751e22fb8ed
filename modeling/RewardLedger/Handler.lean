import RewardLedger.Failure.Basic
import RewardLedger.Text.Ordered

/-!
# Handlers of actions

Every type of action has at most one handler. Crediting a reward is built in; any other handler
answers with a value or refuses.
-/

namespace RewardLedger

/-- What carries the actions of a type out. -/
inductive Handler where
  /-- Credits a reward with the parameters of the action. -/
  | creditReward
  /-- Answers with a value. -/
  | answers (result : Value)
  /-- Refuses for a reason of the domain. -/
  | refuses (kind : FaultKind) (message : String)
  deriving Repr, Inhabited

/-- The handlers by the type of the actions that they carry out. -/
abbrev Handlers := List (String × Handler)

namespace Handlers

/-- Rewards are credited; nothing else is carried out. -/
def builtIn : Handlers := [("createReward", .creditReward)]

/-- The handler of a type of actions. -/
def find? (hs : Handlers) (type : String) : Option Handler :=
  (List.find? (fun h => h.1 = type) hs).map Prod.snd

/-- Let a handler carry out a type of actions, in place of any other. -/
def register (hs : Handlers) (type : String) (handler : Handler) : Handlers :=
  if hs.any fun h => h.1 = type then
    hs.map fun h => if h.1 = type then (type, handler) else h
  else hs ++ [(type, handler)]

/-- The built-in handlers and the given ones. -/
def withBuiltIn (given : Handlers) : Handlers :=
  given.foldl (fun hs h => hs.register h.1 h.2) builtIn

/-- The types of actions that are carried out, in ascending order. -/
def types (hs : Handlers) : List String := Text.inOrder (hs.map Prod.fst)

/-- The actions of this type are carried out by a handler that is not built in. -/
def isForeign (hs : Handlers) (type : String) : Bool :=
  match hs.find? type with
  | some .creditReward | none => false
  | some _ => true

end Handlers

end RewardLedger
