import RewardLedger.Rule.Book

/-!
# The rule engine

The engine tells which actions the active rules ask for when an event happens. It changes nothing.
-/

namespace RewardLedger.RuleEngine

/-- The actions of a rule, each with the version that it comes from. -/
def triggeredBy (rule : Rule) : List TriggeredAction :=
  rule.actions.map fun action => ⟨action, rule.id, rule.name, rule.version⟩

/-- The actions of those of the rules whose condition holds. -/
def triggered (event : Value) : List Rule → Except Failure (List TriggeredAction)
  | [] => .ok []
  | rule :: rest => do
    if ← rule.condition.evaluate event then
      return triggeredBy rule ++ (← triggered event rest)
    else triggered event rest

/-- The evaluation of one rule. -/
def explanation (event : Value) (rule : Rule) : Except Failure RuleEvaluation := do
  let isMatch ← rule.condition.evaluate event
  pure ⟨rule.id, rule.name, rule.version, isMatch, if isMatch then rule.actions else []⟩

/-- The actions that the active rules ask for when an event happens. -/
def evaluate (event : Value) : Op (List TriggeredAction) := do
  let actions ← Op.ofExcept (triggered event (← RuleBook.active))
  Op.log .debug "rules_evaluated" [("triggered", .int actions.length)]
  pure actions

/-- The evaluation of every active rule for an event. -/
def explain (event : Value) : Op (List RuleEvaluation) := do
  Op.ofExcept ((← RuleBook.active).mapM (explanation event))

end RewardLedger.RuleEngine
