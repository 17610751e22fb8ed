import RewardLedger.Proofs.Rule.Evaluation
import RewardLedger.Proofs.Rule.Listing
import RewardLedger.Rule.Engine

/-!
# What the rule engine answers

The engine asks the active rules one by one. What it answers comes from those whose condition holds
(`RuleEngine.exists_rule_of_triggered`), and it answers whenever the conditions are decided, unless one
of them is unreadable (`RuleEngine.answers_of_holdsRules`). An unreadable condition fails the whole
evaluation, for it is not caught where the rules are asked.
-/

namespace RewardLedger

open Op

namespace RuleEngine

variable {event : Value} {asked : List Rule}

/-- There is a result, or one of the rules is unreadable. -/
def Answers {α : Type} (asked : List Rule) (result : Except Failure α) : Prop :=
  (∃ a, result = .ok a) ∨ ∃ r ∈ asked, ∃ e, r.condition.Unreadable e ∧ result = .error e

/-- One more rule that has been asked does not matter. -/
theorem Answers.cons {α β : Type} {result : Except Failure α} (h : Answers asked result) (r : Rule)
    (f : α → β) : Answers (r :: asked) (result >>= fun a => .ok (f a)) := by
  rcases h with ⟨a, rfl⟩ | ⟨q, hq, e, hunreadable, rfl⟩
  · exact .inl ⟨f a, rfl⟩
  · exact .inr ⟨q, List.mem_cons_of_mem _ hq, e, hunreadable, rfl⟩

/-- What the rules ask for is known if their conditions are decided. -/
theorem answers_triggered (h : ∀ r ∈ asked, r.condition.Decided event) :
    Answers asked (triggered event asked) := by
  induction asked with
  | nil => exact .inl ⟨[], rfl⟩
  | cons r rest ih =>
    have hrest := ih fun q hq => h q (List.mem_cons_of_mem _ hq)
    rw [triggered]
    rcases h r List.mem_cons_self with ⟨b, hb⟩ | ⟨e, hunreadable, he⟩
    · rw [hb]
      -- a rule that does not hold adds nothing to what the others ask for
      cases b with
      | true => exact hrest.cons r fun ts => triggeredBy r ++ ts
      | false =>
        rcases hrest with hok | ⟨q, hq, hbad⟩
        · exact .inl hok
        · exact .inr ⟨q, List.mem_cons_of_mem _ hq, hbad⟩
    · rw [he]
      exact .inr ⟨r, List.mem_cons_self, e, hunreadable, rfl⟩

/-- The evaluation of every rule is known if their conditions are decided. -/
theorem answers_explanations (h : ∀ r ∈ asked, r.condition.Decided event) :
    Answers asked (asked.mapM (explanation event)) := by
  induction asked with
  | nil => exact .inl ⟨[], rfl⟩
  | cons r rest ih =>
    have hrest := ih fun q hq => h q (List.mem_cons_of_mem _ hq)
    rw [List.mapM_cons, explanation]
    rcases h r List.mem_cons_self with ⟨b, hb⟩ | ⟨e, hunreadable, he⟩
    · rw [hb]
      exact hrest.cons r fun es => ⟨r.id, r.name, r.version, b, if b then r.actions else []⟩ :: es
    · rw [he]
      exact .inr ⟨r, List.mem_cons_self, e, hunreadable, rfl⟩

/-- An action that is asked for is one of a rule whose condition holds, and is marked as such. -/
theorem exists_rule_of_triggered {ts : List TriggeredAction} (h : triggered event asked = .ok ts) :
    ∀ t ∈ ts, ∃ r ∈ asked, r.condition.evaluate event = .ok true ∧ t ∈ triggeredBy r := by
  induction asked generalizing ts with
  | nil =>
    cases h
    exact fun t ht => nomatch ht
  | cons r rest ih =>
    rw [triggered] at h
    obtain ⟨b, hb, h⟩ := exists_of_bind_eq_ok h
    cases b with
    | true =>
      obtain ⟨others, hothers, h⟩ := exists_of_bind_eq_ok h
      cases h
      intro t ht
      rcases List.mem_append.1 ht with ht | ht
      · exact ⟨r, List.mem_cons_self, hb, ht⟩
      · obtain ⟨q, hq, hholds⟩ := ih hothers t ht
        exact ⟨q, List.mem_cons_of_mem _ hq, hholds⟩
    | false =>
      intro t ht
      obtain ⟨q, hq, hholds⟩ := ih h t ht
      exact ⟨q, List.mem_cons_of_mem _ hq, hholds⟩

/-- The evaluation of a rule tells which rule it is of. -/
theorem of_explanation {r : Rule} {e : RuleEvaluation} (h : explanation event r = .ok e) :
    e.ruleId = r.id ∧ e.ruleName = r.name ∧ e.version = r.version := by
  obtain ⟨b, -, h⟩ := exists_of_bind_eq_ok h
  cases h
  exact ⟨rfl, rfl, rfl⟩

/-! ## Asking the rules of a world -/

variable {base : Option Store} {rules all : List StoredRule} {w : World}

/-- The rules that the engine asks, from a listing of all versions. -/
def activeRules (all : List StoredRule) : List Rule :=
  (all.filter StoredRule.isActive).map StoredRule.toRule

/-- The engine answers what the active rules ask for. -/
theorem perform_evaluate (h : w.HoldsRules base rules) (hall : RuleBook.Listing rules all)
    (event : Value) :
    ((evaluate event).perform w).1 = triggered event (activeRules all) := by
  rw [evaluate, perform_bind, RuleBook.perform_active h hall]
  dsimp only
  rw [perform_bind, perform_ofExcept, activeRules]
  cases triggered event ((all.filter StoredRule.isActive).map StoredRule.toRule) <;> rfl

/-- The engine answers with the evaluation of every active rule. -/
theorem perform_explain (h : w.HoldsRules base rules) (hall : RuleBook.Listing rules all)
    (event : Value) :
    ((explain event).perform w).1 = (activeRules all).mapM (explanation event) := by
  rw [explain, perform_bind, RuleBook.perform_active h hall]
  dsimp only
  rw [perform_ofExcept, activeRules]

/-- The condition of a stored version is proper. -/
theorem proper_of_mem (h : w.HoldsRules base rules) {r : StoredRule} (hr : r ∈ rules) :
    r.condition.Proper := by
  obtain ⟨t, ht, -⟩ := id h.lists
  obtain ⟨row, -, hrow⟩ := h.lists.exists_row ht hr
  exact StoredRule.IsRow.proper hrow

/-- The engine answers whenever a JSON event happens, unless an active rule is unreadable. -/
theorem answers_of_holdsRules (h : w.HoldsRules base rules) (hall : RuleBook.Listing rules all)
    (hevent : event.IsJson) :
    Answers (activeRules all) ((evaluate event).perform w).1 ∧
      Answers (activeRules all) ((explain event).perform w).1 := by
  have hdecided : ∀ r ∈ activeRules all, r.condition.Decided event := by
    intro r hr
    obtain ⟨o, ho, rfl⟩ := List.mem_map.1 hr
    exact (proper_of_mem h (hall.perm.subset (List.mem_filter.1 ho).1)).decided hevent
  rw [perform_evaluate h hall, perform_explain h hall]
  exact ⟨answers_triggered hdecided, answers_explanations hdecided⟩

end RuleEngine

end RewardLedger
