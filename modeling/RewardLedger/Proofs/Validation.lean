import RewardLedger.Proofs.AppendOnly
import RewardLedger.Proofs.Rule.Laws
import RewardLedger.Proofs.Rule.Untouched

/-!
# Validation comes before mutation

A call of one of the services that is refused for a reason of the domain leaves every row and every
index as it was, also inside a transaction that goes on and is kept
(`World.untouched_of_fault`). The services rely on the tables being declared as they should be, on
identifiers to come being new, and on the rows of rules being such as the rule book writes them
(`World.InOrder`); every world that holds books and versions of rules is so.

A rule that was put into its table by hand need not be readable. The rule book reads what it stored
leniently and after the fact, so switching such a rule off fails when it is switched off already
(`World.switched_off_of_unreadable`).
-/

namespace RewardLedger

open Op

variable {cfg : Config} {base base' : Option Store} {b : Books} {rules : List StoredRule}

/-! ## Calls of the services -/

/-- The call goes to the users, the ledger, the recorded requests, the rewards, the rules or the
evaluation of rules. -/
def Call.OfService : Call → Prop
  | dispatchEvent .. | dispatchActions .. | registerHandler .. | replaceHandlers .. | setClock .. |
    seed | store _ => False
  | _ => True

namespace World

/-- The tables are in such order as the services rely on. -/
structure InOrder (w : World) : Prop where
  /-- The tables are declared as those of the ledger, and entries get new identifiers. -/
  creditable : w.Creditable
  /-- The rows of rules are rules, and rules get new identifiers. -/
  rules : w.RulesInOrder

/-- Opening a transaction keeps the order. -/
theorem InOrder.enter {w : World} (h : w.InOrder) : w.enter.InOrder :=
  ⟨restsOnTables_creditable.enter h.creditable, (restsOnTables_rulesAre _).enter h.rules⟩

/-- A world that holds books and versions of rules is in order. -/
theorem Holds.inOrder {w : World} (h : w.Holds cfg base b) (hr : w.HoldsRules base' rules) :
    w.InOrder := ⟨h.creditable, hr.rulesInOrder⟩

end World

namespace Call

variable {α : Type} {P Q : World → Prop}

/-- Writing the result of an operation spares the tables if the operation does. -/
theorem spares_written {write : α → Except Failure Value} {op : Op α} (h : op.Spares P Q)
    (hwrite : ∀ a, NoFault (write a)) : (written write op).Spares P Q :=
  h.bind fun a => faultless_ofExcept (hwrite a)

/-- A call of a service that is refused for a reason of the domain leaves the tables alone. -/
theorem ends_perform_spared {call : Call} (hcall : call.OfService) {w : World} (hw : w.InOrder) :
    (call.perform cfg).Ends w (fun _ _ => True) w.Spared := by
  have hdeclared : w.Declared := hw.creditable.declared
  have hspared : ∀ {op : Op Value} {P Q : World → Prop}, op.Spares P Q → P w →
      op.Ends w (fun _ _ => True) w.Spared := fun h hP =>
    (h w hP).mono (fun _ _ _ => trivial) fun _ _ hs => hs
  by_cases hreading : call.IsReading
  · exact hspared ((reads hreading).spares (P := fun _ => True) fun _ _ _ _ _ => trivial) trivial
  -- what each service needs of the world is a part of its order: declared tables, users and rewards
  -- that can be read, or rules that can be
  cases call with
  | createUser email name => exact hspared (Users.spares_create email name).map hdeclared
  | renameUser id name => exact hspared (Users.spares_rename id name).map hdeclared
  | createEntry user entryType amount details =>
    exact hspared (spares_written (Ledger.spares_createEntry _ _ _ _) noFault_ledgerEntry_json)
      hdeclared
  | createCredit user amount details =>
    exact hspared (spares_written (Ledger.spares_createCredit _ _ _) noFault_ledgerEntry_json)
      hdeclared
  | createDebit user amount details =>
    exact hspared (spares_written (Ledger.spares_createDebit _ _ _) noFault_ledgerEntry_json)
      hdeclared
  | reverseEntry id reason reward =>
    exact hspared (spares_written (Ledger.spares_reverseEntry _ _ _) noFault_ledgerEntry_json)
      hdeclared
  | recordRequest key hash response =>
    exact hspared (spares_written (Requests.spares_record _ _ _) noFault_requestRecord_json)
      hdeclared
  | creditReward referrer referred amount key currency metadata =>
    exact hspared (spares_written (Rewards.spares_credit _ _ _ _ _ _) noFault_creditResult_json)
      hw.creditable
  | confirmReward id =>
    exact hspared (spares_written (Rewards.spares_confirm _) noFault_reward_json) hdeclared
  | payReward id =>
    exact hspared (spares_written (Rewards.spares_pay _) noFault_rewardResult_json) hdeclared
  | reverseReward id reason =>
    exact hspared (spares_written (Rewards.spares_reverse _ _) noFault_rewardResult_json) hdeclared
  | reverseRewardEntry id reason =>
    exact hspared (spares_written (Rewards.spares_reverseEntry _ _) noFault_ledgerEntry_json)
      hdeclared
  | createRule name conditions actions metadata description active =>
    exact hspared (spares_written (RuleBook.spares_create _ _ _ _ _ _) noFault_rule_toValue) hw.rules
  | updateRule id changes =>
    exact hspared (spares_written (RuleBook.spares_update _ _) noFault_rule_toValue) hw.rules
  | deactivateRule id =>
    exact hspared (spares_written (RuleBook.spares_deactivate _) noFault_rule_toValue) hw.rules
  | dispatchEvent | dispatchActions | registerHandler | replaceHandlers | setClock | seed | store =>
    exact hcall.elim
  | _ => exact (hreading trivial).elim

end Call

namespace World

/-- A call of a service that is refused for a reason of the domain, in a world in order, leaves every
row and every index as it was. The world may be one inside a transaction, which then has nothing more
to take back. -/
theorem untouched_of_fault {w w' : World} (hw : w.InOrder) {call : Call} (hcall : call.OfService)
    {e : Failure} (hrun : (call.perform cfg).perform w = (.error e, w'))
    (he : e.faultKind?.isSome = true) :
    w'.store.tables = w.store.tables ∧ w'.store.undo = w.store.undo := by
  have hspared : (call.perform cfg).Ends w (fun _ _ => True) w.Spared :=
    Call.ends_perform_spared hcall hw
  unfold Ends at hspared
  rw [hrun] at hspared
  obtain ⟨htables, hundo, -⟩ := hspared he
  exact ⟨htables, hundo⟩

/-- The call that makes a rule that sends a notification. -/
def makesRule : Call :=
  .createRule (.str "A") (Condition.writtenPresent "x")
    (.list [.object [("type", .str "sendNotification")]]) .null .null (.bool true)

/-- The world in which a rule was made. -/
def withRule : World := ((makesRule.perform .rupees).perform (fresh default)).2

/-- The world in which a rule was made is in order. -/
theorem inOrder_withRule : withRule.InOrder := by
  have hallowed : (⟨default, makesRule⟩ : Turn).call.Allowed .full := trivial
  obtain ⟨b, -, h⟩ : withRule.Reached .rupees (Books.Effect .rupees .full) {} :=
    (isNew_fresh default).holds.after hallowed
  obtain ⟨rules, -, hr⟩ : withRule.RulesFrom none [] :=
    Call.rulesFrom_perform (show makesRule.OfRules from trivial) (isNew_fresh default).holdsRules
  exact h.inOrder hr

/-- The kind of the failure of the domain that a result is, if it is one. -/
def faultOf {α : Type} : Except Failure α → Option FaultKind
  | .ok _ => none
  | .error e => e.faultKind?

/-- Taking all actions from a rule is refused, and inside a transaction it leaves the tables alone. -/
theorem untouched_of_noActions :
    let w := withRule.enter
    let call : Call := .updateRule (.uuid ⟨1⟩) { actions := some (.list []) }
    w.InOrder ∧ call.OfService ∧ ∃ e w', (call.perform .rupees).perform w = (.error e, w') ∧
      e.faultKind?.isSome = true ∧ w'.store.tables = w.store.tables ∧
      w'.store.undo = w.store.undo := by
  intro w call
  have hw : w.InOrder := inOrder_withRule.enter
  have hrefused : (faultOf ((call.perform .rupees).perform w).1).isSome = true := by
    decide +kernel
  generalize hrun : (call.perform .rupees).perform w = run at hrefused
  obtain ⟨e | _, w'⟩ := run
  · exact ⟨hw, trivial, e, w', rfl, hrefused,
      untouched_of_fault hw (show call.OfService from trivial) hrun hrefused⟩
  · cases hrefused

/-- Whether the row of the rule with the identifier says that it is active. -/
def isActiveRow (w : World) (id : Uuid) : Option Bool :=
  match w.store.get rulesTable (.uuid id) with
  | .ok (some row) => some (row.get "is_active").truthy
  | _ => none

/-- A rule that was put into its table by hand, and whose actions are no list, is switched off in a
transaction that is kept, although switching it off is refused. -/
theorem switched_off_of_unreadable :
    let row : Fields := [
      ("id", .uuid ⟨7⟩), ("name", .str "A"), ("version", .int 1),
      ("conditions", Condition.writtenPresent "x"), ("actions", .str "none"),
      ("is_active", .bool true)]
    let w := ((StoreCall.insert rulesTable (.object row)).perform.perform (fresh default)).2
    let run := ((Call.deactivateRule (.uuid ⟨7⟩)).perform .rupees).perform w.enter
    faultOf run.1 = some .malformedRule ∧ w.isActiveRow ⟨7⟩ = some true ∧
      (World.leave w run.2 true).isActiveRow ⟨7⟩ = some false := by
  decide +kernel

end World

end RewardLedger
