import RewardLedger.Proofs.Rule.CarriedOver
import RewardLedger.Proofs.Rule.Submitted

/-!
# Evaluation and explanation agree

The engine reads the active rules once for an evaluation and once for an explanation, and asks them in
the same order. So what it asks for are the actions of the evaluations that match, one evaluation after
the other (`RuleEngine.exists_evaluations`).

That the active rules are read from every world, each of them once and by ascending name, rests on
what all worlds have that calls of the services lead through: every row stands for a version, and the
index of names and versions tells them apart (`World.WellKept.exists_hasActive`). The actions of a
version are those that were read from the list that was submitted, in its order, and no call changes
them (`World.WellKept.alwaysLists`).
-/

namespace RewardLedger

open Op StoredRule

namespace RuleEngine

variable {event : Value} {asked : List Rule} {w : World}

/-! ## Rules asked one by one -/

/-- The evaluation is that of the rule for the event: it is marked with the version of the rule, says
whether the condition holds, and has the actions of the rule if it does. -/
structure IsOf (event : Value) (rule : Rule) (e : RuleEvaluation) : Prop where
  /-- It has the identifier of the version. -/
  ruleId : e.ruleId = rule.id
  /-- It has the name of the rule. -/
  ruleName : e.ruleName = rule.name
  /-- It has the number of the version. -/
  version : e.version = rule.version
  /-- It says whether the condition holds. -/
  isMatch : rule.condition.evaluate event = .ok e.isMatch
  /-- It has the actions of the rule if the condition holds, and no others. -/
  actions : e.actions = if e.isMatch then rule.actions else []

/-- The actions of the evaluations that match, one evaluation after the other, each action with the
version that the evaluation is of. -/
def askedFor (es : List RuleEvaluation) : List TriggeredAction :=
  (es.filter (·.isMatch)).flatMap fun e =>
    e.actions.map fun action => ⟨action, e.ruleId, e.ruleName, e.version⟩

/-- If the conditions of rules are decided, each rule has its evaluation, and what the rules ask for is
what the evaluations ask for. -/
theorem exists_evaluations (h : ∀ r ∈ asked, ∃ b, r.condition.evaluate event = .ok b) :
    ∃ es, asked.mapM (explanation event) = .ok es ∧ List.Forall₂ (IsOf event) asked es ∧
      triggered event asked = .ok (askedFor es) := by
  induction asked with
  | nil => exact ⟨[], rfl, .nil, rfl⟩
  | cons r rest ih =>
    obtain ⟨b, hb⟩ := h r List.mem_cons_self
    obtain ⟨es, hes, hof, hts⟩ := ih fun q hq => h q (List.mem_cons_of_mem _ hq)
    let e : RuleEvaluation := ⟨r.id, r.name, r.version, b, if b then r.actions else []⟩
    have he : explanation event r = .ok e := by
      rw [explanation, hb]
      rfl
    refine ⟨e :: es, ?_, .cons ⟨rfl, rfl, rfl, hb, rfl⟩ hof, ?_⟩
    · rw [List.mapM_cons, he, hes]
      rfl
    · rw [triggered, hb, hts]
      cases b with
      | true => rfl
      | false => rfl

/-- What the engine answers comes from the active rules, and the store stays as it is. -/
theorem perform_of_active (hactive : RuleBook.active.perform w = (.ok asked, w)) (event : Value) :
    (explain event).perform w = (asked.mapM (explanation event), w) ∧
      ∃ w', (evaluate event).perform w = (triggered event asked, w') ∧ w'.store = w.store := by
  constructor
  · rw [explain, perform_bind, hactive]
    exact perform_ofExcept _ _
  · rw [evaluate, perform_bind, hactive]
    dsimp only
    rw [perform_bind, perform_ofExcept]
    cases triggered event asked with
    | error e => exact ⟨w, rfl, rfl⟩
    | ok ts => exact ⟨_, rfl, rfl⟩

end RuleEngine

/-! ## Actions in the order of a list -/

namespace Action

/-- The written form is a list, of which each item has been read as the action at its place. -/
def Lists (written : Value) (actions : List Action) : Prop :=
  ∃ items, written = .list items ∧
    List.Forall₂ (fun item a => read .strict item = .ok a) items actions

/-- Actions that were read are those of the list. -/
theorem lists_of_readList {written : Value} {actions : List Action}
    (h : readList .strict written = .ok actions) : Lists written actions :=
  (of_readList h).2

end Action

/-! ## The active rules -/

namespace World

variable {Q : Store → Prop} {base : Option Store} {w : World}

/-- The rules are the active ones, each of them once, by ascending name. -/
structure HasActive (w : World) (asked : List Rule) : Prop where
  /-- They are what is read when the active rules are asked for. -/
  read : RuleBook.active.perform w = (.ok asked, w)
  /-- They are those of the rules in the table that are active. -/
  stored : ∃ rows rules, w.store.all rulesTable = .ok rows ∧ rows.mapM Rule.ofRow = .ok rules ∧
    asked.Perm (rules.filter (·.active.truthy))
  /-- No two of them have the same identifier. -/
  ids : asked.Pairwise fun r r' => r.id ≠ r'.id
  /-- No name comes after a later one. -/
  names : ∃ names : List String, asked.map (·.name) = names.map .str ∧ names.Pairwise (· ≤ ·)

/-- The rows of rules in a well-kept world stand for versions, of which no two have the same name and
number. -/
theorem WellKept.exists_lists (hw : w.WellKept Q base) :
    ∃ rules : List StoredRule, w.store.Lists rules ∧ RuleBook.Distinct rules := by
  obtain ⟨t, ht⟩ : ∃ t, w.store.table? rulesTable = some t := by
    have hd := hw.declared rulesTable
    cases ht : w.store.table? rulesTable with
    | some t => exact ⟨t, rfl⟩
    | none =>
      rw [ht] at hd
      cases hd
  have hschema := hw.declared.rules_schema ht
  obtain ⟨rules, hrules⟩ : ∃ rules : List StoredRule,
      List.Forall₂ (fun row r => Stored.IsRow r row.columns) t.rows rules := by
    have hrow : ∀ row ∈ t.rows, ∃ r : StoredRule, Stored.IsRow r row.columns := fun row hrow => by
      obtain ⟨r, -, hr⟩ := (hw.kept _ t ht row hrow).rule rfl
      exact ⟨r, hr⟩
    generalize t.rows = rows at hrow
    induction rows with
    | nil => exact ⟨[], .nil⟩
    | cons row rest ih =>
      obtain ⟨r, hr⟩ := hrow row List.mem_cons_self
      obtain ⟨rs, hrs⟩ := ih fun o ho => hrow o (List.mem_cons_of_mem _ ho)
      exact ⟨r :: rs, .cons hr hrs⟩
  have hlists : w.store.Lists rules := ⟨t, ht, congrArg Schema.primaryKey hschema, hrules⟩
  refine ⟨rules, hlists, ?_⟩
  -- the index of names and versions tells them apart
  have hindex : ("name_version", ["name", "version"]) ∈ t.schema.indexes := by
    rw [hschema]
    exact List.mem_singleton_self _
  let key : StoredRule → List Value := fun r => [.str r.name, .int r.version]
  have hkey : ∀ (r : StoredRule) columns, Stored.IsRow r columns → ∀ k, some (key r) = some k →
      KeyKind.All Value.IsKey k ∧ columns.hasKey ["name", "version"] k = true := by
    rintro r columns (hrow : r.IsRow columns) k ⟨⟩
    refine ⟨?_, ?_⟩
    · rintro v hv
      rcases List.mem_cons.1 hv with rfl | hv
      · trivial
      · rw [List.mem_singleton.1 hv]
        trivial
    · rw [Fields.hasKey, keyIn?_of_isRow hrow.name hrow.version]
      simp [key, Value.sameKeys, Value.sameKey_str, Value.sameKey_int]
  refine (hlists.pairwise_hasKey hw.sound ht hindex hkey).imp fun {r r'} hne hrank => ?_
  obtain ⟨hname, hversion⟩ := eq_of_rank_eq hrank
  exact hne (key r) rfl (by simp only [key, hname, hversion])

/-- A well-kept world has active rules. -/
theorem WellKept.exists_hasActive (hw : w.WellKept Q base) : ∃ asked, w.HasActive asked := by
  obtain ⟨rules, hlists, hdistinct⟩ := hw.exists_lists
  obtain ⟨all, hall⟩ := hdistinct.exists_listing
  obtain ⟨rows, hrows, hstand⟩ := hlists.all hw.sound
  have hids : all.Pairwise fun r r' => Stored.keyOf r ≠ Stored.keyOf r' :=
    (hlists.pairwise_keyOf hw.sound).perm hall.perm.symm Ne.symm
  refine ⟨(all.filter isActive).map toRule, {
    read := (RuleBook.perform_of_lists hlists hw.sound hdistinct hall).2
    stored := ⟨rows, rules.map toRule, hrows, RuleBook.mapM_ofRow hstand, ?_⟩
    ids := List.pairwise_map.2 (hids.filter isActive)
    names := ⟨(all.filter isActive).map (·.name), ?_, ?_⟩ }⟩
  · rw [List.filter_map]
    exact (hall.perm.filter isActive).map toRule
  · rw [List.map_map, List.map_map]
    rfl
  · refine List.pairwise_map.2 ((hall.ascends.filter isActive).imp fun hlt => ?_)
    rcases rank_lt_iff.1 hlt with hname | ⟨hname, -⟩
    · exact hname.le
    · exact hname.le

/-! ## Agreement -/

/-- The engine explains every one of the rules, and asks for what the evaluations ask for; neither
changes a table. -/
def Agrees (w : World) (asked : List Rule) (event : Value) : Prop :=
  ∃ es w', (RuleEngine.explain event).perform w = (.ok es, w) ∧
    List.Forall₂ (RuleEngine.IsOf event) asked es ∧
    (RuleEngine.evaluate event).perform w = (.ok (RuleEngine.askedFor es), w') ∧
    w'.store = w.store

/-- Whether the engine agrees with itself is known from the active rules. -/
theorem HasActive.agrees {asked : List Rule} (h : w.HasActive asked) {event : Value}
    (hdecided : ∀ r ∈ asked, ∃ b, r.condition.evaluate event = .ok b) : w.Agrees asked event := by
  obtain ⟨es, hes, hof, hts⟩ := RuleEngine.exists_evaluations hdecided
  obtain ⟨hexplain, w', hevaluate, hstore⟩ := RuleEngine.perform_of_active h.read event
  exact ⟨es, w', by rw [hexplain, hes], hof, by rw [hevaluate, hts], hstore⟩

/-- In every world that calls of the services lead through from here, an evaluation of the rule that
matches lists these actions, and one that does not lists none. -/
def AlwaysLists (cfg : Config) (w : World) (id : Value) (actions : List Action) : Prop :=
  ∀ later, Step.CallsOf Call.OfServices later →
    ∀ w' ∈ Step.worldsOfAll (Call.perform cfg) later w, ∀ event es,
      ((RuleEngine.explain event).perform w').1 = .ok es → ∀ e ∈ es, e.ruleId = id →
        e.actions = if e.isMatch then actions else []

/-- A version that has been made keeps its actions, whatever the services do. -/
theorem WellKept.alwaysLists {r : StoredRule} (hw : w.WellKept (Store.HasVersion r) base)
    (cfg : Config) : w.AlwaysLists cfg (.uuid r.id) r.actions := by
  intro later hlater w' hw' event es hes e he hid
  obtain ⟨base', hkept⟩ := Step.exists_wellKept_of_worldsOfAll (Store.lasting_hasVersion r) hlater
    hw w' hw'
  exact (hkept.means.explained event es hes e he hid).2

/-- In every world that calls of the services lead through, if the conditions of the active rules are
decided for an event, there is one evaluation of each of them, by ascending name, and the engine asks
for what these ask for, in their order. The actions of a rule are the ones that were submitted, in the
order in which they were written, or those of the version that it was made from. -/
theorem evaluation_agrees_of_script {cfg : Config} {w₀ : World} (h₀ : w₀.IsNew)
    {steps : List (Step Call)} (hcalls : Step.CallsOf Call.OfServices steps)
    (hw : w ∈ Step.worldsOfAll (Call.perform cfg) steps w₀) :
    (∃ asked, w.HasActive asked ∧ ∀ event,
      (∀ r ∈ asked, ∃ b, r.condition.evaluate event = .ok b) → w.Agrees asked event) ∧
    (∀ name conditions actions metadata description active rule w',
      (RuleBook.create name conditions actions metadata description active).perform w =
        (.ok rule, w') →
          Action.Lists actions rule.actions ∧ w'.AlwaysLists cfg rule.id rule.actions) ∧
    ∀ id changes rule w', changes.concernContent = true →
      (RuleBook.update id changes).perform w = (.ok rule, w') →
        (match changes.actions with
          | some written => Action.Lists written rule.actions
          | none => ∃ source, (RuleBook.get id).perform w = (.ok source, w) ∧
              rule.actions = source.actions) ∧
        w'.AlwaysLists cfg rule.id rule.actions := by
  -- each of the three parts needs that the world is well kept, with what lasts in it
  obtain ⟨base, hkept⟩ := Step.exists_wellKept_of_worldsOfAll Store.lasting_true hcalls
    h₀.wellKept w hw
  have hmade : ∀ {w' : World} {r : StoredRule}, w'.WellKept (fun _ => True) base →
      w'.store.HasVersion r → w'.AlwaysLists cfg (.uuid r.id) r.actions := fun hafter hhas =>
    WellKept.alwaysLists ⟨hafter.sound, hafter.declared, hafter.kept, hhas, hafter.inside⟩ cfg
  refine ⟨?_, ?_, ?_⟩
  · obtain ⟨asked, hasked⟩ := hkept.exists_hasActive
    exact ⟨asked, hasked, fun _ => hasked.agrees⟩
  · intro name conditions actions metadata description active rule w' hrun
    obtain ⟨r, -, hactions, rfl, hhas⟩ :=
      (RuleBook.ends_create_submitted hkept name conditions actions metadata description
        active).good_of_ok hrun
    have hafter : w'.WellKept (fun _ => True) base :=
      (RuleBook.steady_create List.not_mem_nil name conditions actions metadata description active _
        Store.lasting_true base w hkept).good_of_ok hrun
    exact ⟨Action.lists_of_readList hactions, hmade hafter hhas⟩
  · intro id changes rule w' hcontent hrun
    obtain ⟨r, rfl, hhas, hacts⟩ :=
      (RuleBook.ends_update_submitted hkept id hcontent).good_of_ok hrun
    have hafter : w'.WellKept (fun _ => True) base :=
      (RuleBook.steady_update List.not_mem_nil id changes _ Store.lasting_true base w
        hkept).good_of_ok hrun
    refine ⟨?_, hmade hafter hhas⟩
    unfold RuleBook.ActsBy at hacts
    cases hgiven : changes.actions with
    | some written =>
      rw [hgiven] at hacts
      exact Action.lists_of_readList hacts
    | none =>
      rw [hgiven] at hacts
      exact hacts

end World

/-- A rule with two actions is made, then one whose name comes before it, and then one that asks for
something else. -/
def Step.makeThree : List (Step Call) :=
  let make (name field : String) (types : List String) : Step Call :=
    .call (.createRule (.str name) (Condition.writtenPresent field)
      (.list (types.map fun type => .object [("type", .str type)])) .null .null (.bool true)) false
  [make "B" "x" ["setRewardStatus", "issueVoucher"], make "A" "x" ["sendNotification"],
    make "C" "y" ["sendNotification"]]

namespace World

/-- Rules are asked by ascending name, whatever the order in which they were made, and one that does not
match asks for nothing. -/
theorem evaluation_agrees_of_makeThree :
    let w := (Step.runAll (Call.perform .rupees) Step.makeThree (fresh default)).2
    let event : Value := .object [("x", .int 1)]
    ∃ asked, w.HasActive asked ∧ w.Agrees asked event ∧
      ((RuleEngine.explain event).perform w).1.toOption.map (·.map (·.isMatch)) =
        some [true, true, false] ∧
      ((RuleEngine.evaluate event).perform w).1.toOption.map (·.map (·.action.type)) =
        some ["sendNotification", "setRewardStatus", "issueVoucher"] := by
  intro w event
  have hcalls : Step.CallsOf Call.OfServices Step.makeThree := ⟨trivial, trivial, trivial, trivial⟩
  have hmem : w ∈ Step.worldsOfAll (Call.perform .rupees) Step.makeThree (fresh default) :=
    Step.runAll_mem_worldsOfAll _ _ _
  obtain ⟨⟨asked, hasked, hagrees⟩, -, -⟩ :=
    evaluation_agrees_of_script (isNew_fresh default) hcalls hmem
  have hdecided : (RuleBook.active.perform w).1.toOption.map
      (·.all fun r => (r.condition.evaluate event).isOk) = some true := by decide +kernel
  rw [hasked.read] at hdecided
  refine ⟨asked, hasked, hagrees event fun r hr => ?_, by decide +kernel, by decide +kernel⟩
  have hok := List.all_eq_true.1 (Option.some.inj hdecided) r hr
  cases hresult : r.condition.evaluate event with
  | ok b => exact ⟨b, rfl⟩
  | error e =>
    rw [hresult] at hok
    cases hok

end World

end RewardLedger
