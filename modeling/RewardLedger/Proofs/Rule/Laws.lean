import RewardLedger.Proofs.Rule.Script

/-!
# The laws of the rule book

What holds in every world that a script of rule calls leads through, also in the middle of a
transaction and whatever fails:

* at most one version of a name is active (`World.single_active_of_script`);
* the versions of a name are numbered without gaps, all listings agree, and no version is refused for
  its number (`World.lists_versions_of_script`);
* the engine answers whenever a JSON event happens, unless an active rule is unreadable
  (`RuleEngine.answers_of_script`);
* a change of content makes an active version, and retires the version that it was made from if the
  name stays (`World.superseded_of_script`). A version that is renamed stays as it is.
-/

namespace RewardLedger

open Op StoredRule

variable {cfg : Config} {base : Option Store} {rules all : List StoredRule} {w : World}

namespace World

/-! ## At most one active version -/

/-- At most one version of a name is active, and so one version of a name is asked at most. -/
structure SingleActive (w : World) : Prop where
  /-- No two rows of active versions have the same name. -/
  rows : ∃ rows, w.store.all rulesTable = .ok rows ∧ rows.Pairwise fun row row' =>
    (row.get "is_active").truthy = true → (row'.get "is_active").truthy = true →
      (row.get "name").sameKey (row'.get "name") = false
  /-- No two active rules have the same name. -/
  active : ∃ found, RuleBook.active.perform w = (.ok found, w) ∧
    found.Pairwise fun r r' => r.name.sameKey r'.name = false
  /-- What is asked for in one name is asked for by one version. -/
  evaluated : ∀ event ts, ((RuleEngine.evaluate event).perform w).1 = .ok ts →
    ∀ t ∈ ts, ∀ t' ∈ ts, t.ruleName.sameKey t'.ruleName = true →
      t.ruleId = t'.ruleId ∧ t.ruleVersion = t'.ruleVersion
  /-- No two evaluations are of the same name. -/
  explained : ∀ event es, ((RuleEngine.explain event).perform w).1 = .ok es →
    es.Pairwise fun e e' => e.ruleName.sameKey e'.ruleName = false

/-- Active versions of the same name are the same. -/
theorem eq_of_mem_active (h : RuleBook.Steps [] rules) (hall : RuleBook.Listing rules all) :
    ∀ r ∈ all.filter StoredRule.isActive, ∀ r' ∈ all.filter StoredRule.isActive,
      r.name = r'.name → r = r' := by
  intro r hr r' hr' hname
  obtain ⟨hr, hactive⟩ := List.mem_filter.1 hr
  obtain ⟨hr', hactive'⟩ := List.mem_filter.1 hr'
  exact h.single r (hall.perm.subset hr) r' (hall.perm.subset hr') hname hactive hactive'

/-- Active rules of the same name are the same. -/
theorem eq_of_mem_activeRules (h : RuleBook.Steps [] rules) (hall : RuleBook.Listing rules all)
    {r r' : Rule} (hr : r ∈ RuleEngine.activeRules all) (hr' : r' ∈ RuleEngine.activeRules all)
    (hname : r.name.sameKey r'.name = true) : r = r' := by
  obtain ⟨o, ho, rfl⟩ := List.mem_map.1 hr
  obtain ⟨o', ho', rfl⟩ := List.mem_map.1 hr'
  have hsame : o.name = o'.name := (Value.str.inj (Value.sameKey_str_iff.1 hname)).symm
  rw [eq_of_mem_active h hall o ho o' ho' hsame]

/-- The active rules of a listing differ in their names. -/
theorem pairwise_activeRules (h : RuleBook.Steps [] rules) (hall : RuleBook.Listing rules all) :
    (RuleEngine.activeRules all).Pairwise fun r r' => r.name.sameKey r'.name = false := by
  rw [RuleEngine.activeRules, List.pairwise_map]
  refine List.Pairwise.imp_of_mem ?_ (hall.ascends.filter StoredRule.isActive)
  intro r r' hr hr' hlt
  refine (Value.sameKey_str r.name r'.name).trans (beq_eq_false_iff_ne.2 fun hname => ?_)
  exact hlt.ne (congrArg StoredRule.rank (eq_of_mem_active h hall r hr r' hr' hname))

/-- In a world that holds versions at most one of a name is active. -/
theorem HoldsRules.singleActive (h : w.HoldsRules base rules) (hall : RuleBook.Listing rules all) :
    w.SingleActive where
  rows := by
    obtain ⟨rows, hrows, hstand⟩ := h.lists.all h.sound
    refine ⟨rows, hrows, ?_⟩
    -- rows stand for versions in their order, so what holds of two versions holds of their rows
    have hmem : List.Forall₂ (fun r columns => r ∈ rules ∧ StoredRule.IsRow r columns) rules rows :=
      (List.forall₂_and_left _ _).2 ⟨fun r hr => hr, hstand.flip⟩
    refine Store.pairwise_of_forall₂ hmem (List.Nodup.of_map _ h.reached.nodup) ?_
    rintro r r' columns columns' ⟨hr, hrow⟩ ⟨hr', hrow'⟩ hne
    simp only [Fields.get, hrow.active, hrow'.active, hrow.name, hrow'.name, Option.getD_some]
    intro hactive hactive'
    refine (Value.sameKey_str r.name r'.name).trans (beq_eq_false_iff_ne.2 fun hname => hne ?_)
    exact h.reached.single r hr r' hr' hname hactive hactive'
  active := ⟨_, RuleBook.perform_active h hall, pairwise_activeRules h.reached hall⟩
  evaluated := by
    intro event ts hts t ht t' ht' hname
    rw [RuleEngine.perform_evaluate h hall] at hts
    obtain ⟨r, hr, -, hin⟩ := RuleEngine.exists_rule_of_triggered hts t ht
    obtain ⟨r', hr', -, hin'⟩ := RuleEngine.exists_rule_of_triggered hts t' ht'
    obtain ⟨_, -, rfl⟩ := List.mem_map.1 hin
    obtain ⟨_, -, rfl⟩ := List.mem_map.1 hin'
    obtain rfl := eq_of_mem_activeRules h.reached hall hr hr' hname
    exact ⟨rfl, rfl⟩
  explained := by
    intro event es hes
    rw [RuleEngine.perform_explain h hall] at hes
    refine Store.pairwise_of_forall₂ (forall₂_of_mapM_eq_ok hes)
      (pairwise_activeRules h.reached hall) ?_
    intro r r' e e' he he' hname
    rwa [(RuleEngine.of_explanation he).2.1, (RuleEngine.of_explanation he').2.1]

/-- In every world that a script of rule calls leads through, at most one version of a name is
active. -/
theorem single_active_of_script {w₀ : World} (h₀ : w₀.IsNew) {steps : List (Step Call)}
    (hcalls : Step.CallsOf Call.OfRules steps)
    (hw : w ∈ Step.worldsOfAll (Call.perform cfg) steps w₀) : w.SingleActive := by
  obtain ⟨base, rules, all, h, hall⟩ := exists_holdsRules_of_script h₀ hcalls hw
  exact h.singleActive hall

end World

/-- The written condition that there is a field at the path. -/
def Condition.writtenPresent (path : String) : Value :=
  .object [("field", .str path), ("op", .str "exists")]

/-- The condition that there is a field at the path. -/
def Condition.presentAt (path : String) : Condition := .leaf path (.known .present) .null

/-- A rule is made, and in a transaction that fails at its end it is changed and made again; then it
is changed in one that is kept. -/
def Step.changeTwice : List (Step Call) :=
  let make : Step Call := .call (.createRule (.str "A") (Condition.writtenPresent "x")
    (.list [.object [("type", .str "sendNotification")]]) .null .null (.bool true)) false
  let describe (text : String) : Step Call :=
    .call (.updateRule (.uuid ⟨1⟩) { description := .str text }) false
  [make, .transaction [describe "lost", make, .call (.deactivateRule (.uuid ⟨9⟩)) false] false true,
    .transaction [.call (.deactivateRule (.uuid ⟨9⟩)) true, describe "kept"] false true]

/-- The calls of the script are rule calls. -/
theorem Step.ofRules_changeTwice : CallsOf Call.OfRules changeTwice :=
  ⟨trivial, ⟨trivial, trivial, trivial, trivial⟩, ⟨trivial, trivial, trivial⟩, trivial⟩

namespace World

/-- In every world that changing a rule twice leads through, at most one version of it is active. -/
theorem single_active_of_changeTwice :
    Step.CallsOf Call.OfRules Step.changeTwice ∧
      ∀ w ∈ Step.worldsOfAll (Call.perform .rupees) Step.changeTwice (fresh default),
        w.SingleActive :=
  ⟨Step.ofRules_changeTwice, fun _ hw =>
    single_active_of_script (isNew_fresh default) Step.ofRules_changeTwice hw⟩

/-! ## Numbers and listings -/

/-- The versions are numbered without gaps, and all ways of listing rules agree. -/
structure ListsVersions (w : World) (rules all : List StoredRule) : Prop where
  /-- The rows stand for the versions. -/
  lists : w.store.Lists rules
  /-- They were added in this order. -/
  places : rules.Pairwise fun r r' => r.place < r'.place
  /-- The versions of a name are numbered from 1 without gaps, in this order. -/
  numbered : ∀ name, RuleBook.versionsOf name rules =
    List.range' 1 (RuleBook.versionsOf name rules).length
  /-- The listing has the versions by ascending name and descending number. -/
  listing : RuleBook.Listing rules all
  /-- All rules are those of the listing. -/
  allListed : RuleBook.all.perform w = (.ok (all.map toRule), w)
  /-- The active rules are those of the listing that are active. -/
  activeListed : RuleBook.active.perform w =
    (.ok ((all.filter StoredRule.isActive).map toRule), w)
  /-- The latest rules are those of the listing with the last number of their name. -/
  latestListed : RuleBook.latestPerName.perform w =
    (.ok ((all.filter (RuleBook.isLatest rules)).map toRule), w)
  /-- There is one of these for each name, in ascending order. -/
  names : (all.filter (RuleBook.isLatest rules)).Pairwise fun r r' => r.name < r'.name
  /-- There is one of these for every stored name. -/
  covers : ∀ r ∈ rules, ∃ o ∈ all.filter (RuleBook.isLatest rules), o.name = r.name
  /-- The latest rule of a name is the one of these with the name. -/
  found : ∀ name, (RuleBook.latest? (.str name)).perform w =
    (.ok (((all.filter (RuleBook.isLatest rules)).find? (·.name = name)).map toRule), w)

/-- In a world that holds versions these are numbered without gaps, and all listings agree. -/
theorem HoldsRules.listsVersions (h : w.HoldsRules base rules)
    (hall : RuleBook.Listing rules all) : w.ListsVersions rules all where
  lists := h.lists
  places := RuleBook.places_ascend h
  numbered := h.reached.numbered
  listing := hall
  allListed := RuleBook.perform_all h hall
  activeListed := RuleBook.perform_active h hall
  latestListed := RuleBook.perform_latestPerName h hall
  names := hall.latest_names
  covers r hr := by
    obtain ⟨o, ho, hname, hlast⟩ := h.reached.exists_latest hr
    exact ⟨o, List.mem_filter.2 ⟨hall.perm.mem_iff.2 ho, hlast⟩, hname⟩
  found := RuleBook.perform_latest? h hall

/-- In every world that a script of rule calls leads through, the versions of each name are numbered
without gaps and all listings agree, and making or changing a version there violates no unique
constraint. -/
theorem lists_versions_of_script {w₀ : World} (h₀ : w₀.IsNew) {steps : List (Step Call)}
    (hcalls : Step.CallsOf Call.OfRules steps)
    (hw : w ∈ Step.worldsOfAll (Call.perform cfg) steps w₀) :
    ∃ rules all, w.ListsVersions rules all ∧
      (∀ name conditions actions metadata description active e,
        ((RuleBook.create name conditions actions metadata description active).perform w).1 =
          .error e → e.isDuplicate = false) ∧
      ∀ id changes e, ((RuleBook.update id changes).perform w).1 = .error e →
        e.isDuplicate = false := by
  obtain ⟨base, rules, all, h, hall⟩ := exists_holdsRules_of_script h₀ hcalls hw
  refine ⟨rules, all, h.listsVersions hall, ?_, ?_⟩
  · intro name conditions actions metadata description active e he
    exact ((RuleBook.ends_create h name conditions actions metadata description active).bad_of_error
      (Prod.ext he rfl)).1
  · intro id changes e he
    exact ((RuleBook.ends_update h id changes).bad_of_error (Prod.ext he rfl)).1

/-- In every world that changing a rule twice leads through, its versions are numbered without gaps and
all listings agree; the numbers that were given up are given again. -/
theorem lists_versions_of_changeTwice :
    Step.CallsOf Call.OfRules Step.changeTwice ∧
      (∀ w ∈ Step.worldsOfAll (Call.perform .rupees) Step.changeTwice (fresh default),
        ∃ rules all, w.ListsVersions rules all) ∧
      (RuleBook.all.perform (Step.runAll (Call.perform .rupees) Step.changeTwice
        (fresh default)).2).1.toOption.map (fun found =>
          found.map fun r => (r.name.plainText, r.version.plainText)) =
            some [("A", "2"), ("A", "1")] := by
  refine ⟨Step.ofRules_changeTwice, fun w hw => ?_, by decide +kernel⟩
  obtain ⟨rules, all, hlists, -⟩ :=
    lists_versions_of_script (isNew_fresh default) Step.ofRules_changeTwice hw
  exact ⟨rules, all, hlists⟩

end World

/-! ## Evaluating -/

namespace RuleEngine

/-- When a JSON event happens, a condition that was read strictly holds or does not, or it is
unreadable; and in every world that a script of rule calls leads through, the engine answers, or one
of the active rules is unreadable. -/
theorem answers_of_script {event : Value} (hevent : event.IsJson) :
    (∀ written c, Condition.read .strict written = .ok c → c.Decided event) ∧
    ∀ (cfg : Config) (w₀ : World) (steps : List (Step Call)), w₀.IsNew →
      Step.CallsOf Call.OfRules steps → ∀ w ∈ Step.worldsOfAll (Call.perform cfg) steps w₀,
        ∃ asked, RuleBook.active.perform w = (.ok asked, w) ∧
          Answers asked ((evaluate event).perform w).1 ∧
          Answers asked ((explain event).perform w).1 := by
  refine ⟨fun written c hread => (Condition.Proper.of_read hread).decided hevent, ?_⟩
  intro cfg w₀ steps h₀ hcalls w hw
  obtain ⟨base, rules, all, h, hall⟩ := World.exists_holdsRules_of_script h₀ hcalls hw
  obtain ⟨hevaluate, hexplain⟩ := answers_of_holdsRules h hall hevent
  exact ⟨activeRules all, RuleBook.perform_active h hall, hevaluate, hexplain⟩

/-- A condition on a field is decided for an event that has it, and in every world that changing a rule
twice leads through, the engine answers for the event. -/
theorem answers_of_changeTwice :
    let event : Value := .object [("x", .int 1)]
    event.IsJson ∧ (Condition.presentAt "x").Decided event ∧
      ∀ w ∈ Step.worldsOfAll (Call.perform .rupees) Step.changeTwice (World.fresh default),
        ∃ asked, RuleBook.active.perform w = (.ok asked, w) ∧
          Answers asked ((evaluate event).perform w).1 ∧
          Answers asked ((explain event).perform w).1 := by
  intro event
  have hevent : event.IsJson := .object (List.forall_mem_singleton.2 (.int 1))
  obtain ⟨hdecided, hanswers⟩ := answers_of_script hevent
  exact ⟨hevent, hdecided (Condition.writtenPresent "x") _ rfl,
    hanswers .rupees _ _ (World.isNew_fresh default) Step.ofRules_changeTwice⟩

/-- A part of a path that consists of a superscript digit makes the evaluation fail where it meets a
list. -/
theorem evaluate_error_of_superscript :
    let event : Value := .object [("items", .list [.int 1])]
    event.IsJson ∧
      Condition.read .strict (Condition.writtenPresent "items.²") =
        .ok (Condition.presentAt "items.²") ∧
      (Condition.presentAt "items.²").evaluate event = .error (.notWhole "²") := by
  refine ⟨?_, rfl, rfl⟩
  refine .object (List.forall_mem_singleton.2 (.list (List.forall_mem_singleton.2 (.int 1))))

end RuleEngine

/-! ## Changing the content -/

/-- A rule is found by its identifier. -/
theorem RuleBook.perform_get (h : w.HoldsRules base rules) {r : StoredRule} (hr : r ∈ rules) :
    (get (.uuid r.id)).perform w = (.ok r.toRule, w) := by
  obtain ⟨columns, hget, hrow⟩ := h.lists.get_keyOf h.sound hr
  have hfound : (row (.uuid r.id)).Ends w (fun found w' => found = columns ∧ w' = w)
      fun _ _ => False := ends_bind (ends_query_ok hget (ends_pure ⟨rfl, rfl⟩))
  refine Ends.perform_eq (ends_bind (hfound.mono ?_ fun _ _ hbad => hbad))
  rintro _ _ ⟨rfl, rfl⟩
  exact ends_ofExcept_ok (IsRow.ofRow hrow) ⟨rfl, rfl⟩

namespace World

/-- The rule with the identifier has been replaced by another one, which is active. -/
structure Superseded (w : World) (id : Value) (w' : World) (source new : Rule) : Prop where
  /-- The rule had the identifier. -/
  was : (RuleBook.get id).perform w = (.ok source, w)
  /-- The other one is stored. -/
  stored : (RuleBook.get new.id).perform w' = (.ok new, w')
  /-- The other one is active. -/
  active : new.active.truthy = true
  /-- If the name has stayed, the rule is inactive. -/
  inactive : new.name = source.name →
    ∃ now, (RuleBook.get id).perform w' = (.ok now, w') ∧ now.active.truthy = false
  /-- If the name has stayed, no event asks for actions of the rule. -/
  silent : new.name = source.name → ∀ event ts,
    ((RuleEngine.evaluate event).perform w').1 = .ok ts → ∀ t ∈ ts, t.ruleId ≠ id
  /-- If the name has changed, the rule is as it was. -/
  renamed : new.name ≠ source.name → (RuleBook.get id).perform w' = (.ok source, w')

/-- In a world that holds versions a change of content supersedes the version that it was made from. -/
theorem HoldsRules.superseded (h : w.HoldsRules base rules) {id : Value}
    {changes : RuleBook.Changes} (hcontent : changes.concernContent = true)
    (hactive : changes.active.isNull = true ∨ changes.active.truthy = true) {new : Rule}
    {w' : World} (hrun : (RuleBook.update id changes).perform w = (.ok new, w')) :
    ∃ source, w.Superseded id w' source new := by
  obtain ⟨rules', hw', -, source, hsource, rfl, hcontents⟩ :=
    (RuleBook.ends_update h id changes).good_of_ok hrun
  obtain ⟨r, hreplaced, rfl⟩ := hcontents hcontent
  have hmem : ∀ o ∈ RuleBook.superseded r.name rules, o ∈ rules' := fun o ho => by
    rw [hreplaced.eq]
    exact List.mem_append_left _ ho
  -- the version with the identifier, after the versions of the new name have been retired
  let now := source.retired (RuleBook.activeIds r.name rules)
  have hnow : now ∈ RuleBook.superseded r.name rules := List.mem_map_of_mem hsource
  have hget : (RuleBook.get (.uuid source.id)).perform w' = (.ok now.toRule, w') := by
    rw [← retired_id (RuleBook.activeIds r.name rules) source]
    exact RuleBook.perform_get hw' (hmem now hnow)
  have hretired : r.name = source.name → now.isActive = false := fun hname =>
    RuleBook.isActive_of_mem_superseded hnow ((retired_name _ source).trans hname.symm)
  refine ⟨source.toRule, RuleBook.perform_get h hsource, RuleBook.perform_get hw' ?_, ?_, ?_, ?_, ?_⟩
  · rw [hreplaced.eq]
    exact List.mem_append_right _ (List.mem_singleton_self r)
  · show r.active.truthy = true
    rw [hreplaced.active]
    rcases hactive with hnull | htruthy
    · rw [if_pos hnull]
      rfl
    · split
      · rfl
      · exact htruthy
  · exact fun hname => ⟨now.toRule, hget, hretired (Value.str.inj hname)⟩
  · intro hname event ts hts t ht hid
    obtain ⟨all, hall⟩ := hw'.reached.exists_listing
    rw [RuleEngine.perform_evaluate hw' hall] at hts
    obtain ⟨_, hasked, -, hin⟩ := RuleEngine.exists_rule_of_triggered hts t ht
    obtain ⟨_, -, rfl⟩ := List.mem_map.1 hin
    obtain ⟨o, ho, rfl⟩ := List.mem_map.1 hasked
    obtain ⟨ho, hon⟩ := List.mem_filter.1 ho
    -- the version that is asked has the identifier, so it is the one that is inactive
    have hsame : o.id = now.id := (Value.uuid.inj hid).trans (retired_id _ source).symm
    obtain rfl := hw'.reached.eq_of_id (hall.perm.subset ho) (hmem now hnow) hsame
    rw [hretired (Value.str.inj hname)] at hon
    cases hon
  · intro hname
    have hstays := RuleBook.mem_superseded_of_ne h.reached hsource fun hsame =>
      hname (congrArg Value.str hsame.symm)
    exact RuleBook.perform_get hw' (hmem source hstays)

/-- In every world that a script of rule calls leads through, a change of content supersedes the rule
that it was made from. -/
theorem superseded_of_script {w₀ : World} (h₀ : w₀.IsNew) {steps : List (Step Call)}
    (hcalls : Step.CallsOf Call.OfRules steps)
    (hw : w ∈ Step.worldsOfAll (Call.perform cfg) steps w₀) {id : Value}
    {changes : RuleBook.Changes} (hcontent : changes.concernContent = true)
    (hactive : changes.active.isNull = true ∨ changes.active.truthy = true) {new : Rule}
    {w' : World} (hrun : (RuleBook.update id changes).perform w = (.ok new, w')) :
    ∃ source, w.Superseded id w' source new := by
  obtain ⟨base, rules, -, h, -⟩ := exists_holdsRules_of_script h₀ hcalls hw
  exact h.superseded hcontent hactive hrun

/-- The rule that was described twice supersedes the rule that it was made from. -/
theorem superseded_of_changeTwice :
    let w := (Step.runAll (Call.perform .rupees) Step.changeTwice (fresh default)).2
    let changes : RuleBook.Changes := { description := .str "again" }
    Step.CallsOf Call.OfRules Step.changeTwice ∧ changes.concernContent = true ∧
      changes.active.isNull = true ∧
      ∃ new w', (RuleBook.update (.uuid ⟨1⟩) changes).perform w = (.ok new, w') ∧
        ∃ source, w.Superseded (.uuid ⟨1⟩) w' source new := by
  intro w changes
  have hok : ((RuleBook.update (.uuid ⟨1⟩) changes).perform w).1.isOk = true := by decide +kernel
  generalize hrun : (RuleBook.update (.uuid ⟨1⟩) changes).perform w = run at hok
  obtain ⟨e | new, w'⟩ := run
  · cases hok
  · have hmem : w ∈ Step.worldsOfAll (Call.perform .rupees) Step.changeTwice (fresh default) :=
      Step.runAll_mem_worldsOfAll _ _ _
    exact ⟨Step.ofRules_changeTwice, rfl, rfl, new, w', rfl,
      superseded_of_script (isNew_fresh default) Step.ofRules_changeTwice hmem rfl (.inl rfl) hrun⟩

/-- A rule that was renamed is still active, and an event asks for the actions of both. -/
theorem both_asked_of_rename :
    let w := (Step.runAll (Call.perform .rupees) (Step.changeTwice.take 1) (fresh default)).2
    let w' := ((RuleBook.update (.uuid ⟨1⟩) { name := .str "B" }).perform w).2
    (((RuleEngine.evaluate (.object [("x", .int 1)])).perform w').1.toOption.map fun ts =>
      ts.map fun t => (t.ruleId.plainText, t.ruleName.plainText)) =
        some [("00000000-0000-0000-0000-000000000001", "A"),
          ("00000000-0000-0000-0000-000000000002", "B")] := by
  decide +kernel

end World

end RewardLedger
