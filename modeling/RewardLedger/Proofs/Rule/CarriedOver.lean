import RewardLedger.Proofs.Rule.Laws
import RewardLedger.Proofs.Rule.ReadBack

/-!
# What a change carries over

A change of the content of a rule adds one row with a new identifier. The new version has the parts
that were given, its condition and actions in the one form in which they are stored, and takes over the
others from the version that it was made from; only whether it is active is not taken over
(`World.CarriedOver`). A change that concerns no content adds no row. Either way every row that was
there keeps every column but whether its version is active (`World.RowsBecome`).
-/

namespace RewardLedger

open Op StoredRule

variable {cfg : Config} {base base' : Option Store} {rules : List StoredRule} {w w' : World}

/-! ## Rows -/

/-- Every column is the same, except whether the rule is active. -/
def Fields.SameButActive (columns columns' : Fields) : Prop :=
  ∀ c, c ≠ "is_active" → columns'.get c = columns.get c

/-- The rows of a version before and after it was switched are the same but for that. -/
theorem StoredRule.SameButActive.columns {r r' : StoredRule} (h : r.SameButActive r')
    {columns columns' : Fields} (hrow : r.IsRow columns) (hrow' : r'.IsRow columns') :
    columns.SameButActive columns' := by
  intro c hc
  rw [h] at hrow'
  have hsame : ∀ {name : String} {v : Value}, columns.find? name = some v →
      columns'.find? name = some v → columns'.get name = columns.get name := fun hv hv' => by
    rw [Fields.get, Fields.get, hv, hv']
  by_cases hown : c ∈ rowColumns
  · simp only [rowColumns, List.mem_cons, List.not_mem_nil, or_false] at hown
    rcases hown with rfl | rfl | rfl | rfl | rfl | rfl | rfl | rfl | rfl | rfl
    · exact hsame hrow.id hrow'.id
    · exact hsame hrow.name hrow'.name
    · exact hsame hrow.version hrow'.version
    · exact hsame hrow.condition hrow'.condition
    · exact hsame hrow.actions hrow'.actions
    · exact absurd rfl hc
    · exact hsame hrow.description hrow'.description
    · exact hsame hrow.metadata hrow'.metadata
    · exact hsame hrow.createdAt hrow'.createdAt
    · exact hsame hrow.place hrow'.place
  · rw [hrow.others c hown, hrow'.others c hown]

namespace World

/-- The rows of rules stay as they are, but for which of them are active, and rows with new identifiers
are added behind them. -/
def RowsBecome (w w' : World) (added : List Fields) : Prop :=
  ∃ rows kept, w.store.all rulesTable = .ok rows ∧
    w'.store.all rulesTable = .ok (kept ++ added) ∧
    List.Forall₂ Fields.SameButActive rows kept ∧
    ∀ row ∈ rows, ∀ new ∈ added, row.get "id" ≠ new.get "id"

/-- Where versions have only been switched and others been added, the rows are those of the switched
versions and of the added ones. -/
theorem HoldsRules.rowsBecome (h : w.HoldsRules base rules) {f : StoredRule → StoredRule}
    (hf : ∀ r : StoredRule, r.SameButActive (f r)) {news : List StoredRule}
    (h' : w'.HoldsRules base' (rules.map f ++ news)) (hnew : ∀ o ∈ rules, ∀ r ∈ news, o.id ≠ r.id) :
    ∃ added, w.RowsBecome w' added ∧ RuleBook.RowsOf added news := by
  obtain ⟨rows, hrows, hstand⟩ := h.lists.all h.sound
  obtain ⟨rows', hrows', hstand'⟩ := h'.lists.all h'.sound
  -- the rows are those of the switched versions, and behind them those of the added ones
  have hkept := List.forall₂_take_append _ _ _ hstand'
  have hadded := List.forall₂_drop_append _ _ _ hstand'
  rw [← List.take_append_drop (rules.map f).length rows'] at hrows'
  refine ⟨_, ⟨rows, _, hrows, hrows', ?_, fun row hrow new hmem => ?_⟩, hadded⟩
  · have hswitched : List.Forall₂ (fun r columns => (f r).IsRow columns) rules
        (rows'.take (rules.map f).length) := List.forall₂_map_left_iff.1 hkept.flip
    refine Store.forall₂_of_forall₂ (fun _ r _ hr hr' => ?_) hstand hswitched
    exact SameButActive.columns (hf r) hr hr'
  · obtain ⟨o, ho, hrow⟩ := exists_mem_of_forall₂ hstand hrow
    obtain ⟨r, hr, hnewrow⟩ := exists_mem_of_forall₂ hadded hmem
    rw [Fields.get, Fields.get, StoredRule.IsRow.id hrow, StoredRule.IsRow.id hnewrow]
    exact fun hid => hnew o ho r hr (Value.uuid.inj hid)

end World

/-! ## The parts of the new version -/

namespace RuleBook.Replaced

variable {changes : Changes} {rules' : List StoredRule} {source r : StoredRule} {columns : Fields}

/-- The condition is the given one as it is read, or that of the source. -/
theorem condition (h : Replaced changes rules source r rules') (hsource : source.IsRow columns) :
    match changes.conditions with
    | some written => Condition.read .strict written = .ok r.condition
    | none => r.condition = source.condition := by
  have hread := h.made.condition
  cases hgiven : changes.conditions with
  | some written =>
    rw [hgiven] at hread
    exact hread
  | none =>
    -- the written form of the condition of the source is read as that condition
    rw [hgiven, Option.getD_none, Condition.Proper.read_toValue hsource.proper] at hread
    exact (Except.ok.inj hread).symm

/-- The actions are the given ones as they are read, or those of the source. -/
theorem actions (h : Replaced changes rules source r rules') (hsource : source.IsRow columns) :
    match changes.actions with
    | some written => Action.readList .strict written = .ok r.actions
    | none => r.actions = source.actions := by
  have hread := h.made.actions
  cases hgiven : changes.actions with
  | some written =>
    rw [hgiven] at hread
    exact hread
  | none =>
    rw [hgiven, Option.getD_none] at hread
    -- no actions at all would have been refused
    have hne : source.actions ≠ [] := fun hnil => by
      rw [hnil] at hread
      cases hread
    rw [Action.readList_listToValue_of_ne_nil hne hsource.properActions] at hread
    exact (Except.ok.inj hread).symm

/-- The further particulars are the given ones as an object, or those of the source. -/
theorem metadata (h : Replaced changes rules source r rules') (hsource : source.IsRow columns) :
    if changes.metadata.isNull then r.toRule.metadata = source.toRule.metadata
    else (changes.metadata.orElse (.object [])).asObject = .ok r.toRule.metadata := by
  have hmetadata := h.made.metadata
  have hnew : r.toRule.metadata = r.metadata := Value.orElse_of_asObject hmetadata
  rw [hnew]
  split at hmetadata
  · next hnull =>
    -- those of the source are an object
    have hobject : (source.metadata.orElse (.object [])).asObject = .ok source.toRule.metadata := by
      show _ = Except.ok (source.metadata.orElse (.object []))
      unfold Value.orElse
      split
      · exact hsource.object
      · rfl
    rw [if_pos hnull]
    exact Except.ok.inj (hmetadata.symm.trans hobject)
  · next hgiven =>
    rw [if_neg hgiven]
    exact hmetadata

end RuleBook.Replaced

namespace World

/-! ## Changing a rule -/

/-- The rule with the identifier was the source, and a change of its content has made the new rule, whose
parts are those that were given, and those of the source where none were given. -/
structure CarriedOver (w : World) (id : Value) (changes : RuleBook.Changes) (w' : World)
    (source new : Rule) : Prop where
  /-- The source had the identifier. -/
  was : (RuleBook.get id).perform w = (.ok source, w)
  /-- The new rule is stored. -/
  stored : (RuleBook.get new.id).perform w' = (.ok new, w')
  /-- An empty name counts as none. -/
  name : new.name = if changes.name.truthy then changes.name else source.name
  /-- A condition that was given has been read. -/
  condition : match changes.conditions with
    | some written => Condition.read .strict written = .ok new.condition
    | none => new.condition = source.condition
  /-- Actions that were given have been read. -/
  actions : match changes.actions with
    | some written => Action.readList .strict written = .ok new.actions
    | none => new.actions = source.actions
  /-- The description is the given one. -/
  description : new.description =
    if changes.description.isNull then source.description else changes.description
  /-- Further particulars that were given are taken as an object. -/
  metadata : if changes.metadata.isNull then new.metadata = source.metadata
    else (changes.metadata.orElse (.object [])).asObject = .ok new.metadata
  /-- The new rule is active unless it was asked not to be, whether the source was active or not. -/
  active : new.active = if changes.active.isNull then .bool true else changes.active
  /-- One row is added, that of the new rule, with the written forms of its condition and actions. -/
  rows : ∃ row, w.RowsBecome w' [row] ∧ Rule.ofRow row = .ok new ∧
    row.get "conditions" = new.condition.toValue ∧
    row.get "actions" = Action.listToValue new.actions

/-- In a world that holds versions a change of content carries over what it was not given. -/
theorem HoldsRules.carriedOver (h : w.HoldsRules base rules) {id : Value}
    {changes : RuleBook.Changes} (hcontent : changes.concernContent = true) {new : Rule}
    (hrun : (RuleBook.update id changes).perform w = (.ok new, w')) :
    ∃ source, w.CarriedOver id changes w' source new := by
  obtain ⟨rules', hw', -, source, hsource, rfl, hcontents⟩ :=
    (RuleBook.ends_update h id changes).good_of_ok hrun
  obtain ⟨r, hreplaced, rfl⟩ := hcontents hcontent
  obtain ⟨columns, -, hrow⟩ := h.lists.get_keyOf h.sound hsource
  have heq := hreplaced.eq
  subst heq
  obtain ⟨added, hrows, hadded⟩ := h.rowsBecome (retired_eq _) hw' fun o ho r' hr' => by
    rw [List.mem_singleton.1 hr']
    exact hreplaced.fresh o ho
  -- exactly one row was added, and it stands for the new version
  obtain ⟨row, rfl, hnew⟩ : ∃ row, added = [row] ∧ r.IsRow row := by
    obtain _ | ⟨hnew, hnil⟩ := hadded
    cases hnil
    exact ⟨_, rfl, hnew⟩
  exact ⟨source.toRule, {
    was := RuleBook.perform_get h hsource
    stored := RuleBook.perform_get hw' (List.mem_append_right _ (List.mem_singleton_self r))
    name := hreplaced.made.name.symm
    condition := hreplaced.condition hrow
    actions := hreplaced.actions hrow
    description := hreplaced.made.description
    metadata := hreplaced.metadata hrow
    active := hreplaced.active
    rows := ⟨row, hrows, hnew.ofRow, congrArg (·.getD .null) hnew.condition,
      congrArg (·.getD .null) hnew.actions⟩ }⟩

/-- In a world that holds versions a change that concerns no content adds no row, whether it succeeds or
fails. -/
theorem HoldsRules.rowsBecome_of_not_content (h : w.HoldsRules base rules) (id : Value)
    {changes : RuleBook.Changes} (hcontent : changes.concernContent = false) :
    w.RowsBecome ((RuleBook.update id changes).perform w).2 [] := by
  have hvia : ((RuleBook.update id changes).perform w).2.RulesVia RuleBook.Switches base rules :=
    (RuleBook.ends_update_of_not_content h id hcontent).perform_snd
  obtain ⟨_, ⟨-, f, hf, rfl⟩, hw'⟩ := hvia
  rw [← List.append_nil (rules.map f)] at hw'
  obtain ⟨added, hrows, hadded⟩ := h.rowsBecome hf hw' fun _ _ _ hmem => nomatch hmem
  cases hadded
  exact hrows

/-- In every world that a script of rule calls leads through, a change of the content of a rule carries
over every part that it was not given, except whether the rule is active, and any other change adds no
row. -/
theorem carried_over_of_script {w₀ : World} (h₀ : w₀.IsNew) {steps : List (Step Call)}
    (hcalls : Step.CallsOf Call.OfRules steps)
    (hw : w ∈ Step.worldsOfAll (Call.perform cfg) steps w₀) (id : Value)
    (changes : RuleBook.Changes) :
    (changes.concernContent = true → ∀ new w',
      (RuleBook.update id changes).perform w = (.ok new, w') →
        ∃ source, w.CarriedOver id changes w' source new) ∧
    (changes.concernContent = false →
      w.RowsBecome ((RuleBook.update id changes).perform w).2 []) := by
  obtain ⟨base, rules, -, h, -⟩ := exists_holdsRules_of_script h₀ hcalls hw
  exact ⟨fun hcontent _ _ hrun => h.carriedOver hcontent hrun, h.rowsBecome_of_not_content id⟩

/-- A rule that was changed twice carries over what it is not given when it is described again, and no row
is added when it is switched off. -/
theorem carried_over_of_changeTwice :
    let w := (Step.runAll (Call.perform .rupees) Step.changeTwice (fresh default)).2
    let changes : RuleBook.Changes := { description := .str "again" }
    Step.CallsOf Call.OfRules Step.changeTwice ∧
      (∃ new w', (RuleBook.update (.uuid ⟨1⟩) changes).perform w = (.ok new, w') ∧
        ∃ source, w.CarriedOver (.uuid ⟨1⟩) changes w' source new) ∧
      w.RowsBecome ((RuleBook.update (.uuid ⟨1⟩) { active := .bool false }).perform w).2 [] := by
  intro w changes
  have hmem : w ∈ Step.worldsOfAll (Call.perform .rupees) Step.changeTwice (fresh default) :=
    Step.runAll_mem_worldsOfAll _ _ _
  have hok : ((RuleBook.update (.uuid ⟨1⟩) changes).perform w).1.isOk = true := by decide +kernel
  generalize hrun : (RuleBook.update (.uuid ⟨1⟩) changes).perform w = run at hok
  obtain ⟨e | new, w'⟩ := run
  · cases hok
  refine ⟨Step.ofRules_changeTwice, ⟨new, w', rfl, ?_⟩, ?_⟩
  · exact (carried_over_of_script (isNew_fresh default) Step.ofRules_changeTwice hmem _ changes).1 rfl
      new w' hrun
  · exact (carried_over_of_script (isNew_fresh default) Step.ofRules_changeTwice hmem _ _).2 rfl

/-- A rule that was switched off is active again once it has been described, though nothing was said of
that. -/
theorem active_again_of_described :
    let off := [.call (.deactivateRule (.uuid ⟨1⟩)) false]
    let w := (Step.runAll (Call.perform .rupees) (Step.changeTwice.take 1 ++ off) (fresh default)).2
    let changes : RuleBook.Changes := { description := .str "described" }
    changes.concernContent = true ∧ changes.active.isNull = true ∧
      ((RuleBook.get (.uuid ⟨1⟩)).perform w).1.toOption.map (·.active.truthy) = some false ∧
      ((RuleBook.update (.uuid ⟨1⟩) changes).perform w).1.toOption.map (·.active.truthy) =
        some true := by
  decide +kernel

end World

end RewardLedger
