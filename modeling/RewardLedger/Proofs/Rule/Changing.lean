import RewardLedger.Proofs.Ledger.Paging
import RewardLedger.Proofs.Rule.Reading
import RewardLedger.Proofs.Rule.Worlds
import RewardLedger.Rule.Book

/-!
# Making and switching versions

What the operations of the rule book do to the versions that a world holds. Each of them leads to
versions by steps of the rule book, whether it succeeds or fails, and none of them fails for a
violated unique constraint. Making a version retires the active versions of its name and adds the next
one (`RuleBook.ends_create`); a change of the content of a version makes such a version, of the same
name or of another (`RuleBook.ends_update`).
-/

namespace RewardLedger

open StoredRule Op

/-! ## Reading violates no constraint -/

/-- What is refused is no violated constraint. -/
theorem RuleFault.Refuses.isDuplicate_eq_false {strictness : Strictness} {v : Value} {e : Failure}
    (h : Refuses strictness v e) : e.isDuplicate = false := by
  obtain ⟨-, fault, rfl⟩ | ⟨-, rfl⟩ := h
  · rfl
  · rfl

namespace Condition

/-- Reading a condition leniently meets no fault. -/
theorem noFault_read_lenient (v : Value) : NoFault (read .lenient v) :=
  (failsOnly_read .lenient v).mono fun _ he => by
    obtain ⟨hstrict, -⟩ | ⟨-, rfl⟩ := he
    · cases hstrict
    · rfl

/-- Refusing a fault violates no constraint. -/
theorem noDuplicate_refuse {α : Type} (strictness : Strictness) (fault : RuleFault) (otherwise : α) :
    NoDuplicate (refuse strictness fault otherwise) :=
  (failsOnly_refuse _ _ _ (v := .null)).mono fun _ => RuleFault.Refuses.isDuplicate_eq_false

/-- Reading a condition violates no constraint. -/
theorem noDuplicate_read (strictness : Strictness) (v : Value) : NoDuplicate (read strictness v) :=
  (failsOnly_read strictness v).mono fun _ => RuleFault.Refuses.isDuplicate_eq_false

end Condition

/-- Reading an action violates no constraint. -/
theorem Action.noDuplicate_read (strictness : Strictness) (v : Value) :
    NoDuplicate (read strictness v) := by
  have hname : ∀ (fault : RuleFault) (v : Value) (otherwise : String → String),
      NoDuplicate (Condition.refuseName strictness fault v otherwise) := fun _ _ _ =>
    (Condition.failsOnly_refuseName _ _ _ _).mono fun _ => RuleFault.Refuses.isDuplicate_eq_false
  unfold read
  split
  · refine FailsOnly.bind ?_ fun params => FailsOnly.bind ?_ fun type => .ok _
    · unfold readParams
      split
      · exact .ok _
      · exact .ok _
      · exact Condition.noDuplicate_refuse _ _ _
    · unfold readType
      split
      · split
        · exact .ok _
        · exact Condition.noDuplicate_refuse _ _ _
      · exact hname _ _ _
  · exact .error rfl

/-- Reading actions violates no constraint. -/
theorem Action.noDuplicate_readList (strictness : Strictness) (v : Value) :
    NoDuplicate (readList strictness v) := by
  unfold readList
  split
  · rename_i items
    have hall : NoDuplicate (items.mapM (read strictness)) := .mapM fun v _ => noDuplicate_read _ v
    dsimp only
    split
    · exact (Condition.noDuplicate_refuse _ _ _).bind fun _ => hall
    · exact hall
  · exact .error rfl

/-! ## Rows of versions -/

namespace StoredRule

/-- Whether the name of a version is a given text can be read from its row. -/
theorem IsRow.columnIs_name {r : StoredRule} {columns : Fields} (h : r.IsRow columns) (s : String) :
    columns.columnIs "name" (.str s) = .ok (decide (r.name = s)) := by
  rw [Fields.columnIs, column_eq h.name, ← beq_eq_decide, ← Value.sameKey_str]
  exact Value.equalTo_str _ _

/-- Whether a version is active can be read from its row. -/
theorem IsRow.isActive {r : StoredRule} {columns : Fields} (h : r.IsRow columns) :
    RuleBook.isActive columns = .ok r.isActive := by
  rw [RuleBook.isActive, column_eq h.active]
  rfl

end StoredRule

namespace RuleBook

variable {base : Option Store} {rules rules' : List StoredRule} {w : World}

/-- The rows stand for the versions, one by one. -/
def RowsOf (rows : List Fields) (olds : List StoredRule) : Prop :=
  List.Forall₂ (fun columns r => IsRow r columns) rows olds

/-- The rows of a name are selected by it. -/
theorem exists_select_name (h : w.HoldsRules base rules) (name : String) :
    ∃ rows, w.store.select rulesTable (·.columnIs "name" (.str name)) = .ok rows ∧
      RowsOf rows (rules.filter (·.name = name)) :=
  h.lists.select h.sound fun _ _ hr => IsRow.columnIs_name hr name

/-- The active rows of a name are selected by both. -/
theorem exists_select_active (h : w.HoldsRules base rules) (name : String) :
    ∃ rows, (w.store.select rulesTable fun o => do
        if ← o.columnIs "name" (.str name) then isActive o else pure false) = .ok rows ∧
      RowsOf rows (rules.filter fun o => decide (o.name = name) && o.isActive) := by
  refine h.lists.select h.sound fun o columns ho => ?_
  simp only [IsRow.columnIs_name ho, bind, Except.bind, IsRow.isActive ho]
  cases decide (o.name = name) <;> rfl

/-! ## The next version -/

/-- The greatest of numbers that ascend one by one is the last. -/
theorem foldlM_greaterVersion {rows : List Fields} {olds : List StoredRule} (h : RowsOf rows olds)
    (k : Nat) (hversions : olds.map (·.version) = List.range' (k + 1) olds.length) :
    rows.foldlM greaterVersion (some (.int k)) =
      .ok (some (.int ((k + olds.length : Nat) : Int))) := by
  induction h generalizing k with
  | nil => rfl
  | @cons columns r rest olds hr _ ih =>
    rw [List.map_cons, List.length_cons, List.range'_succ, List.cons.injEq] at hversions
    obtain ⟨hversion, hrest⟩ := hversions
    have hgreater : (Value.int (k + 1 : Nat)).greaterThan (.int k) = .ok true := by
      rw [Value.greaterThan, Value.related_int, OrderRelation.admits_greater]
      simp
    have hnext : greaterVersion (some (.int k)) columns = .ok (some (.int (k + 1 : Nat))) := by
      simp only [greaterVersion, column_eq hr.version, bind, Except.bind, hversion, hgreater]
      rfl
    rw [List.foldlM_cons, hnext]
    refine (ih (k + 1) hrest).trans ?_
    rw [List.length_cons, Nat.add_assoc, Nat.add_comm 1]

/-- The number of the next version of a name is one more than there are versions. -/
theorem nextVersion_eq {rows : List Fields} {olds : List StoredRule} (h : RowsOf rows olds)
    (hversions : olds.map (·.version) = List.range' 1 olds.length) :
    nextVersion rows = .ok (.int ((olds.length + 1 : Nat) : Int)) := by
  cases h with
  | nil => rfl
  | @cons columns r rest olds hr hrest =>
    rw [List.map_cons, List.length_cons, List.range'_succ, List.cons.injEq] at hversions
    obtain ⟨hversion, hversions⟩ := hversions
    have hfirst : greaterVersion none columns = .ok (some (.int (1 : Nat))) := by
      rw [greaterVersion, column_eq hr.version, hversion]
      rfl
    have hfold := foldlM_greaterVersion hrest 1 hversions
    rw [nextVersion, List.foldlM_cons, hfirst]
    simp only [bind, Except.bind, hfold, Value.successor_int, List.length_cons]
    norm_cast
    rw [Nat.add_comm 1]

/-! ## Retiring versions -/

/-- The identifiers of the active versions of a name. -/
def activeIds (name : String) (rules : List StoredRule) : List Uuid :=
  ((rules.filter (·.name = name)).filter StoredRule.isActive).map (·.id)

/-- The versions after those of a name have been retired. -/
def superseded (name : String) (rules : List StoredRule) : List StoredRule :=
  rules.map (retired (activeIds name rules))

/-- No version of a name that has been retired is active. -/
theorem isActive_of_mem_superseded {name : String} {o : StoredRule} (ho : o ∈ superseded name rules)
    (hname : o.name = name) : o.isActive = false := by
  obtain ⟨r, hr, rfl⟩ := List.mem_map.1 ho
  rw [retired_name] at hname
  refine Bool.eq_false_iff.2 fun hactive => ?_
  obtain ⟨hactive, hnot⟩ := isActive_retired hactive
  refine hnot (List.mem_map_of_mem (List.mem_filter.2 ⟨List.mem_filter.2 ⟨hr, ?_⟩, hactive⟩))
  exact decide_eq_true hname

/-- Retiring the versions of a name leaves those of other names as they are. -/
theorem mem_superseded_of_ne (h : Steps [] rules) {name : String} {r : StoredRule} (hr : r ∈ rules)
    (hname : r.name ≠ name) : r ∈ superseded name rules := by
  refine List.mem_map.2 ⟨r, hr, if_neg fun hmem => hname ?_⟩
  obtain ⟨o, ho, hid⟩ := List.mem_map.1 hmem
  have ho' := List.mem_filter.1 (List.mem_filter.1 ho).1
  obtain rfl := h.eq_of_id ho'.1 hr hid
  simpa using ho'.2

/-- Steps that change only which versions are active lead from the first versions to the second
ones. -/
def Switches (rules rules' : List StoredRule) : Prop :=
  Steps rules rules' ∧
    ∃ f : StoredRule → StoredRule, (∀ r : StoredRule, r.SameButActive (f r)) ∧ rules' = rules.map f

namespace Switches

theorem refl (rules : List StoredRule) : Switches rules rules :=
  ⟨.refl, id, .refl, (List.map_id rules).symm⟩

theorem trans {rules'' : List StoredRule} (h : Switches rules rules')
    (h' : Switches rules' rules'') : Switches rules rules'' := by
  obtain ⟨hsteps, f, hf, rfl⟩ := h
  obtain ⟨hsteps', g, hg, rfl⟩ := h'
  exact ⟨hsteps.trans hsteps', g ∘ f, fun r => (hf r).trans (hg (f r)), List.map_map⟩

/-- What is done to each version only switches if it changes only whether the version is active. -/
theorem map {f : StoredRule → StoredRule} (h : Steps rules (rules.map f))
    (hf : ∀ r : StoredRule, r.SameButActive (f r)) : Switches rules (rules.map f) := ⟨h, f, hf, rfl⟩

/-- What has been switched after it has been switched has been switched. -/
theorem rulesVia (h : Switches rules rules') (h' : w.RulesVia Switches base rules') :
    w.RulesVia Switches base rules := by
  obtain ⟨rules'', hvia, hw⟩ := h'
  exact ⟨rules'', h.trans hvia, hw⟩

/-- What has been switched has been led to by steps. -/
theorem rulesFrom (h : w.RulesVia Switches base rules) : w.RulesFrom base rules := by
  obtain ⟨rules', hvia, hw⟩ := h
  exact ⟨rules', hvia.1, hw⟩

end Switches

/-- Working through rows and switching off those of the versions that are chosen retires these. -/
theorem ends_retireEach {f : Fields → Op PUnit} (chosen : StoredRule → Bool)
    (hf : ∀ r columns, IsRow r columns → f columns =
      if chosen r then
        discard (change (Store.update rulesTable (.uuid r.id) [("is_active", .bool false)]))
      else pure ())
    {rows : List Fields} {olds : List StoredRule} (hrows : RowsOf rows olds)
    (h : w.HoldsRules base rules) (hthere : ∀ o ∈ olds, ∃ r ∈ rules, r.id = o.id) :
    (rows.forM f).Ends w
      (fun _ w' => Steps rules (rules.map (retired ((olds.filter chosen).map (·.id)))) ∧
        w'.HoldsRules base (rules.map (retired ((olds.filter chosen).map (·.id)))))
      fun e w' => e.isDuplicate = false ∧ w'.RulesVia Switches base rules := by
  induction hrows generalizing w rules with
  | nil =>
    have hnone : rules.map (retired []) = rules := by
      rw [show retired [] = fun r => r from funext fun r => if_neg List.not_mem_nil, List.map_id']
    show (pure () : Op PUnit).Ends w _ _
    refine ends_pure ?_
    rw [List.filter_nil, List.map_nil, hnone]
    exact ⟨.refl, h⟩
  | @cons columns o rest olds ho _ ih =>
    show (f columns >>= fun _ => rest.forM f).Ends w _ _
    refine ends_bind ?_
    rw [hf o columns ho]
    cases hchosen : chosen o with
    -- a version that is not chosen is passed over
    | false =>
      rw [List.filter_cons_of_neg (by rw [hchosen]; decide)]
      exact ends_pure (ih h fun p hp => hthere p (List.mem_cons_of_mem _ hp))
    | true =>
      rw [List.filter_cons_of_pos hchosen, List.map_cons]
      obtain ⟨r, hr, hid⟩ := hthere o List.mem_cons_self
      rw [← hid]
      have hstep : Step rules (rules.map (switched r.id (.bool false))) :=
        .switch hr fun hon => by cases hon
      have hswitches := Switches.map (Relation.ReflTransGen.single hstep) (switched_eq _ _)
      -- switching it off and retiring the rest is retiring all that are chosen
      have hcompose : ∀ ids, (rules.map (switched r.id (.bool false))).map (retired ids) =
          rules.map (retired (r.id :: ids)) := fun ids => by
        rw [List.map_map]
        exact List.map_congr_left fun x _ => retired_switched _ _ _
      refine ends_map ((ends_switch h hr fun hon => by cases hon).mono ?_ ?_)
      · rintro _ w' ⟨hw', -⟩
        have hrest := ih hw' fun p hp => by
          obtain ⟨q, hq, hqp⟩ := hthere p (List.mem_cons_of_mem _ hp)
          exact ⟨_, List.mem_map_of_mem hq, by rw [switched_id, hqp]⟩
        refine hrest.mono ?_ fun e w'' hbad => ⟨hbad.1, hswitches.rulesVia hbad.2⟩
        rintro _ w'' ⟨hsteps, hw''⟩
        rw [hcompose] at hsteps hw''
        exact ⟨.head hstep hsteps, hw''⟩
      · exact fun e w' hbad => ⟨hbad.1, rules, .refl _, hbad.2⟩

/-! ## Making a version -/

/-- A transaction on versions ends well if its body does inside the transaction. -/
theorem ends_atomicRules {α : Type} {op : Op α} {Q : α → List StoredRule → Prop}
    {B : Failure → Prop} (h : w.HoldsRules base rules)
    (hop : op.Ends w.enter
      (fun a w' => ∃ rules', w'.HoldsRules (some (base.getD w.store)) rules' ∧ Q a rules')
      fun e w' => B e ∧ w'.RulesFrom (some (base.getD w.store)) rules) :
    (transaction op).Ends w (fun a w' => ∃ rules', w'.HoldsRules base rules' ∧ Q a rules')
      fun e w' => B e ∧ w'.RulesFrom base rules := by
  refine ends_transaction (hop.mono ?_ fun e w' hbad => ⟨hbad.1, hbad.2.leave h false⟩)
  rintro a w' ⟨rules', hw', hQ⟩
  exact ⟨rules', h.leave hw', hQ⟩

/-- The version is made of what was given, each part as it is read. -/
structure MadeOf (r : StoredRule) (name conditions actions metadata description active : Value) :
    Prop where
  /-- The name is the given one. -/
  name : name = .str r.name
  /-- The condition is the one that is read. -/
  condition : Condition.read .strict conditions = .ok r.condition
  /-- The actions are those that are read. -/
  actions : Action.readList .strict actions = .ok r.actions
  /-- The further particulars are those that are given, as an object. -/
  metadata : (metadata.orElse (.object [])).asObject = .ok r.metadata
  /-- The description is the given one. -/
  description : r.description = description
  /-- It is active as it was asked for. -/
  active : r.active = active

/-- The version is the next one of its name, and the others of the name are retired. -/
structure Created (rules : List StoredRule) (r : StoredRule) (rules' : List StoredRule) : Prop where
  /-- The version stands behind the others. -/
  eq : rules' = superseded r.name rules ++ [r]
  /-- Steps lead there. -/
  steps : Steps rules rules'
  /-- The identifier is a new one. -/
  fresh : ∀ o ∈ rules, o.id ≠ r.id

/-- The name of a rule is a text. -/
theorem exists_of_isName {name : Value} (h : isName name = true) : ∃ s, name = .str s := by
  cases name with
  | str s => exact ⟨s, rfl⟩
  | _ => cases h

/-- Deactivating the rows of a name retires its versions. -/
theorem ends_deactivateAll (h : w.HoldsRules base rules) (name : String) {rows : List Fields}
    (hrows : RowsOf rows (rules.filter (·.name = name))) :
    (deactivateAll rows).Ends w
      (fun _ w' => Steps rules (superseded name rules) ∧
        w'.HoldsRules base (superseded name rules))
      fun e w' => e.isDuplicate = false ∧ w'.RulesFrom base rules := by
  refine (ends_retireEach StoredRule.isActive (fun r columns hr => ?_) hrows h
    fun o ho => ⟨o, (List.mem_filter.1 ho).1, rfl⟩).mono (fun _ _ hgood => hgood)
    fun _ _ hbad => ⟨hbad.1, Switches.rulesFrom hbad.2⟩
  rw [hr.isActive, column_eq hr.id]
  cases r.isActive <;> rfl

/-- When the active versions of a name have been retired, adding a row with the next number makes the
next version of the name. -/
theorem ends_addNext {name : String} (h : w.HoldsRules base (superseded name rules))
    (hsteps : Steps rules (superseded name rules)) {conditions : Value} {condition : Condition}
    (hcondition : Condition.read .strict conditions = .ok condition) {actions : Value}
    {read : List Action} (hactions : Action.readList .strict actions = .ok read)
    {version : Nat} (hversion : version = (versionsOf name rules).length + 1)
    (metadata description active : Value) :
    (do
      let id ← Op.freshId
      let metadata ← Op.ofExcept (metadata.orElse (.object [])).asObject
      let now ← Op.readClock
      let stored ← Op.change (Store.insert rulesTable [
        ("id", .uuid id), ("name", .str name), ("description", description),
        ("version", .int version), ("conditions", condition.toValue),
        ("actions", Action.listToValue read), ("is_active", active), ("metadata", metadata),
        ("created_at", .instant now)])
      pure (stored, .int version) : Op (Fields × Value)).Ends w
      (fun stored w' => ∃ rules', w'.HoldsRules base rules' ∧ ∃ r, Created rules r rules' ∧
        IsRow r stored.1 ∧
        MadeOf r (.str name) conditions actions metadata description active)
      fun e w' => e.isDuplicate = false ∧ w'.RulesFrom base rules := by
  have hbad : ∀ {w' : World}, w'.HoldsRules base (superseded name rules) →
      w'.RulesFrom base rules := fun hw' => ⟨_, hsteps, hw'⟩
  refine ends_bind (ends_freshId ?_)
  have hnext : ({ w with issued := w.issued + 1 } : World).HoldsRules base
      (superseded name rules) := h.congr rfl (Nat.le_succ _)
  refine ends_bind (ends_ofExcept (fun object hobject => ?_) fun e he =>
    ⟨(noFault_asObject _).noDuplicate e he, hbad hnext⟩)
  refine ends_bind (ends_readClock (fun now clock _ => ?_) fun _ => ⟨rfl, hbad hnext⟩)
  have hread : ({ w with issued := w.issued + 1, clock } : World).HoldsRules base
      (superseded name rules) := hnext.congr rfl (Nat.le_refl _)
  -- the version that is added, but for its place
  let r : StoredRule := {
    id := ⟨w.issued + 1⟩, name, version, condition, actions := read, active, description
    metadata := object, createdAt := now, place := 0 }
  have hfresh : ∀ o ∈ superseded name rules, o.id ≠ r.id := fun o ho hid => by
    have hle := h.given o ho
    rw [hid] at hle
    exact absurd hle (Nat.not_succ_le_self _)
  have hcount : r.version = (versionsOf r.name (superseded name rules)).length + 1 := by
    rw [superseded, versionsOf_map (retired_name _) (retired_version _)]
    exact hversion
  have hquiet : ∀ o ∈ superseded name rules, o.name = r.name → o.isActive = false :=
    fun o ho hon => isActive_of_mem_superseded ho hon
  have hinsert := ends_add hread (r := r) (.of_read hcondition)
    (Action.Proper.of_readList hactions) (Value.asObject_of_asObject hobject) (Nat.le_refl _) hfresh
    hcount hquiet
  refine ends_bind (hinsert.mono ?_ fun e w' hfail => ⟨hfail.1, hbad hfail.2⟩)
  rintro columns w' ⟨place, hw', hcolumns⟩
  refine ends_pure ⟨_, hw', { r with place }, ⟨rfl, hsteps.tail (.add hfresh hcount hquiet),
    fun o ho hid => hfresh _ (List.mem_map_of_mem ho) ?_⟩, hcolumns,
    rfl, hcondition, hactions, hobject, rfl, rfl⟩
  rw [retired_id]
  exact hid

/-- Making a version retires the active versions of its name and adds the next one, which is as it was
asked for. -/
theorem ends_create (h : w.HoldsRules base rules)
    (name conditions actions metadata description active : Value) :
    (create name conditions actions metadata description active).Ends w
      (fun rule w' => ∃ rules', w'.HoldsRules base rules' ∧ ∃ r, Created rules r rules' ∧
        rule = r.toRule ∧ MadeOf r name conditions actions metadata description active)
      fun e w' => e.isDuplicate = false ∧ w'.RulesFrom base rules := by
  unfold create
  cases hname : isName name with
  | false => exact ends_bind (ends_throw ⟨rfl, h.rulesFrom⟩)
  | true =>
    obtain ⟨s, rfl⟩ := exists_of_isName hname
    -- the condition and the actions are read before the transaction is opened
    refine ends_bind (ends_ofExcept (fun condition hcondition => ?_) fun e he =>
      ⟨Condition.noDuplicate_read _ _ e he, h.rulesFrom⟩)
    refine ends_bind (ends_ofExcept (fun read hactions => ?_) fun e he =>
      ⟨Action.noDuplicate_readList _ _ e he, h.rulesFrom⟩)
    refine ends_bind ((ends_atomicRules h (Q := fun stored rules' => ∃ r, Created rules r rules' ∧
      IsRow r stored.1 ∧ MadeOf r (.str s) conditions actions metadata description active)
      ?_).mono ?_ fun _ _ hbad => hbad)
    · have hin := h.enter
      obtain ⟨previous, hprevious, hrows⟩ := exists_select_name hin s
      have hnumbered := hin.reached.numbered s
      rw [versionsOf, List.length_map] at hnumbered
      refine ends_bind (ends_query_ok hprevious ?_)
      refine ends_bind (ends_ofExcept_ok (nextVersion_eq hrows hnumbered) ?_)
      refine ends_bind ((ends_deactivateAll hin s hrows).mono ?_ fun _ _ hbad => hbad)
      rintro _ w₂ ⟨hsteps, hw₂⟩
      exact ends_addNext hw₂ hsteps hcondition hactions (by rw [versionsOf, List.length_map]) _ _ _
    · rintro ⟨stored, version⟩ w' ⟨rules', hw', r, hcreated, hrow, hmade⟩
      exact ends_bind (ends_log (ends_ofExcept_ok (IsRow.ofRow hrow)
        ⟨rules', hw'.congr rfl (Nat.le_refl _), r, hcreated, rfl, hmade⟩))

/-! ## Switching a version -/

/-- The row with the identifier is that of a version. -/
theorem ends_row (h : w.HoldsRules base rules) (id : Value) :
    (row id).Ends w (fun columns w' => w' = w ∧ ∃ r ∈ rules, id = .uuid r.id ∧ IsRow r columns)
      fun e w' => e.isDuplicate = false ∧ w' = w := by
  refine ends_bind (ends_query (fun found hfound => ?_) fun e he =>
    ⟨(noFault_get _ _ _).noDuplicate e he, rfl⟩)
  cases found with
  | none => exact ends_refuse ⟨rfl, rfl⟩
  | some columns =>
    obtain ⟨r, hr, hrow, hid⟩ := h.lists.of_get_some h.sound hfound
    exact ends_pure ⟨rfl, r, hr, hid, hrow⟩

/-- Switching a version off, or on when no other version of its name is active. -/
theorem ends_switchRow (h : w.HoldsRules base rules) {r : StoredRule} (hr : r ∈ rules)
    {active : Value}
    (hon : active.truthy = true → ∀ o ∈ rules, o.name = r.name → o.id ≠ r.id → o.isActive = false) :
    (do
      let updated ← change (Store.update rulesTable (.uuid r.id) [("is_active", active)])
      log .info "rule_activation_changed"
        [("rule_id", .str (Value.uuid r.id).plainText), ("is_active", active)]
      Op.ofExcept (Rule.ofRow updated) : Op Rule).Ends w
      (fun _ w' => w'.RulesVia Switches base rules)
      fun e w' => e.isDuplicate = false ∧ w'.RulesVia Switches base rules := by
  refine ends_bind ((ends_switch h hr hon).mono ?_ fun e w' hbad => ⟨hbad.1, rules, .refl _, hbad.2⟩)
  rintro columns w' ⟨hw', hrow⟩
  refine ends_bind (ends_log (ends_ofExcept_ok (IsRow.ofRow hrow) ?_))
  exact ⟨_, .map (Relation.ReflTransGen.single (.switch hr hon)) (switched_eq _ _),
    hw'.congr rfl (Nat.le_refl _)⟩

/-- Setting whether a version is active switches it; before it is switched on, the other versions of
its name are retired. -/
theorem ends_setActive (h : w.HoldsRules base rules) {r : StoredRule} (hr : r ∈ rules)
    {columns : Fields} (hrow : IsRow r columns) (active : Value) :
    (setActive columns active).Ends w (fun _ w' => w'.RulesVia Switches base rules)
      fun e w' => e.isDuplicate = false ∧ w'.RulesVia Switches base rules := by
  refine ends_bind (ends_ofExcept_ok (column_eq hrow.id) ?_)
  cases hactive : active.truthy with
  -- nothing is asked of the others where a version is switched off
  | false => exact ends_switchRow h hr fun hon => by rw [hactive] at hon; cases hon
  | true =>
    refine ends_bind (ends_ofExcept_ok (column_eq hrow.name) ?_)
    -- the other active versions of the name are retired first
    obtain ⟨others, hothers, hrows⟩ := exists_select_active h r.name
    refine ends_bind (ends_query_ok hothers ?_)
    have hloop := ends_retireEach (fun o => !decide (o.id = r.id))
      (f := fun other => do
        let otherId ← Op.ofExcept (other.column "id")
        unless ← Op.ofExcept (otherId.equalTo (.uuid r.id)) do
          discard <| Op.change (Store.update rulesTable otherId [("is_active", .bool false)]))
      (fun o columns ho => by
        rw [column_eq ho.id]
        show (do
          unless ← Op.ofExcept ((Value.uuid o.id).equalTo (.uuid r.id)) do
            discard <| Op.change
              (Store.update rulesTable (.uuid o.id) [("is_active", .bool false)]) : Op PUnit) = _
        rw [Value.equalTo_uuid, Value.sameKey_uuid, beq_eq_decide]
        cases decide (o.id = r.id) <;> rfl) hrows h fun o ho => ⟨o, (List.mem_filter.1 ho).1, rfl⟩
    refine ends_bind (hloop.mono ?_ fun _ _ hbad => hbad)
    rintro _ w' ⟨hsteps, hw'⟩
    -- the version itself is not among those that have been retired
    have hself : r ∈ rules.map (retired ((List.filter (fun o => !decide (o.id = r.id))
        (rules.filter fun o => decide (o.name = r.name) && o.isActive)).map (·.id))) := by
      refine List.mem_map.2 ⟨r, hr, if_neg fun hmem => ?_⟩
      obtain ⟨o, ho, hid⟩ := List.mem_map.1 hmem
      simpa [hid] using (List.mem_filter.1 ho).2
    have hretired := Switches.map hsteps (retired_eq _)
    refine (ends_switchRow hw' hself fun _ o ho hname hne => ?_).mono
      (fun _ _ hgood => hretired.rulesVia hgood) fun e _ hbad => ⟨hbad.1, hretired.rulesVia hbad.2⟩
    obtain ⟨x, hx, rfl⟩ := List.mem_map.1 ho
    rw [retired_name] at hname
    rw [retired_id] at hne
    refine Bool.eq_false_iff.2 fun hxa => ?_
    obtain ⟨hxa, hnot⟩ := isActive_retired hxa
    refine hnot (List.mem_map_of_mem (List.mem_filter.2 ⟨List.mem_filter.2 ⟨hx, ?_⟩, ?_⟩))
    · simpa [hname] using hxa
    · simpa using hne

/-- A change of whether a version is active, or of nothing, adds no version. -/
theorem ends_switchGiven (h : w.HoldsRules base rules) {r : StoredRule} (hr : r ∈ rules)
    {columns : Fields} (hrow : IsRow r columns) (active : Value) :
    (if active.isNull then Op.ofExcept (Rule.ofRow columns)
      else setActive columns active : Op Rule).Ends w (fun _ w' => w'.RulesVia Switches base rules)
      fun e w' => e.isDuplicate = false ∧ w'.RulesVia Switches base rules := by
  split
  · exact ends_ofExcept_ok (IsRow.ofRow hrow) ⟨rules, .refl _, h⟩
  · exact ends_setActive h hr hrow active

/-! ## Changing a version -/

/-- What a change of the content of a version comes to: the next version of the given name, or of the
same name if none is given. Each part is the given one, or that of the version if none is given; the new
version is active unless it was asked not to be. -/
structure Replaced (changes : Changes) (rules : List StoredRule) (source r : StoredRule)
    (rules' : List StoredRule) : Prop extends Created rules r rules' where
  /-- The new version is made of what is given and what is taken over. -/
  made : MadeOf r (if changes.name.truthy then changes.name else .str source.name)
    (changes.conditions.getD source.condition.toValue)
    (changes.actions.getD (Action.listToValue source.actions))
    (if changes.metadata.isNull then source.metadata else changes.metadata)
    (if changes.description.isNull then source.description else changes.description)
    (if changes.active.isNull then .bool true else changes.active)

/-- The version is active unless it was asked not to be. -/
theorem Replaced.active {changes : Changes} {source r : StoredRule}
    (h : Replaced changes rules source r rules') :
    r.active = if changes.active.isNull then .bool true else changes.active := h.made.active

/-- A value that is not given is taken over from the row. -/
theorem given_eq {columns : Fields} {column : String} {stored : Value}
    (h : columns.find? column = some stored) (v : Value) :
    given v columns column = .ok (if v.isNull then stored else v) := by
  rw [given, column_eq h]
  split <;> rfl

/-- Making a version with these parts, and with the others taken over from the row of a version,
replaces that version. -/
theorem ends_createFrom (h : w.HoldsRules base rules) {source : StoredRule} {columns : Fields}
    (hrow : IsRow source columns) (changes : Changes) {name conditions actions : Value}
    (hname : name = if changes.name.truthy then changes.name else .str source.name)
    (hconditions : conditions = changes.conditions.getD source.condition.toValue)
    (hactions : actions = changes.actions.getD (Action.listToValue source.actions)) :
    (do
      let metadata ← Op.ofExcept (given changes.metadata columns "metadata")
      let description ← Op.ofExcept (given changes.description columns "description")
      let active := if changes.active.isNull then .bool true else changes.active
      create name conditions actions metadata description active : Op Rule).Ends w
      (fun rule w' => ∃ rules', w'.HoldsRules base rules' ∧ Steps rules rules' ∧
        ∃ r, Replaced changes rules source r rules' ∧ rule = r.toRule)
      fun e w' => e.isDuplicate = false ∧ w'.RulesFrom base rules := by
  refine ends_bind (ends_ofExcept_ok (given_eq hrow.metadata _) ?_)
  refine ends_bind (ends_ofExcept_ok (given_eq hrow.description _) ?_)
  refine (ends_create h name conditions actions _ _ _).mono ?_ fun _ _ hbad => hbad
  rintro rule w' ⟨rules', hw', r, hcreated, hrule, hmade⟩
  subst hname hconditions hactions
  exact ⟨rules', hw', hcreated.steps, r, ⟨hcreated, hmade⟩, hrule⟩

/-- Applying changes to a version makes a version or switches it. -/
theorem ends_update (h : w.HoldsRules base rules) (id : Value) (changes : Changes) :
    (update id changes).Ends w
      (fun rule w' => ∃ rules', w'.HoldsRules base rules' ∧ Steps rules rules' ∧
        ∃ source ∈ rules, id = .uuid source.id ∧
          (changes.concernContent = true →
            ∃ r, Replaced changes rules source r rules' ∧ rule = r.toRule))
      fun e w' => e.isDuplicate = false ∧ w'.RulesFrom base rules := by
  refine ends_atomicRules h (Q := fun rule rules' => Steps rules rules' ∧
    ∃ source ∈ rules, id = .uuid source.id ∧ (changes.concernContent = true →
      ∃ r, Replaced changes rules source r rules' ∧ rule = r.toRule)) ?_
  have hin := h.enter
  generalize w.enter = w₁ at hin ⊢
  generalize some (base.getD w.store) = inner at hin ⊢
  refine ends_bind ((ends_row hin id).mono ?_ fun e w' hbad => ?_)
  · rintro columns w' ⟨rfl, source, hsource, hid, hrow⟩
    cases hcontent : changes.concernContent with
    | false =>
      refine (ends_switchGiven hin hsource hrow _).mono ?_
        fun _ _ hbad => ⟨hbad.1, Switches.rulesFrom hbad.2⟩
      rintro _ w' ⟨rules', hvia, hw'⟩
      exact ⟨rules', hw', hvia.1, source, hsource, hid, nofun⟩
    | true =>
      -- each part is given or taken from the row, where it is found
      cases hgiven : changes.name.truthy <;> cases hconditions : changes.conditions <;>
        cases hactions : changes.actions
      all_goals
        first
          | refine ends_bind (ends_pure ?_)
          | refine ends_bind (ends_ofExcept_ok (column_eq hrow.name) ?_)
        first
          | refine ends_bind (ends_pure ?_)
          | refine ends_bind (ends_ofExcept_ok (column_eq hrow.condition) ?_)
        first
          | refine ends_bind (ends_pure ?_)
          | refine ends_bind (ends_ofExcept_ok (column_eq hrow.actions) ?_)
        refine (ends_createFrom hin hrow changes (by rw [hgiven]; rfl) (by rw [hconditions]; rfl)
          (by rw [hactions]; rfl)).mono ?_ fun _ _ hbad => hbad
        rintro rule w' ⟨rules', hw', hsteps, hreplaced⟩
        exact ⟨rules', hw', hsteps, source, hsource, hid, fun _ => hreplaced⟩
  · obtain ⟨hfail, rfl⟩ := hbad
    exact ⟨hfail, hin.rulesFrom⟩

/-- Applying changes that concern no content adds no version, whether it succeeds or fails. -/
theorem ends_update_of_not_content (h : w.HoldsRules base rules) (id : Value) {changes : Changes}
    (hcontent : changes.concernContent = false) :
    (update id changes).Ends w (fun _ w' => w'.RulesVia Switches base rules)
      fun _ w' => w'.RulesVia Switches base rules := by
  have hleave : ∀ {w' : World} (keep : Bool),
      w'.RulesVia Switches (some (base.getD w.store)) rules →
        (World.leave w w' keep).RulesVia Switches base rules := fun keep h' =>
    World.RulesVia.leave h (.refl _) (fun hvia => hvia.1) h' keep
  refine ends_transaction ((ends_bind ?_ : (_ : Op Rule).Ends w.enter
    (fun _ w' => w'.RulesVia Switches (some (base.getD w.store)) rules)
    fun _ w' => w'.RulesVia Switches (some (base.getD w.store)) rules).mono
      (fun _ _ => hleave true) fun _ _ => hleave false)
  refine (ends_row h.enter id).mono ?_ fun e w' hbad => ?_
  · rintro columns w' ⟨rfl, source, hsource, -, hrow⟩
    rw [hcontent]
    exact (ends_switchGiven h.enter hsource hrow _).mono (fun _ _ hgood => hgood)
      fun _ _ hbad => hbad.2
  · obtain ⟨-, rfl⟩ := hbad
    exact ⟨rules, .refl _, h.enter⟩

/-- Deactivating a version switches it off. -/
theorem ends_deactivate (h : w.HoldsRules base rules) (id : Value) :
    (deactivate id).Ends w (fun _ w' => w'.RulesFrom base rules)
      fun e w' => e.isDuplicate = false ∧ w'.RulesFrom base rules := by
  have hbody : (do setActive (← row id) (.bool false) : Op Rule).Ends w.enter
      (fun _ w' => w'.RulesFrom (some (base.getD w.store)) rules)
      fun e w' => e.isDuplicate = false ∧ w'.RulesFrom (some (base.getD w.store)) rules := by
    refine ends_bind ((ends_row h.enter id).mono ?_ fun e w' hbad => ?_)
    · rintro columns w' ⟨rfl, r, hr, -, hrow⟩
      exact (ends_setActive h.enter hr hrow _).mono (fun _ _ hgood => Switches.rulesFrom hgood)
        fun _ _ hbad => ⟨hbad.1, Switches.rulesFrom hbad.2⟩
    · obtain ⟨hfail, rfl⟩ := hbad
      exact ⟨hfail, h.enter.rulesFrom⟩
  exact ends_transaction (hbody.mono (fun _ _ hgood => hgood.leave h true)
    fun _ _ hbad => ⟨hbad.1, hbad.2.leave h false⟩)

end RuleBook

end RewardLedger
