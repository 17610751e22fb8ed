import RewardLedger.Proofs.Rule.Laws
import RewardLedger.Proofs.Steady
import RewardLedger.Proofs.Store.Restored

/-!
# Stored rules mean what was submitted

A version that was made is kept with the condition and the actions that were read when it was
submitted (`Store.HasVersion`), and what the services do afterwards changes at most whether it is
active. So every world that they lead through has them, and they are read back as they were submitted
(`World.Means`).

A row that is kept stands for a version that could be made again, so a change that takes its name,
condition and actions over meets no malformed rule (`RuleBook.unmalformed_update`). The failures of
the other parts are of other kinds (`Op.Unmalformed`).
-/

namespace RewardLedger

open Op StoredRule

/-! ## Versions that are kept -/

/-- The store has the version, be it active or not. -/
def Store.HasVersion (r : StoredRule) (s : Store) : Prop :=
  ∃ t, s.table? rulesTable = some t ∧ ∃ row ∈ t.rows, ∃ active,
    StoredRule.IsRow { r with active } row.columns

namespace Store

variable {r : StoredRule} {s : Store}

/-- Whether a store has a version rests on the table of rules. -/
theorem HasVersion.congr {s' : Store} (h : s.HasVersion r)
    (ht : s'.table? rulesTable = s.table? rulesTable) : s'.HasVersion r := by
  rw [HasVersion, ht]
  exact h

/-- A version stays in the store whatever the services do. -/
theorem lasting_hasVersion (r : StoredRule) : Lasting (HasVersion r) where
  of_alike := by
    intro s s' ha h
    obtain ⟨t, ht, row, hrow, active, hr⟩ := h
    rcases ha.table?_cases rulesTable with ⟨-, hnone⟩ | ⟨t', t₀, ht', ht₀, hat⟩
    · rw [ht] at hnone
      cases hnone
    rw [ht] at ht₀
    cases ht₀
    obtain ⟨row', hrow', hrows⟩ := exists_mem_of_forall₂ hat.rows.flip hrow
    have hr' : Stored.IsRow { r with active } row'.columns := Stored.of_agrees hrows.columns hr
    exact ⟨t', ht', row', hrow', active, hr'⟩
  inserted := by
    rintro s name t columns - ht - ⟨t₀, ht₀, row, hrow, active, hr⟩
    by_cases hname : rulesTable = name
    · subst hname
      rw [ht] at ht₀
      cases ht₀
      refine ⟨_, by rw [table?_inserted, if_pos rfl, ht]; rfl, row, ?_, active, hr⟩
      exact List.mem_append_left _ hrow
    · exact ⟨t₀, by rw [table?_inserted, if_neg hname, ht₀], row, hrow, active, hr⟩
  updated := by
    rintro s name t row changes - ht hrow hplace hchanges ⟨t₀, ht₀, own, hown, active, hr⟩
    by_cases hname : rulesTable = name
    · subst hname
      rw [ht] at ht₀
      cases ht₀
      refine ⟨_, by rw [table?_updated ht, if_pos rfl], _, List.mem_map_of_mem hown, ?_⟩
      -- the row of the version, or another one that has changed
      by_cases hseq : own.seq = row.seq
      · obtain rfl := hplace own hown hseq
        obtain ⟨now, rfl⟩ := hchanges rfl
        rw [if_pos hseq]
        exact ⟨now, hr.switch now⟩
      · rw [if_neg hseq]
        exact ⟨active, hr⟩
    · exact ⟨t₀, by rw [table?_updated ht, if_neg hname, ht₀], own, hown, active, hr⟩

/-- The row of a version is the only one with its identifier. -/
theorem Sound.eq_of_isRow (hs : s.Sound Value.IsKey) (hd : s.Declared) {t : Table}
    (ht : s.table? rulesTable = some t) {row row' : Row} (hrow : row ∈ t.rows)
    (hrow' : row' ∈ t.rows) {id : Uuid} (h : row.columns.get "id" = .uuid id)
    (h' : row'.columns.get "id" = .uuid id) : row = row' := by
  have hsound := (hs _ t ht).1.rowsSound
  have hkey : ∀ r ∈ t.rows, r.columns.get "id" = r.key := fun r hr => by
    rw [← hsound.get_key r hr, hd.rules_schema ht]
  refine hsound.eq_of_seq hrow hrow' (hsound.seq_of_key row hrow row' hrow' ?_)
  rw [← hkey row hrow, ← hkey row' hrow', h, h']
  exact Value.sameKey_uuid_iff.2 rfl

/-- A version that the store has is found by its identifier. -/
theorem HasVersion.exists_get (h : s.HasVersion r) (hs : s.Sound Value.IsKey) (hd : s.Declared) :
    ∃ columns active, s.get rulesTable (.uuid r.id) = .ok (some columns) ∧
      StoredRule.IsRow { r with active } columns := by
  obtain ⟨t, ht, row, hrow, active, hr⟩ := h
  have hid : row.columns.get "id" = .uuid r.id := by rw [Fields.get, hr.id]; rfl
  have hkey : row.key = .uuid r.id := by
    rw [← hid, ← (hs _ t ht).1.rowsSound.get_key row hrow, hd.rules_schema ht]
  refine ⟨row.columns, active, ?_, hr⟩
  rw [get, table, ht]
  simp only [bind, Except.bind, Value.hashable, if_true]
  cases hfind : t.find? (.uuid r.id) with
  | none =>
    have hne := Table.find?_none hfind row hrow
    rw [hkey, Value.sameKey_uuid_iff.2 rfl] at hne
    cases hne
  | some found =>
    obtain ⟨hfound, hsame⟩ := Table.find?_some hfind
    rw [← hkey] at hsame
    have hsound := (hs _ t ht).1.rowsSound
    obtain rfl := hsound.eq_of_seq hfound hrow (hsound.seq_of_key found hfound row hrow hsame)
    rfl

end Store

/-! ## Failures -/

/-- The failure says that a rule is malformed. -/
def Failure.isMalformedRule : Failure → Bool
  | fault (.malformedRule _) => true
  | _ => false

/-- What is no fault of the domain says nothing about rules. -/
theorem Failure.isMalformedRule_eq_false {e : Failure} (h : e.isFault = false) :
    e.isMalformedRule = false := by
  cases e with
  | fault _ => cases h
  | _ => rfl

/-- Choosing items fails as it does for one of them. -/
theorem FailsOnly.filterM {α : Type} {P : Failure → Prop} {keep : α → Except Failure Bool}
    (h : ∀ a, FailsOnly P (keep a)) (items : List α) : FailsOnly P (items.filterM keep) := by
  induction items with
  | nil => exact .ok []
  | cons a rest ih =>
    rw [filterM_cons]
    exact (h a).bind fun _ => ih.bind fun _ => .ok _

namespace Store

/-- Selecting rows meets a fault only if choosing one does. -/
theorem Sound.noFault_select {K : Value → Prop} {s : Store} (hs : s.Sound K) {name : String}
    {keep : Fields → Except Failure Bool} (h : ∀ columns, NoFault (keep columns)) :
    NoFault (s.select name keep) := by
  rw [select, table]
  cases ht : s.table? name with
  | none => exact .error rfl
  | some t =>
    simp only [bind, Except.bind, Table.inOrder_of_notMem (hs _ t ht).1.proper.seq_fixed]
    exact .filterM h _

/-- What the indexes refuse says nothing about rules. -/
theorem isMalformedRule_of_refusal? {t : Table} {name : String} {columns : Fields} {e : Failure}
    (h : t.refusal? name columns = some e) : e.isMalformedRule = false := by
  obtain ⟨ix, -, hrefused⟩ := List.exists_of_findSome?_eq_some h
  split at hrefused
  · cases hrefused
  split at hrefused
  · cases hrefused
    rfl
  split at hrefused
  · cases hrefused
    rfl
  · cases hrefused

variable {s s' : Store} {name : String} {e : Failure}

/-- A row that cannot be added says nothing about rules. -/
theorem isMalformedRule_of_run_insert {row : Fields}
    (h : (insert name row).run.run s = (.error e, s')) : e.isMalformedRule = false := by
  cases insertRun h with
  | noTable | noKey | wrongKind | taken => rfl
  | refused _ _ _ hn => exact isMalformedRule_of_refusal? hn

end Store

namespace Op

open World

variable {α β : Type} {good : α → Prop}

/-- From a well-kept world the operation leads to a well-kept one and to a result as `good` asks, or
it fails for another reason than a malformed rule. -/
def Unmalformed (good : α → Prop) (op : Op α) : Prop :=
  ∀ base w, w.WellKept (fun _ => True) base →
    op.Ends w (fun a w' => good a ∧ w'.WellKept (fun _ => True) base)
      fun e _ => e.isMalformedRule = false

/-- A steady operation does not have to be followed through the worlds. -/
theorem Steady.unmalformed {op : Op α} (h : op.Steady)
    (hends : ∀ base w, w.WellKept (fun _ => True) base →
      op.Ends w (fun a _ => good a) fun e _ => e.isMalformedRule = false) : op.Unmalformed good :=
  fun base w hw => ((hends base w hw).and (h _ Store.lasting_true base w hw)).mono
    (fun _ _ h => h) fun _ _ h => h.1

theorem unmalformed_bind {goodFirst : β → Prop} {op : Op β} {f : β → Op α}
    (h : op.Unmalformed goodFirst) (hf : ∀ b, goodFirst b → (f b).Unmalformed good) :
    (op >>= f).Unmalformed good := fun base w hw =>
  ends_bind ((h base w hw).mono (fun b w' hb => hf b hb.1 base w' hb.2) fun _ _ he => he)

theorem unmalformed_map {goodFirst : β → Prop} {op : Op β} {f : β → α}
    (h : op.Unmalformed goodFirst) (hf : ∀ b, goodFirst b → good (f b)) :
    (f <$> op).Unmalformed good := fun base w hw =>
  ends_map ((h base w hw).mono (fun b _ hb => ⟨hf b hb.1, hb.2⟩) fun _ _ he => he)

theorem unmalformed_ofExcept {r : Except Failure α} (hg : ∀ a, r = .ok a → good a)
    (h : FailsOnly (fun e => e.isMalformedRule = false) r) : (ofExcept r).Unmalformed good :=
  (reads_ofExcept r).steady.unmalformed fun _ _ _ => ends_ofExcept hg h

/-- A computation that meets no fault meets no malformed rule. -/
theorem unmalformed_of_noFault {r : Except Failure α} (h : NoFault r) :
    (ofExcept r).Unmalformed fun a => r = .ok a :=
  unmalformed_ofExcept (fun _ ha => ha) (h.mono fun _ => Failure.isMalformedRule_eq_false)

theorem unmalformed_forM {f : β → Op PUnit} (h : ∀ b, (f b).Unmalformed fun _ => True)
    (items : List β) : (items.forM f).Unmalformed fun _ => True := by
  induction items with
  | nil => exact (reads_pure _).steady.unmalformed fun _ _ _ => ends_pure trivial
  | cons b rest ih => exact unmalformed_bind (h b) fun _ _ => ih

theorem unmalformed_log (level : LogLevel) (event : String) (details : Fields) :
    (log level event details).Unmalformed fun _ => True :=
  (reads_log level event details).steady.unmalformed fun _ _ _ => ends_log trivial

/-- A transaction meets no malformed rule if its body does not. -/
theorem unmalformed_transaction {op : Op α} (h : op.Unmalformed good) :
    (transaction op).Unmalformed good := fun _ w hw =>
  ends_transaction ((h _ w.enter (hw.enter Store.lasting_true)).mono
    (fun _ _ ha => ⟨ha.1, hw.leave Store.lasting_true ha.2 true⟩) fun _ _ he => he)

/-- Changing whether a rule is active meets no malformed rule, and leaves the row of a version. -/
theorem unmalformed_activate (id active : Value) :
    (change (Store.update rulesTable id [("is_active", active)])).Unmalformed
      fun columns => ∃ r : StoredRule, r.IsRow columns := by
  refine (RuleBook.steady_activate List.not_mem_nil id active).unmalformed fun base w hw => ?_
  have hfixed : ∀ t, w.store.table? rulesTable = some t → ∀ ix ∈ t.schema.indexes, ∀ c ∈ ix.2,
      c ∉ Fields.names [("is_active", active)] := fun t ht => by
    rw [hw.declared.rules_schema ht]
    simp [Fields.names]
  refine ends_change (fun columns s hrun => ?_) fun e s hrun =>
    Failure.isMalformedRule_eq_false (Store.isFault_of_run_update hfixed hrun)
  obtain ⟨t, row, ht, hrow, -, -, -, rfl, -⟩ := Store.of_run_update_ok hrun
  obtain ⟨r, -, hr⟩ := (hw.kept _ t ht row hrow).rule rfl
  exact ⟨{ r with active }, hr.switch active⟩

/-- Selecting rules meets no malformed rule, and gives rows that are kept. -/
theorem unmalformed_select {keep : Fields → Except Failure Bool}
    (h : ∀ columns, NoFault (keep columns)) :
    (query (·.select rulesTable keep)).Unmalformed fun rows =>
      ∀ columns ∈ rows, ∃ row : Row, row.Kept rulesTable ∧ row.columns = columns := by
  refine (reads_query _).steady.unmalformed fun base w hw => ?_
  refine ends_query (fun rows hrows columns hmem => ?_) fun e he => ?_
  · obtain ⟨t, ht, hselected⟩ := hw.sound.of_select hrows
    obtain ⟨row, hrow, hcolumns⟩ := hselected columns hmem
    exact ⟨row, hw.kept _ t ht row hrow, hcolumns⟩
  · exact Failure.isMalformedRule_eq_false (hw.sound.noFault_select h e he)

end Op

/-! ## Making and changing versions -/

namespace RuleBook

open World

/-- A version can be made with the name, the condition and the actions. -/
structure WellFormed (name conditions actions : Value) : Prop where
  /-- The name is a text with a character that is not blank. -/
  name : isName name = true
  /-- The condition can be read. -/
  condition : ∃ c, Condition.read .strict conditions = .ok c
  /-- The actions can be read. -/
  actions : ∃ as, Action.readList .strict actions = .ok as

/-- A version that could be made again can be made from what is stored of it. -/
theorem wellFormed_of_isRow {r : StoredRule} (h : r.Submitted) {columns : Fields}
    (hr : r.IsRow columns) :
    WellFormed (.str r.name) r.condition.toValue (Action.listToValue r.actions) :=
  ⟨h.named, ⟨_, hr.proper.read_toValue .strict⟩,
    ⟨_, Action.readList_listToValue_of_ne_nil h.acts hr.properActions .strict⟩⟩

/-- Versions that are kept always have a next number. -/
theorem exists_nextVersion {rows : List Fields}
    (hrows : ∀ columns ∈ rows, ∃ row : Row, row.Kept rulesTable ∧ row.columns = columns) :
    ∃ n : Nat, nextVersion rows = .ok (.int n) := by
  have hversions : ∀ columns ∈ rows, ∃ v, columns.find? "version" = some (.int v) :=
    fun columns hmem => by
      obtain ⟨n, hn⟩ := exists_version hrows columns hmem
      exact ⟨n, hn⟩
  obtain ⟨found, hfound, -⟩ := exists_foldlM_greaterVersion hversions none
  have hfound : rows.foldlM greaterVersion none = .ok (found.map .int) := hfound
  obtain ⟨version, hversion⟩ : ∃ version, nextVersion rows = .ok version := by
    rw [nextVersion, hfound]
    cases found with
    | none => exact ⟨_, rfl⟩
    | some _ => exact ⟨_, rfl⟩
  obtain ⟨n, rfl⟩ := exists_of_nextVersion hrows hversion
  exact ⟨n, hversion⟩

theorem unmalformed_deactivateAll (rows : List Fields) :
    (deactivateAll rows).Unmalformed fun _ => True := by
  refine unmalformed_forM (fun row => ?_) rows
  have hactive : NoFault (isActive row) := (noFault_column _ _).bind fun _ => .ok _
  refine unmalformed_bind (unmalformed_of_noFault hactive) fun active _ => ?_
  cases active with
  | true =>
    exact unmalformed_bind (unmalformed_of_noFault (noFault_column _ _)) fun _ _ =>
      unmalformed_map (unmalformed_activate _ _) fun _ _ => trivial
  | false => exact (reads_pure _).steady.unmalformed fun _ _ _ => ends_pure trivial

/-- The row that is added for what has been read stands for a version with this condition and these
actions, and nothing is malformed on the way. -/
theorem ends_addVersion {base : Option Store} {w : World} (hw : w.WellKept (fun _ => True) base)
    (s : String) {conditions actions : Value} {condition : Condition} {as : List Action}
    (hcondition : Condition.read .strict conditions = .ok condition)
    (has : Action.readList .strict actions = .ok as) (metadata description active : Value) :
    (do
      let previous ← query (·.select rulesTable (·.columnIs "name" (.str s)))
      let version ← Op.ofExcept (nextVersion previous)
      deactivateAll previous
      let id ← freshId
      let metadata ← Op.ofExcept (metadata.orElse (.object [])).asObject
      let now ← readClock
      let stored ← change (Store.insert rulesTable [
        ("id", .uuid id), ("name", .str s), ("description", description), ("version", version),
        ("conditions", condition.toValue), ("actions", Action.listToValue as),
        ("is_active", active), ("metadata", metadata), ("created_at", .instant now)])
      pure (stored, version) : Op (Fields × Value)).Ends w
      (fun stored w' => ∃ r : StoredRule, r.condition = condition ∧ r.actions = as ∧
        r.IsRow stored.1 ∧ w'.store.HasVersion r)
      fun e _ => e.isMalformedRule = false := by
  refine ends_bind ((unmalformed_select (fun _ => noFault_columnIs _ _ _) _ _ hw).mono ?_
    fun _ _ he => he)
  rintro previous w₁ ⟨hprevious, hw₁⟩
  obtain ⟨n, hversion⟩ := exists_nextVersion hprevious
  refine ends_bind (ends_ofExcept_ok hversion ?_)
  refine ends_bind ((unmalformed_deactivateAll previous _ _ hw₁).mono ?_ fun _ _ he => he)
  rintro - w₂ -
  refine ends_bind (ends_freshId ?_)
  refine ends_bind (ends_ofExcept (fun metadata hmetadata => ?_) fun e he =>
    Failure.isMalformedRule_eq_false (noFault_asObject _ e he))
  refine ends_bind (ends_readClock (fun now clock _ => ?_) fun _ => rfl)
  refine ends_bind (ends_change (fun columns s' hrun => ?_) fun e s' hrun =>
    Store.isMalformedRule_of_run_insert hrun)
  obtain ⟨t, ht, -, -, -, rfl, rfl⟩ := Store.of_run_insert_ok hrun
  -- the version that the row stands for
  let r : StoredRule := ⟨⟨w₂.issued + 1⟩, s, n, condition, as, active, description, metadata,
    now, w₂.store.nextSeq⟩
  have hrow : r.IsRow (r.newRow.put sequenceColumn (.int w₂.store.nextSeq)) :=
    StoredRule.isRow_newRow (r := r) (.of_read hcondition) (Action.Proper.of_readList has)
      (Value.asObject_of_asObject hmetadata) _
  exact ends_pure ⟨r, rfl, rfl, hrow, _, by rw [Store.table?_inserted, if_pos rfl, ht]; rfl,
    _, List.mem_append_right _ (List.mem_singleton_self _), active, hrow⟩

/-- A version that is made has the condition and the actions that are read, and is kept; none is made
for a malformed rule only if the name, the condition or the actions are not well formed. -/
theorem ends_create_submitted {base : Option Store} {w : World}
    (hw : w.WellKept (fun _ => True) base)
    (name conditions actions metadata description active : Value) :
    (create name conditions actions metadata description active).Ends w
      (fun rule w' => ∃ r : StoredRule, Condition.read .strict conditions = .ok r.condition ∧
        Action.readList .strict actions = .ok r.actions ∧ rule = r.toRule ∧
          w'.store.HasVersion r)
      fun e _ => WellFormed name conditions actions → e.isMalformedRule = false := by
  unfold create
  cases hname : isName name with
  | false =>
    refine ends_bind (ends_throw fun hwell => ?_)
    rw [hwell.name] at hname
    cases hname
  | true =>
    obtain ⟨s, rfl⟩ := exists_of_isName hname
    refine ends_bind (ends_ofExcept (fun condition hcondition => ?_) fun e he hwell => ?_)
    swap
    · obtain ⟨c, hc⟩ := hwell.condition
      rw [hc] at he
      cases he
    refine ends_bind (ends_ofExcept (fun as has => ?_) fun e he hwell => ?_)
    swap
    · obtain ⟨as, has⟩ := hwell.actions
      rw [has] at he
      cases he
    -- what has been read is stored, and after it nothing is malformed
    refine ends_bind (ends_transaction ((ends_addVersion (hw.enter Store.lasting_true) s hcondition
      has metadata description active).mono ?_ fun _ _ he _ => he))
    rintro ⟨stored, version⟩ w' ⟨r, rfl, rfl, hrow, hhas⟩
    refine ends_bind (ends_log (ends_ofExcept_ok hrow.ofRow ⟨r, hcondition, has, rfl, ?_⟩))
    exact hhas.congr (table?_leave w w' _)

/-- The actions are those that were given, as they are read, or if none were given those of the rule
with the identifier. -/
def ActsBy (w : World) (id : Value) (given : Option Value) (actions : List Action) : Prop :=
  match given with
  | some written => Action.readList .strict written = .ok actions
  | none => ∃ source, (get id).perform w = (.ok source, w) ∧ actions = source.actions

/-- Making a version with these parts, the others of which are given or taken over from a row, makes one
that is kept with the actions that are read. -/
theorem ends_createFrom_submitted {base : Option Store} {w : World}
    (hw : w.WellKept (fun _ => True) base) (columns : Fields) (changes : Changes)
    (name conditions actions : Value) :
    (do
      let metadata ← Op.ofExcept (given changes.metadata columns "metadata")
      let description ← Op.ofExcept (given changes.description columns "description")
      let active := if changes.active.isNull then .bool true else changes.active
      create name conditions actions metadata description active : Op Rule).Ends w
      (fun rule w' => ∃ r : StoredRule, rule = r.toRule ∧ w'.store.HasVersion r ∧
        Action.readList .strict actions = .ok r.actions) fun _ _ => True := by
  refine ends_bind (ends_ofExcept (fun metadata _ => ?_) fun _ _ => trivial)
  refine ends_bind (ends_ofExcept (fun description _ => ?_) fun _ _ => trivial)
  refine (ends_create_submitted hw name conditions actions _ _ _).mono ?_ fun _ _ _ => trivial
  rintro rule w' ⟨r, -, hread, hrule, hhas⟩
  exact ⟨r, hrule, hhas, hread⟩

/-- A change of content makes a version that is kept, and it has the actions that were given or those of
the version that it was made from. -/
theorem ends_update_submitted {base : Option Store} {w : World}
    (hw : w.WellKept (fun _ => True) base) (id : Value) {changes : Changes}
    (hcontent : changes.concernContent = true) :
    (update id changes).Ends w
      (fun rule w' => ∃ r : StoredRule, rule = r.toRule ∧ w'.store.HasVersion r ∧
        ActsBy w id changes.actions r.actions) fun _ _ => True := by
  refine ends_transaction (ends_bind (ends_bind (ends_query (fun found hfound => ?_)
    fun _ _ => trivial)))
  cases found with
  | none => exact ends_refuse trivial
  | some columns =>
    have hin := hw.enter Store.lasting_true
    obtain ⟨t, own, ht, hown, -, rfl⟩ := Store.exists_row_of_get hfound
    obtain ⟨source, hsubmitted, hrow⟩ := (hin.kept _ t ht own hown).rule rfl
    have hsource : (get id).perform w = (.ok source.toRule, w) := by
      have hget : w.store.get rulesTable id = .ok (some own.columns) := by
        rwa [Store.get, Store.table, table?_enter, ← Store.table, ← Store.get] at hfound
      have hends : (row id).Ends w (fun found w' => found = own.columns ∧ w' = w)
          fun _ _ => False := ends_bind (ends_query_ok hget (ends_pure ⟨rfl, rfl⟩))
      refine Ends.perform_eq (ends_bind (hends.mono ?_ fun _ _ hbad => hbad))
      rintro _ _ ⟨rfl, rfl⟩
      exact ends_ofExcept_ok hrow.ofRow ⟨rfl, rfl⟩
    -- what is read is what was given, or what is written of the actions of the source
    have hacts : ∀ r : StoredRule, Action.readList .strict
        (changes.actions.getD (Action.listToValue source.actions)) = .ok r.actions →
          ActsBy w id changes.actions r.actions := fun r hread => by
      cases hgiven : changes.actions with
      | some written =>
        rw [hgiven] at hread
        exact hread
      | none =>
        rw [hgiven, Option.getD_none,
          Action.readList_listToValue_of_ne_nil hsubmitted.acts hrow.properActions] at hread
        exact ⟨_, hsource, (Except.ok.inj hread).symm⟩
    refine ends_pure ?_
    rw [hcontent]
    -- each part is given or taken from the row, where it is found
    cases changes.name.truthy <;> cases changes.conditions <;> cases hactions : changes.actions
    all_goals
      first
        | refine ends_bind (ends_pure ?_)
        | refine ends_bind (ends_ofExcept_ok (column_eq hrow.name) ?_)
      first
        | refine ends_bind (ends_pure ?_)
        | refine ends_bind (ends_ofExcept_ok (column_eq hrow.condition) ?_)
      first
        | refine ends_bind (ends_pure ?_)
        | refine ends_bind (ends_ofExcept_ok (column_eq hrow.actions) ?_)
      refine (ends_createFrom_submitted hin own.columns changes _ _ _).mono ?_ fun _ _ h => h
      rintro rule w' ⟨r, hrule, hhas, hread⟩
      rw [hactions] at hacts
      exact ⟨r, hrule, hhas.congr (table?_leave w w' _), hacts r hread⟩

/-- Making a version of what is well formed meets no malformed rule. -/
theorem unmalformed_create {name conditions actions : Value}
    (h : WellFormed name conditions actions) (metadata description active : Value) :
    (create name conditions actions metadata description active).Unmalformed fun _ => True :=
  (steady_create List.not_mem_nil _ _ _ _ _ _).unmalformed fun _ _ hw =>
    (ends_create_submitted hw _ _ _ _ _ _).mono (fun _ _ _ => trivial) fun _ _ he => he h

/-- A row that is found stands for a version that could be made again. -/
theorem unmalformed_row (id : Value) :
    (row id).Unmalformed fun columns => ∃ r : StoredRule, r.Submitted ∧ r.IsRow columns := by
  refine (reads_row id).steady.unmalformed fun base w hw => ?_
  refine ends_bind (ends_query (fun found hfound => ?_) fun e he =>
    Failure.isMalformedRule_eq_false (noFault_get _ _ _ e he))
  cases found with
  | none => exact ends_refuse rfl
  | some columns =>
    obtain ⟨t, row, ht, hrow, -, rfl⟩ := Store.exists_row_of_get hfound
    exact ends_pure ((hw.kept _ t ht row hrow).rule rfl)

/-- The row of a version is read. -/
theorem unmalformed_ofRow {columns : Fields} (h : ∃ r : StoredRule, r.IsRow columns) :
    (Op.ofExcept (Rule.ofRow columns)).Unmalformed fun _ => True := by
  obtain ⟨r, hr⟩ := h
  rw [hr.ofRow]
  exact unmalformed_ofExcept (fun _ _ => trivial) (.ok _)

theorem unmalformed_setActive (row : Fields) (active : Value) :
    (setActive row active).Unmalformed fun _ => True := by
  have hrest : ∀ id : Value, (do
      let updated ← change (Store.update rulesTable id [("is_active", active)])
      log .info "rule_activation_changed" [("rule_id", .str id.plainText), ("is_active", active)]
      Op.ofExcept (Rule.ofRow updated) : Op Rule).Unmalformed fun _ => True := fun id =>
    unmalformed_bind (unmalformed_activate id active) fun _ hrow =>
      unmalformed_bind (unmalformed_log _ _ _) fun _ _ => unmalformed_ofRow hrow
  refine unmalformed_bind (unmalformed_of_noFault (noFault_column _ _)) fun id _ => ?_
  cases active.truthy with
  | false => exact hrest id
  | true =>
    refine unmalformed_bind (unmalformed_of_noFault (noFault_column _ _)) fun name _ => ?_
    refine unmalformed_bind (unmalformed_select fun columns => ?_) fun others _ => ?_
    · refine (noFault_columnIs _ _ _).bind fun same => ?_
      cases same with
      | true => exact (noFault_column _ _).bind fun _ => .ok _
      | false => exact .ok _
    refine unmalformed_bind (unmalformed_forM (fun other => ?_) others) fun _ _ => hrest id
    refine unmalformed_bind (unmalformed_of_noFault (noFault_column _ _)) fun otherId _ => ?_
    refine unmalformed_bind (unmalformed_of_noFault (noFault_equalTo _ _)) fun same _ => ?_
    cases same with
    | true => exact (reads_pure _).steady.unmalformed fun _ _ _ => ends_pure trivial
    | false => exact unmalformed_map (unmalformed_activate _ _) fun _ _ => trivial

/-- A change that gives no name, condition or actions meets no malformed rule. -/
theorem unmalformed_update (id : Value) {changes : Changes} (hname : changes.name.truthy = false)
    (hconditions : changes.conditions = none) (hactions : changes.actions = none) :
    (update id changes).Unmalformed fun _ => True := by
  unfold update
  rw [hname, hconditions, hactions]
  refine unmalformed_transaction (unmalformed_bind (unmalformed_row id) fun current hcurrent => ?_)
  obtain ⟨r, hsubmitted, hrow⟩ := hcurrent
  cases changes.concernContent with
  | false =>
    cases changes.active.isNull with
    | true => exact unmalformed_ofRow ⟨r, hrow⟩
    | false => exact unmalformed_setActive _ _
  | true =>
    have hgiven : ∀ (v : Value) (column : String), NoFault (given v current column) := fun v _ => by
      unfold given
      split
      · exact noFault_column _ _
      · exact .ok _
    -- all that is checked comes from the row
    refine unmalformed_bind (unmalformed_of_noFault (noFault_column _ _)) fun name hn => ?_
    refine unmalformed_bind (unmalformed_of_noFault (noFault_column _ _)) fun conditions hc => ?_
    refine unmalformed_bind (unmalformed_of_noFault (noFault_column _ _)) fun actions ha => ?_
    refine unmalformed_bind (unmalformed_of_noFault (hgiven _ _)) fun metadata _ => ?_
    refine unmalformed_bind (unmalformed_of_noFault (hgiven _ _)) fun description _ => ?_
    rw [column_eq hrow.name] at hn
    rw [column_eq hrow.condition] at hc
    rw [column_eq hrow.actions] at ha
    cases hn
    cases hc
    cases ha
    exact unmalformed_create (wellFormed_of_isRow hsubmitted hrow) _ _ _

end RuleBook

/-! ## What stored versions mean -/

namespace World

variable {w : World} {base : Option Store}

/-- The rule with the identifier is read back with the condition and the actions, and the engine asks
for them as they say. -/
structure Means (w : World) (id : Value) (c : Condition) (actions : List Action) : Prop where
  /-- The rule is found. -/
  stored : ∃ rule, (RuleBook.get id).perform w = (.ok rule, w) ∧ rule.condition = c ∧
    rule.actions = actions
  /-- What the engine asks for because of the rule is one of the actions, and the condition holds. -/
  asked : ∀ event ts, ((RuleEngine.evaluate event).perform w).1 = .ok ts → ∀ t ∈ ts,
    t.ruleId = id → c.evaluate event = .ok true ∧ t.action ∈ actions
  /-- The engine explains the rule by the condition and the actions. -/
  explained : ∀ event es, ((RuleEngine.explain event).perform w).1 = .ok es → ∀ e ∈ es,
    e.ruleId = id → c.evaluate event = .ok e.isMatch ∧
      e.actions = if e.isMatch then actions else []

/-- The rule has the condition and the actions if it has the identifier. -/
def Bears (id : Value) (c : Condition) (actions : List Action) (rule : Rule) : Prop :=
  rule.id = id → rule.condition = c ∧ rule.actions = actions

/-- The active rules are read from rows of versions, and one with the identifier of a version that is
kept has its condition and its actions. -/
theorem WellKept.ends_active {r : StoredRule} (hw : w.WellKept (Store.HasVersion r) base) :
    RuleBook.active.Ends w
      (fun found w' => w' = w ∧ ∀ rule ∈ found, Bears (.uuid r.id) r.condition r.actions rule)
      fun _ _ => True := by
  obtain ⟨t, ht, own, hown, active, hr⟩ := hw.lasting
  refine ends_bind (ends_bind (ends_query (fun rows hrows => ?_) fun _ _ => trivial))
  refine ends_ofExcept (fun sorted hsorted => ?_) fun _ _ => trivial
  refine ends_ofExcept (fun found hfound => ⟨rfl, fun rule hrule hid => ?_⟩) fun _ _ => trivial
  obtain ⟨columns, hcolumns, hread⟩ := exists_mem_of_forall₂ (forall₂_of_mapM_eq_ok hfound).flip hrule
  obtain ⟨t', ht', hselected⟩ := hw.sound.of_select hrows
  obtain ⟨row, hrow, rfl⟩ := hselected columns ((perm_of_sortByKey hsorted).subset hcolumns)
  rw [ht] at ht'
  cases ht'
  obtain ⟨v, -, hv⟩ := (hw.kept _ t ht row hrow).rule rfl
  rw [hv.ofRow] at hread
  cases hread
  -- the row has the identifier of the version, so it is that of the version
  have hfound : row.columns.get "id" = .uuid r.id := by rw [Fields.get, hv.id, ← hid]; rfl
  obtain rfl := hw.sound.eq_of_isRow hw.declared ht hrow hown hfound
    (by rw [Fields.get, hr.id]; rfl)
  have hrule := hv.ofRow.symm.trans hr.ofRow
  rw [Except.ok.injEq] at hrule
  exact ⟨congrArg Rule.condition hrule, congrArg Rule.actions hrule⟩

/-- A version that is kept is read back as it is, and the engine asks for it as it says. -/
theorem WellKept.means {r : StoredRule} (hw : w.WellKept (Store.HasVersion r) base) :
    w.Means (.uuid r.id) r.condition r.actions where
  stored := by
    obtain ⟨columns, active, hget, hrow⟩ := hw.lasting.exists_get hw.sound hw.declared
    have hfound : (RuleBook.row (.uuid r.id)).Ends w (fun found w' => found = columns ∧ w' = w)
        fun _ _ => False := ends_bind (ends_query_ok hget (ends_pure ⟨rfl, rfl⟩))
    refine ⟨StoredRule.toRule { r with active },
      Ends.perform_eq (ends_bind (hfound.mono ?_ fun _ _ hbad => hbad)), rfl, rfl⟩
    rintro _ _ ⟨rfl, rfl⟩
    exact ends_ofExcept_ok hrow.ofRow ⟨rfl, rfl⟩
  asked event ts hts t ht hid := by
    have hends : (RuleEngine.evaluate event).Ends w (fun ts _ => ∀ t ∈ ts, t.ruleId = .uuid r.id →
        r.condition.evaluate event = .ok true ∧ t.action ∈ r.actions) fun _ _ => True := by
      refine ends_bind (hw.ends_active.mono ?_ fun _ _ _ => trivial)
      rintro found _ ⟨rfl, hfound⟩
      refine ends_bind (ends_ofExcept (fun ts hts => ends_bind (ends_log (ends_pure ?_)))
        fun _ _ => trivial)
      intro t ht hid
      obtain ⟨rule, hrule, hholds, hin⟩ := RuleEngine.exists_rule_of_triggered hts t ht
      obtain ⟨action, haction, rfl⟩ := List.mem_map.1 hin
      obtain ⟨hcondition, hactions⟩ := hfound rule hrule hid
      exact ⟨hcondition ▸ hholds, hactions ▸ haction⟩
    exact hends.good_of_ok (Prod.ext hts rfl) t ht hid
  explained event es hes e he hid := by
    have hends : (RuleEngine.explain event).Ends w (fun es _ => ∀ e ∈ es, e.ruleId = .uuid r.id →
        r.condition.evaluate event = .ok e.isMatch ∧
          e.actions = if e.isMatch then r.actions else []) fun _ _ => True := by
      refine ends_bind (hw.ends_active.mono ?_ fun _ _ _ => trivial)
      rintro found _ ⟨rfl, hfound⟩
      refine ends_ofExcept (fun es hes e he hid => ?_) fun _ _ => trivial
      obtain ⟨rule, hrule, hexplained⟩ := exists_mem_of_forall₂ (forall₂_of_mapM_eq_ok hes).flip he
      obtain ⟨matched, hmatched, hresult⟩ := exists_of_bind_eq_ok hexplained
      cases hresult
      obtain ⟨hcondition, hactions⟩ := hfound rule hrule hid
      exact ⟨hcondition ▸ hmatched, by rw [hactions]⟩
    exact hends.good_of_ok (Prod.ext hes rfl) e he hid

/-- Whatever has been read strictly, in either form or a mixture of both, is what every other reading
of it and of its written form comes to. So in every world that calls of the services lead through, a
rule that is made is read back, then and in all worlds that further calls lead through, as what was
submitted, and a change that gives no name, condition or actions meets no malformed rule. -/
theorem means_submitted_of_script :
    (∀ written c, Condition.read .strict written = .ok c → c.ReadsSame written) ∧
    (∀ written actions, Action.readList .strict written = .ok actions →
      Action.ReadsSame written actions) ∧
    ∀ (cfg : Config) (w₀ : World) (steps : List (Step Call)), w₀.IsNew →
      Step.CallsOf Call.OfServices steps → ∀ w ∈ Step.worldsOfAll (Call.perform cfg) steps w₀,
        (∀ name conditions actions metadata description active rule w',
          (RuleBook.create name conditions actions metadata description active).perform w = (.ok rule, w') →
            ∃ c as, Condition.read .strict conditions = .ok c ∧
              Action.readList .strict actions = .ok as ∧
              rule.condition = c ∧ rule.actions = as ∧
              ∀ later, Step.CallsOf Call.OfServices later →
                ∀ w'' ∈ Step.worldsOfAll (Call.perform cfg) later w', w''.Means rule.id c as) ∧
        ∀ id changes e, changes.name.truthy = false → changes.conditions = none →
          changes.actions = none → ((RuleBook.update id changes).perform w).1 = .error e →
            e.isMalformedRule = false := by
  refine ⟨fun _ _ => Condition.reads_same, fun _ _ => Action.reads_same, ?_⟩
  intro cfg w₀ steps h₀ hcalls w hw
  obtain ⟨base, hkept⟩ := Step.exists_wellKept_of_worldsOfAll Store.lasting_true hcalls
    h₀.wellKept w hw
  constructor
  · intro name conditions actions metadata description active rule w' hrun
    obtain ⟨r, hcondition, hactions, rfl, hhas⟩ :=
      (RuleBook.ends_create_submitted hkept name conditions actions metadata description
        active).good_of_ok hrun
    refine ⟨r.condition, r.actions, hcondition, hactions, rfl, rfl, fun later hlater w'' hw'' => ?_⟩
    -- the version is there after it was made, and that lasts whatever the services do
    have hafter : w'.WellKept (fun _ => True) base :=
      (RuleBook.steady_create List.not_mem_nil name conditions actions metadata description active _
        Store.lasting_true base w hkept).good_of_ok hrun
    have hversion : w'.WellKept (Store.HasVersion r) base :=
      ⟨hafter.sound, hafter.declared, hafter.kept, hhas, hafter.inside⟩
    obtain ⟨_, hlast⟩ := Step.exists_wellKept_of_worldsOfAll (Store.lasting_hasVersion r) hlater
      hversion w'' hw''
    exact hlast.means
  · intro id changes e hname hconditions hactions he
    exact (RuleBook.unmalformed_update id hname hconditions hactions base w hkept).bad_of_error
      (Prod.ext he rfl)

end World

/-- A group of the older form that has a leaf of the older form, and a group of the present form with a
leaf of either. -/
def Condition.writtenMixed : Value :=
  .object [("type", .str "and"), ("children", .list [
    .object [("type", .str "rule"), ("field", .str "amount"), ("operator", .str ">="),
      ("value", .int 5)],
    .object [("operator", .str "OR"), ("operands", .list [
      Condition.writtenPresent "x",
      .object [("type", .str "rule"), ("field", .str "country"), ("operator", .str "in"),
        ("value", .list [.str "IN", .null])]])]])]

/-- The condition that this is. -/
def Condition.mixed : Condition :=
  .group .all [.leaf "amount" (.known .atLeast) (.int 5),
    .group .any [Condition.presentAt "x",
      .leaf "country" (.known .among) (.list [.str "IN", .null])]]

namespace World

/-- A rule whose condition mixes both forms is made after a rule has been changed twice, and keeps its
meaning while that is done once more. -/
theorem means_submitted_of_changeTwice :
    let w := (Step.runAll (Call.perform .rupees) Step.changeTwice (fresh default)).2
    let submitted := RuleBook.create (.str "B") Condition.writtenMixed
      (.list [.object [("type", .str "sendNotification")]])
    Condition.mixed.ReadsSame Condition.writtenMixed ∧
      ∃ rule w', submitted.perform w = (.ok rule, w') ∧
        ∀ w'' ∈ Step.worldsOfAll (Call.perform .rupees) Step.changeTwice w',
          w''.Means rule.id Condition.mixed [⟨"sendNotification", []⟩] := by
  intro w submitted
  obtain ⟨hconditions, -, hscript⟩ := means_submitted_of_script
  have hread : Condition.read .strict Condition.writtenMixed = .ok Condition.mixed := rfl
  have hcalls : Step.CallsOf Call.OfServices Step.changeTwice :=
    ⟨trivial, ⟨trivial, trivial, trivial, trivial⟩, ⟨trivial, trivial, trivial⟩, trivial⟩
  refine ⟨hconditions _ _ hread, ?_⟩
  have hok : (submitted.perform w).1.isOk = true := by decide +kernel
  generalize hrun : submitted.perform w = run at hok
  obtain ⟨e | rule, w'⟩ := run
  · cases hok
  obtain ⟨hmade, -⟩ := hscript .rupees (fresh default) Step.changeTwice (isNew_fresh default) hcalls w
    (Step.runAll_mem_worldsOfAll _ _ _)
  obtain ⟨c, as, hc, has, -, -, hmeans⟩ := hmade _ _ _ _ _ _ _ _ hrun
  rw [hread] at hc
  cases hc
  cases has
  exact ⟨rule, w', rfl, hmeans Step.changeTwice hcalls⟩

end World

end RewardLedger
