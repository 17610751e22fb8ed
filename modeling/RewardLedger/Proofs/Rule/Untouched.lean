import RewardLedger.Proofs.Rule.Changing
import RewardLedger.Proofs.Untouched

/-!
# The rule book leaves the tables alone when it refuses

Making a version retires older ones before it adds the new one, and switching one on switches others
off first. So the reasons to refuse must have been found by then: the new version must have a free
number, and the row that was changed last must still be a rule. The numbers are free and the rows are
rules if the rows are as the rule book writes them (`Fields.IsRule`), which a rule put into the table
by hand need not be. Nothing that the rule book does on its way spoils this
(`Op.ends_activate_faultless`).
-/

namespace RewardLedger

open Op

/-! ## Rows of rules -/

/-- The columns are such as the rule book writes: the name is a text, the version is a whole number,
and the actions can be read. -/
structure Fields.IsRule (columns : Fields) : Prop where
  /-- The name is a text. -/
  name : ∃ n, columns.find? "name" = some (.str n)
  /-- The version is a whole number. -/
  version : ∃ v, columns.find? "version" = some (.int v)
  /-- The actions can be read. -/
  actions : ∃ v, columns.find? "actions" = some v ∧ NoFault (Action.readList .lenient v)

namespace Fields.IsRule

variable {columns : Fields}

/-- Whether a rule is active does not matter. -/
theorem activate (h : columns.IsRule) (active : Value) :
    IsRule (columns.putAll [("is_active", active)]) := by
  have hother : ∀ {name : String} {v : Value}, name ≠ "is_active" → columns.find? name = some v →
      (columns.putAll [("is_active", active)]).find? name = some v := fun hne hv => by
    rw [Fields.find?_putAll_of_notMem _ (by simpa [Fields.names] using hne), hv]
  obtain ⟨⟨n, hn⟩, ⟨v, hv⟩, ⟨a, ha, hread⟩⟩ := h
  exact ⟨⟨n, hother (by decide) hn⟩, ⟨v, hother (by decide) hv⟩, ⟨a, hother (by decide) ha, hread⟩⟩

/-- Reading a rule meets no fault. -/
theorem noFault_ofRow (h : columns.IsRule) : NoFault (Rule.ofRow columns) := by
  obtain ⟨v, hv, hread⟩ := h.actions
  refine (noFault_column _ _).bind fun id => (noFault_column _ _).bind fun name => ?_
  refine (noFault_column _ _).bind fun version => (noFault_column _ _).bind fun conditions => ?_
  refine (Condition.noFault_read_lenient _).bind fun condition => ?_
  rw [StoredRule.column_eq hv]
  change NoFault (Action.readList .lenient v >>= _)
  exact hread.bind fun actions => (noFault_column _ _).bind fun active => .ok _

end Fields.IsRule

/-- The row of a stored version is that of a rule. -/
theorem StoredRule.IsRow.isRule {r : StoredRule} {columns : Fields} (h : r.IsRow columns) :
    columns.IsRule := by
  refine ⟨⟨_, h.name⟩, ⟨_, h.version⟩, ⟨_, h.actions, ?_⟩⟩
  rw [Action.readList_listToValue h.properActions]
  exact .ok _

/-- The columns have the name, and a version below the number. -/
def Fields.Below (name : String) (version : Int) (columns : Fields) : Prop :=
  columns.find? "name" = some (.str name) →
    ∃ v, columns.find? "version" = some (.int v) ∧ v < version

namespace World

/-- The table of rules is sound, its rows are rules with the property, and rules get new
identifiers. -/
structure RulesAre (P : Fields → Prop) (w : World) : Prop where
  /-- The tables are declared as those of the ledger. -/
  declared : w.Declared
  /-- No rule has an identifier that is still to be given out. -/
  fresh : w.FreshIn rulesTable
  /-- The table is sound. -/
  sound : ∀ t, w.store.table? rulesTable = some t → t.Sound Value.IsPlain
  /-- The rows are rules. -/
  isRule : ∀ t, w.store.table? rulesTable = some t → ∀ r ∈ t.rows, r.columns.IsRule
  /-- The rows have the property. -/
  rows : ∀ t, w.store.table? rulesTable = some t → ∀ r ∈ t.rows, P r.columns

/-- The table of rules is sound and its rows are rules, and rules get new identifiers. -/
abbrev RulesInOrder : World → Prop := RulesAre fun _ => True

/-- What the rows of rules are rests on the tables. -/
theorem restsOnTables_rulesAre (P : Fields → Prop) : RestsOnTables (RulesAre P) :=
  fun w w' ht hi h => by
    have htable : w'.store.table? rulesTable = w.store.table? rulesTable := by
      rw [Store.table?, Store.table?, ht]
    exact ⟨restsOnTables_declared ht hi h.declared, restsOnTables_freshIn _ ht hi h.fresh,
      htable ▸ h.sound, htable ▸ h.isRule, htable ▸ h.rows⟩

/-- A world that holds versions has rules in its table. -/
theorem HoldsRules.rulesInOrder {base : Option Store} {rules : List StoredRule} {w : World}
    (h : w.HoldsRules base rules) : w.RulesInOrder where
  declared := h.declared
  fresh := freshIn_of_lists h.lists h.sound fun o ho id hid => by
    rw [← Value.uuid.inj hid]
    exact h.given o ho
  sound t ht := (h.sound _ t ht).1
  isRule t ht r hr := by
    obtain ⟨o, -, -, hrow, -⟩ := exists_mem_of_forall₂ (h.lists.forall₂_mem h.sound ht) hr
    exact StoredRule.IsRow.isRule hrow
  rows _ _ _ _ := trivial

end World

/-! ## Changing and adding rows -/

namespace Op

open World

variable {P : Fields → Prop}

/-- Changing whether a rule is active meets no fault, and leaves rules. -/
theorem ends_activate_faultless
    (hP : ∀ columns active, P columns → P (columns.putAll [("is_active", active)]))
    {w : World} (hw : w.RulesAre P) (id active : Value) :
    (change (Store.update rulesTable id [("is_active", active)])).Ends w
      (fun columns w' => w'.RulesAre P ∧ columns.IsRule) fun e _ => e.isFault = false := by
  have hfixed : ∀ t, w.store.table? rulesTable = some t → ∀ ix ∈ t.schema.indexes, ∀ c ∈ ix.2,
      c ∉ Fields.names [("is_active", active)] := fun t ht => by
    rw [Store.Declared.rules_schema hw.declared ht]
    simp [Fields.names]
  refine ends_change (fun columns s hrun => ?_) fun e s hrun => Store.isFault_of_run_update hfixed hrun
  obtain ⟨t, row, ht, hrow, -, hmutable, hn, rfl, rfl⟩ := Store.of_run_update_ok hrun
  have hsound := hw.sound t ht
  have htable : ∀ t', (w.store.updated rulesTable t row [("is_active", active)]).table? rulesTable =
      some t' → t' = t.rewrite row (row.columns.putAll [("is_active", active)]) := fun t' ht' => by
    rw [Store.table?_updated ht, if_pos rfl] at ht'
    exact (Option.some.inj ht').symm
  -- a row of the changed table is a row of the old one, or has the new columns of the row
  have hrows : ∀ Q : Fields → Prop, (∀ r ∈ t.rows, Q r.columns) →
      (∀ columns active, Q columns → Q (columns.putAll [("is_active", active)])) →
      ∀ r ∈ (t.rewrite row (row.columns.putAll [("is_active", active)])).rows, Q r.columns := by
    intro Q hQ hstep r hr
    obtain ⟨o, ho, rfl⟩ := List.mem_map.1 hr
    split
    · exact hstep _ _ (hQ row hrow)
    · exact hQ o ho
  refine ⟨⟨hw.declared.updated ht row _, fun t' ht' n hn' => ?_, fun t' ht' => ?_,
    fun t' ht' => ?_, fun t' ht' => ?_⟩, (hw.isRule t ht row hrow).activate active⟩
  · rw [htable t' ht']
    refine List.find?_eq_none.2 fun r hr => ?_
    obtain ⟨o, ho, rfl⟩ := List.mem_map.1 hr
    have hother := Table.find?_none (hw.fresh t ht n hn') o ho
    split
    · simp [hother]
    · simp [hother]
  · rw [htable t' ht']
    exact Store.sound_rewrite_putAll hsound hrow hmutable (Store.fits_putAll hsound hrow (hfixed t ht)) hn
  · rw [htable t' ht']
    exact hrows _ (hw.isRule t ht) fun _ active h => h.activate active
  · rw [htable t' ht']
    exact hrows P (hw.rows t ht) hP

/-- Adding a rule with a number above those of its name meets no fault. -/
theorem ends_insertRule_faultless {name : String} {version : Int} {w : World}
    (hw : w.RulesAre (Fields.Below name version)) {id : Uuid}
    (hid : ∀ t, w.store.table? rulesTable = some t → t.find? (.uuid id) = none)
    (description conditions actions active metadata now : Value) :
    (change (Store.insert rulesTable [
      ("id", .uuid id), ("name", .str name), ("description", description),
      ("version", .int version), ("conditions", conditions), ("actions", actions),
      ("is_active", active), ("metadata", metadata), ("created_at", now)])).Ends w
      (fun columns _ => ∃ seq : Int, columns = Fields.put [
        ("id", .uuid id), ("name", .str name), ("description", description),
        ("version", .int version), ("conditions", conditions), ("actions", actions),
        ("is_active", active), ("metadata", metadata), ("created_at", now)]
          sequenceColumn (.int seq))
      fun e _ => e.isFault = false := by
  refine ends_change (fun columns s hrun => ?_) fun e s hrun => ?_
  · obtain ⟨t, ht, -, -, -, rfl, -⟩ := Store.of_run_insert_ok hrun
    exact ⟨_, rfl⟩
  refine Store.isFault_of_run_insert (fun t ht => ?_) hrun
  have hschema := Store.Declared.rules_schema hw.declared ht
  rw [show t.primaryKey = "id" from congrArg Schema.primaryKey hschema]
  refine ⟨hid t ht, fun ix hix key hkey => ?_⟩
  have hcolumns := Table.mem_schema hix
  rw [hschema] at hcolumns
  have hcolumns : ix.columns = ["name", "version"] :=
    congrArg Prod.snd (List.mem_singleton.1 hcolumns)
  rw [Index.keyOf?_eq, hcolumns] at hkey
  have hkey : [.str name, .int version] = key := Option.some.inj hkey
  have hplain : KeyKind.All Value.IsPlain key := by
    rw [← hkey]
    intro v hv
    rcases List.mem_cons.1 hv with rfl | hv
    · trivial
    · rw [List.mem_singleton.1 hv]
      trivial
  refine (((hw.sound t ht).indexSound ix hix).find_eq_none hplain).2 fun r hr => ?_
  -- a row with that key would have the name and the number
  rw [hcolumns, ← hkey, Bool.eq_false_iff]
  intro hhas
  obtain ⟨n, hn⟩ := (hw.isRule t ht r hr).name
  obtain ⟨v, hv⟩ := (hw.isRule t ht r hr).version
  have hown : r.columns.keyIn? ["name", "version"] = some [.str n, .int v] := by
    simp [Fields.keyIn?, Fields.get, hn, hv, Value.isNull]
  rw [Fields.hasKey, hown] at hhas
  simp only [Option.any_some, Value.sameKeys, Bool.and_true, Bool.and_eq_true,
    Value.sameKey_str_iff, Value.str.injEq, Value.sameKey_int] at hhas
  obtain ⟨rfl, rfl⟩ := hhas
  obtain ⟨v', hv', hlt⟩ := hw.rows t ht r hr hn
  rw [hv] at hv'
  cases hv'
  exact absurd hlt (lt_irrefl _)

end Op

namespace RuleBook

open World

/-! ## The next number -/

/-- The greatest of whole numbers is one of them, and none of them is greater. -/
theorem exists_foldlM_greaterVersion {rows : List Fields}
    (hrows : ∀ row ∈ rows, ∃ v, row.find? "version" = some (.int v)) (greatest : Option Int) :
    ∃ found : Option Int, rows.foldlM greaterVersion (greatest.map .int) = .ok (found.map .int) ∧
      (∀ i, greatest = some i → ∃ j, found = some j ∧ i ≤ j) ∧
      ∀ row ∈ rows, ∃ v j, row.find? "version" = some (.int v) ∧ found = some j ∧ v ≤ j := by
  induction rows generalizing greatest with
  | nil =>
    exact ⟨greatest, rfl, fun i hi => ⟨i, hi, le_refl i⟩, fun _ hrow => absurd hrow List.not_mem_nil⟩
  | cons row rest ih =>
    obtain ⟨v, hv⟩ := hrows row List.mem_cons_self
    -- the number of the first row, or the greatest one so far if that is not less
    obtain ⟨next, hnext, hle, hgreatest⟩ : ∃ next : Int,
        greaterVersion (greatest.map .int) row = .ok (some (.int next)) ∧ v ≤ next ∧
          ∀ i, greatest = some i → i ≤ next := by
      rw [greaterVersion, StoredRule.column_eq hv]
      cases greatest with
      | none => exact ⟨v, rfl, le_refl v, by rintro _ ⟨⟩⟩
      | some i =>
        simp only [bind, Except.bind, Option.map_some, Value.greaterThan, Value.related_int,
          OrderRelation.admits_greater]
        by_cases hiv : i < v
        · exact ⟨v, by rw [decide_eq_true hiv]; rfl, le_refl v, by rintro _ ⟨⟩; exact hiv.le⟩
        · exact ⟨i, by rw [decide_eq_false hiv]; rfl, not_lt.1 hiv, by rintro _ ⟨⟩; exact le_refl i⟩
    obtain ⟨found, hfound, hfirst, hrest⟩ :=
      ih (fun r hr => hrows r (List.mem_cons_of_mem _ hr)) (some next)
    obtain ⟨j, rfl, hj⟩ := hfirst next rfl
    refine ⟨some j, ?_, fun i hi => ⟨j, rfl, (hgreatest i hi).trans hj⟩, fun r hr => ?_⟩
    · rw [List.foldlM_cons, hnext]
      exact hfound
    · rcases List.mem_cons.1 hr with rfl | hr
      · exact ⟨v, j, hv, rfl, hle.trans hj⟩
      · exact hrest r hr

/-- The next number is above those of the rows. -/
theorem lt_of_nextVersion {rows : List Fields} {version : Value}
    (hrows : ∀ row ∈ rows, ∃ v, row.find? "version" = some (.int v))
    (h : nextVersion rows = .ok version) :
    ∃ n, version = .int n ∧ ∀ row ∈ rows, ∃ v, row.find? "version" = some (.int v) ∧ v < n := by
  obtain ⟨found, hfound, -, hall⟩ := exists_foldlM_greaterVersion hrows none
  rw [nextVersion, show rows.foldlM greaterVersion none = _ from hfound] at h
  cases found with
  | none =>
    cases h
    refine ⟨1, rfl, fun row hrow => ?_⟩
    obtain ⟨_, _, -, hnone, -⟩ := hall row hrow
    cases hnone
  | some j =>
    cases h
    refine ⟨j + 1, rfl, fun row hrow => ?_⟩
    obtain ⟨v, _, hv, ⟨⟩, hle⟩ := hall row hrow
    exact ⟨v, hv, Int.lt_add_one_of_le hle⟩

/-- When the rows of a name have been selected, the next number is above all of the name. -/
theorem rulesAre_below {w : World} (hw : w.RulesInOrder) {name : String}
    {previous : List Fields} {version : Value}
    (hprevious : w.store.select rulesTable (·.columnIs "name" (.str name)) = .ok previous)
    (hversion : nextVersion previous = .ok version) :
    ∃ n, version = .int n ∧ w.RulesAre (Fields.Below name n) := by
  obtain ⟨hdeclared, hfresh, hsound, hrule, -⟩ := hw
  rw [Store.select, Store.table] at hprevious
  cases ht : w.store.table? rulesTable with
  | none =>
    rw [ht] at hprevious
    cases hprevious
  | some t =>
    -- the rows that are selected are those of the name, since every row has one
    have hnames : ∀ columns ∈ t.rows.map Row.columns, columns.columnIs "name" (.str name) =
        .ok ((columns.get "name").sameKey (.str name)) := fun columns hcolumns => by
      obtain ⟨r, hr, rfl⟩ := List.mem_map.1 hcolumns
      obtain ⟨n, hn⟩ := (hrule t ht r hr).name
      rw [Fields.columnIs, StoredRule.column_eq hn, Fields.get, hn]
      exact Value.equalTo_str _ _
    simp only [ht, bind, Except.bind, Table.inOrder_of_notMem (hsound t ht).proper.seq_fixed,
      filterM_eq_ok hnames] at hprevious
    cases hprevious
    obtain ⟨n, rfl, hbelow⟩ := lt_of_nextVersion (fun row hrow => by
      obtain ⟨r, hr, rfl⟩ := List.mem_map.1 (List.mem_filter.1 hrow).1
      exact (hrule t ht r hr).version) hversion
    refine ⟨n, rfl, hdeclared, hfresh, hsound, hrule, fun t' ht' r hr hname => ?_⟩
    rw [ht] at ht'
    cases ht'
    refine hbelow _ (List.mem_filter.2 ⟨List.mem_map_of_mem hr, ?_⟩)
    rw [Fields.get, hname]
    exact Value.sameKey_str_iff.2 rfl

/-! ## Switching and making versions -/

variable {P : Fields → Prop}

/-- Changing whether a rule is active meets no fault. -/
theorem faultless_activate
    (hP : ∀ columns active, P columns → P (columns.putAll [("is_active", active)]))
    (id active : Value) : (change (Store.update rulesTable id [("is_active", active)])).Faultless
      (RulesAre P) (RulesAre P) := fun _ hw =>
  (ends_activate_faultless hP hw id active).mono (fun _ _ h => h.1) fun _ _ he => he

/-- Deactivating rules meets no fault. -/
theorem faultless_deactivateAll
    (hP : ∀ columns active, P columns → P (columns.putAll [("is_active", active)]))
    (rows : List Fields) : (deactivateAll rows).Faultless (RulesAre P) (RulesAre P) := by
  refine faultless_forM (fun row => ?_) rows
  have hactive : NoFault (isActive row) := (noFault_column _ _).bind fun _ => .ok _
  refine faultless_bind (faultless_ofExcept hactive) fun active => ?_
  cases active with
  | true =>
    exact faultless_bind (faultless_ofExcept (noFault_column _ _)) fun id =>
      faultless_map (faultless_activate hP id _)
  | false => exact faultless_pure _

/-- Whether a rule is active does not matter for its number. -/
theorem below_activate (name : String) (version : Int) (columns : Fields) (active : Value)
    (h : columns.Below name version) :
    Fields.Below name version (columns.putAll [("is_active", active)]) := by
  have hother : ∀ column, column ≠ "is_active" →
      (columns.putAll [("is_active", active)]).find? column = columns.find? column :=
    fun _ hne => Fields.find?_putAll_of_notMem _ (by simpa [Fields.names] using hne)
  intro hname
  rw [hother _ (by decide)] at hname ⊢
  exact h hname

/-- Making a version spares the tables: once the older versions are being deactivated, no fault is met
any more. -/
theorem spares_create (name conditions actions metadata description active : Value) :
    (create name conditions actions metadata description active).Spares
      RulesInOrder fun _ => True := by
  intro w hw
  have hkept : ∀ (w' : World) (e : Failure), w'.Spared e w' := fun w' _ _ => .refl w'
  unfold create
  cases hname : isName name with
  | false => exact ends_bind (ends_throw (hkept w _))
  | true =>
    obtain ⟨s, rfl⟩ := exists_of_isName hname
    refine ends_bind (ends_ofExcept (fun condition _ => ?_) fun _ _ => hkept w _)
    refine ends_bind (ends_ofExcept (fun actions hactions => ?_) fun _ _ => hkept w _)
    have hstored : NoFault (Action.readList .lenient (Action.listToValue actions)) := by
      rw [Action.readList_listToValue (Action.Proper.of_readList hactions)]
      exact .ok _
    refine ends_bind (ends_transaction (@Ends.mono _ _ _ (fun stored _ => stored.1.IsRule)
      w.enter.Spared _ _ ?_ (fun stored w' hrule => ?_) fun _ _ hs => hs.leave))
    · have hin := (restsOnTables_rulesAre _).enter hw
      generalize w.enter = w at hin ⊢
      refine ends_bind (ends_query (fun previous hprevious => ?_) fun _ _ => hkept w _)
      refine ends_bind (ends_ofExcept (fun version hversion => ?_) fun _ _ => hkept w _)
      obtain ⟨n, rfl, hbelow⟩ := rulesAre_below hin hprevious hversion
      -- from here on rules change, so every failure is outside of the domain
      refine @Ends.mono _ _ _ _ (fun e _ => e.isFault = false) _ _ ?_ (fun _ _ h => h)
        fun _ _ he => .of_not_isFault he
      refine ends_bind ((faultless_deactivateAll (below_activate s n) previous w hbelow).mono ?_
        fun _ _ he => he)
      intro _ w' hw'
      refine ends_bind (ends_freshId ?_)
      refine ends_bind (ends_ofExcept (fun metadata _ => ?_) (noFault_asObject _))
      refine ends_bind (ends_readClock (fun now clock _ => ?_) fun _ => rfl)
      have hnow : ({ w' with issued := w'.issued + 1, clock } : World).RulesAre
          (Fields.Below s n) := restsOnTables_rulesAre _ (w := w') rfl (Nat.le_succ _) hw'
      refine ends_bind ((ends_insertRule_faultless hnow (fun t ht => hw'.fresh t ht _
        (Nat.lt_succ_self _)) _ _ _ _ _ _).mono ?_ fun _ _ he => he)
      rintro _ w'' ⟨seq, rfl⟩
      exact ends_pure ⟨⟨s, rfl⟩, ⟨n, rfl⟩, ⟨_, rfl, hstored⟩⟩
    · refine ends_bind (ends_log ?_)
      exact ends_ofExcept (fun _ _ => trivial) fun e he =>
        .of_not_isFault (hrule.noFault_ofRow e he)

/-- Setting whether a rule is active spares the tables: once other versions are being deactivated, no
fault is met any more. -/
theorem spares_setActive (row : Fields) (active : Value) :
    (setActive row active).Spares RulesInOrder fun _ => True := by
  have hswitch : ∀ id : Value, (do
      let updated ← change (Store.update rulesTable id [("is_active", active)])
      log .info "rule_activation_changed" [("rule_id", .str id.plainText), ("is_active", active)]
      Op.ofExcept (Rule.ofRow updated) : Op Rule).Faultless RulesInOrder
        fun _ => True := fun id w hw => by
    refine ends_bind ((ends_activate_faultless (fun _ _ _ => trivial) hw id active).mono ?_
      fun _ _ he => he)
    rintro columns w' ⟨-, hrule⟩
    exact ends_bind (ends_log (ends_ofExcept (fun _ _ => trivial) hrule.noFault_ofRow))
  have hrests : RestsOnTables RulesInOrder := restsOnTables_rulesAre _
  refine (reads_ofExcept _).spares_bind hrests fun id => ?_
  cases active.truthy with
  | false => exact (hswitch id).spares
  | true =>
    refine (reads_ofExcept _).spares_bind hrests fun name => ?_
    refine (reads_query _).spares_bind hrests fun others => Faultless.spares ?_
    refine faultless_bind (faultless_forM (fun other => ?_) others) fun _ => hswitch id
    refine faultless_bind (faultless_ofExcept (noFault_column _ _)) fun otherId => ?_
    refine faultless_bind (faultless_ofExcept (noFault_equalTo _ _)) fun same => ?_
    cases same with
    | true => exact faultless_pure _
    | false => exact faultless_map (faultless_activate (fun _ _ _ => trivial) _ _)

/-- Applying changes to a rule spares the tables. -/
theorem spares_update (id : Value) (changes : Changes) :
    (update id changes).Spares RulesInOrder fun _ => True := by
  have hrests : RestsOnTables RulesInOrder := restsOnTables_rulesAre _
  have htrue : RestsOnTables fun _ => True := fun _ _ _ _ _ => trivial
  refine spares_transaction hrests htrue ((reads_row id).spares_bind hrests fun current => ?_)
  cases changes.concernContent with
  | false =>
    cases changes.active.isNull with
    | true => exact fun w _ => ((reads_ofExcept _).spares htrue) w trivial
    | false => exact spares_setActive _ _
  | true =>
    -- each part is given or taken from the row, and neither looks at the world
    cases changes.name.truthy <;> cases changes.conditions <;> cases changes.actions
    all_goals
      refine Reads.spares_bind (by first | exact reads_pure _ | exact reads_ofExcept _) hrests
        fun name => ?_
      refine Reads.spares_bind (by first | exact reads_pure _ | exact reads_ofExcept _) hrests
        fun conds => ?_
      refine Reads.spares_bind (by first | exact reads_pure _ | exact reads_ofExcept _) hrests
        fun actions => ?_
      exact (reads_ofExcept _).spares_bind hrests fun _ =>
        (reads_ofExcept _).spares_bind hrests fun _ => spares_create _ _ _ _ _ _

/-- Deactivating a rule spares the tables. -/
theorem spares_deactivate (id : Value) :
    (deactivate id).Spares RulesInOrder fun _ => True :=
  spares_transaction (restsOnTables_rulesAre _) (fun _ _ _ _ _ => trivial)
    ((reads_row id).spares_bind (restsOnTables_rulesAre _) fun _ => spares_setActive _ _)

end RuleBook

end RewardLedger
