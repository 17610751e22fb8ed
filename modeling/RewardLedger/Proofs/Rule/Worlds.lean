import RewardLedger.Proofs.Duplicate
import RewardLedger.Proofs.Ledger.Books
import RewardLedger.Proofs.Rule.Versions

/-!
# Worlds that hold rules

`World.HoldsRules` ties a world to stored versions of rules: the store is sound and declared as it
should be, its rows stand for the versions, steps of the rule book lead to them, and a transaction
that is open leads back to where it started. What is left of an operation, whether it succeeds or
fails, is that steps lead from the versions before it to those after it (`World.RulesFrom`); a failed
transaction that is not part of another one leaves the versions as they were (`RulesFrom.leave`).

A change of one row switches a version and finds no key taken (`Op.ends_switch`), and neither does
adding the next version of a name (`Op.ends_add`).
-/

namespace RewardLedger

open StoredRule

/-! ## Worlds -/

namespace World

/-- The world holds the versions, which steps of the rule book have led to, and a transaction is open
if there is a base for it. -/
structure HoldsRules (base : Option Store) (rules : List StoredRule) (w : World) : Prop where
  /-- The store is sound. -/
  sound : w.store.Sound Value.IsPlain
  /-- The tables are declared as those of the ledger. -/
  declared : w.store.Declared
  /-- The rows stand for the versions. -/
  lists : w.store.Lists rules
  /-- Steps lead to the versions. -/
  reached : RuleBook.Steps [] rules
  /-- The identifiers have been given out. -/
  given : ∀ r ∈ rules, r.id.value ≤ w.issued
  /-- A transaction is open if there is a base for it. -/
  within : w.store.Within base

/-- The world holds versions that are related to these. -/
def RulesVia (R : List StoredRule → List StoredRule → Prop) (base : Option Store)
    (rules : List StoredRule) (w : World) : Prop := ∃ rules', R rules rules' ∧ w.HoldsRules base rules'

/-- The world holds versions that steps lead to from these. -/
def RulesFrom (base : Option Store) (rules : List StoredRule) (w : World) : Prop :=
  w.RulesVia RuleBook.Steps base rules

variable {base : Option Store} {rules rules' : List StoredRule} {w w' : World}

/-- A world that holds versions holds versions that steps lead to from them. -/
theorem HoldsRules.rulesFrom (h : w.HoldsRules base rules) : w.RulesFrom base rules :=
  ⟨rules, .refl, h⟩

/-- Which versions a world holds rests on the store. -/
theorem HoldsRules.congr (h : w.HoldsRules base rules) (hs : w'.store = w.store)
    (hi : w.issued ≤ w'.issued) : w'.HoldsRules base rules := by
  obtain ⟨h1, h2, h3, h4, h5, h6⟩ := h
  exact ⟨hs ▸ h1, hs ▸ h2, hs ▸ h3, h4, fun r hr => Nat.le_trans (h5 r hr) hi, hs ▸ h6⟩

/-- Which versions steps lead to rests on the store. -/
theorem restsOnStore_rulesFrom (base : Option Store) (rules : List StoredRule) :
    RestsOnStore (RulesFrom base rules) := by
  rintro w w' hs hi ⟨rules', hsteps, hw⟩
  exact ⟨rules', hsteps, hw.congr hs hi⟩

/-- Opening a transaction leads from a world that holds versions to one that does. -/
theorem HoldsRules.enter (h : w.HoldsRules base rules) :
    w.enter.HoldsRules (some (base.getD w.store)) rules := by
  cases base with
  | none =>
    rw [enter_of_undo_none h.within]
    exact ⟨h.sound.of_tables_eq rfl (Nat.le_refl _), h.declared,
      h.lists.of_alike (.of_tables_eq rfl), h.reached, h.given, Store.since_opened w.store⟩
  | some s₀ =>
    rw [enter_of_within h.within]
    exact h

/-- Keeping a transaction keeps the versions that it has led to. -/
theorem HoldsRules.leave (h : w.HoldsRules base rules)
    (h' : w'.HoldsRules (some (base.getD w.store)) rules') :
    (World.leave w w' true).HoldsRules base rules' := by
  cases base with
  | some s₀ =>
    rw [leave_of_within h.within]
    exact h'
  | none =>
    rw [leave_kept h.within]
    exact ⟨h'.sound.of_tables_eq rfl (Nat.le_refl _), h'.declared,
      h'.lists.of_alike (.of_tables_eq rfl), h'.reached, h'.given, rfl⟩

/-- Closing a transaction leads to versions that are related to those before it as steps can relate them,
whether it is kept or given up. -/
theorem RulesVia.leave {R : List StoredRule → List StoredRule → Prop} (h : w.HoldsRules base rules)
    (hrefl : R rules rules) (hsteps : ∀ {rules'}, R rules rules' → RuleBook.Steps rules rules')
    (h' : w'.RulesVia R (some (base.getD w.store)) rules) (keep : Bool) :
    (World.leave w w' keep).RulesVia R base rules := by
  obtain ⟨rules', hvia, hw'⟩ := h'
  cases keep with
  | true => exact ⟨rules', hvia, h.leave hw'⟩
  | false =>
    cases base with
    | some s₀ =>
      rw [leave_of_within h.within]
      exact ⟨rules', hvia, hw'⟩
    | none =>
      rw [leave_givenUp h.within]
      -- the rows are again those before, and no identifier has been taken back
      have hsince : Store.Since Value.IsPlain w.store w'.store := hw'.within
      obtain ⟨hsound, halike, hundo⟩ := hsince.rolledBack hw'.sound
      refine ⟨rules, hrefl, hsound, fun name => ?_, h.lists.of_alike halike, h.reached,
        fun r hr => ?_, hundo⟩
      · exact (halike.schema_eq name).trans (h.declared name)
      · obtain ⟨r', hr', hid⟩ := (hsteps hvia).exists_id hr
        rw [← hid]
        exact hw'.given r' hr'

/-- Closing a transaction leads to versions that steps lead to, whether it is kept or given up. -/
theorem RulesFrom.leave (h : w.HoldsRules base rules)
    (h' : w'.RulesFrom (some (base.getD w.store)) rules) (keep : Bool) :
    (World.leave w w' keep).RulesFrom base rules :=
  RulesVia.leave h .refl id h' keep

/-- A world whose store follows holds the versions that its rows stand for. -/
theorem HoldsRules.follows (h : w.HoldsRules base rules) {s : Store}
    (hs : w.store.Follows Value.IsPlain s) (hlists : s.Lists rules')
    (hreached : RuleBook.Steps [] rules') (hgiven : ∀ r ∈ rules', r.id.value ≤ w.issued) :
    ({ w with store := s } : World).HoldsRules base rules' where
  sound := hs.sound
  declared := h.declared.follows hs
  lists := hlists
  reached := hreached
  given := hgiven
  within := by
    cases base with
    | none => exact hs.undo_eq_none h.within
    | some s₀ => exact hs.since s₀ h.within

end World

/-! ## Changing one row -/

/-- The columns with another value for whether the version is active stand for the version with that
value. -/
theorem StoredRule.IsRow.switch {r : StoredRule} {columns : Fields} (h : r.IsRow columns)
    (active : Value) :
    IsRow { r with active } (columns.putAll [("is_active", active)]) := by
  have hother : ∀ {name : String} {v : Value}, name ≠ "is_active" → columns.find? name = some v →
      (columns.putAll [("is_active", active)]).find? name = some v := fun hne hv => by
    rw [Fields.find?_putAll_of_notMem _ (by simpa [Fields.names] using hne), hv]
  exact {
    id := hother (by decide) h.id
    name := hother (by decide) h.name
    version := hother (by decide) h.version
    condition := hother (by decide) h.condition
    proper := h.proper
    actions := hother (by decide) h.actions
    properActions := h.properActions
    active := Fields.find?_put_self _ _ _
    description := hother (by decide) h.description
    metadata := hother (by decide) h.metadata
    object := h.object
    createdAt := hother (by decide) h.createdAt
    place := hother (by decide) h.place
    others := fun c hc => by
      have hne : c ≠ "is_active" := fun he => hc (he ▸ by decide)
      rw [Fields.get, Fields.find?_putAll_of_notMem _ (by simpa [Fields.names] using hne)]
      exact h.others c hc }

/-- The columns of a version that is to be added. -/
def StoredRule.newRow (r : StoredRule) : Fields := [
  ("id", .uuid r.id), ("name", .str r.name), ("description", r.description),
  ("version", .int r.version), ("conditions", r.condition.toValue),
  ("actions", Action.listToValue r.actions), ("is_active", r.active), ("metadata", r.metadata),
  ("created_at", .instant r.createdAt)]

/-- The columns of a version that was added stand for the version at its place. -/
theorem StoredRule.isRow_newRow {r : StoredRule} (hproper : r.condition.Proper)
    (hactions : ∀ a ∈ r.actions, a.Proper) (hobject : r.metadata.asObject = .ok r.metadata)
    (place : Nat) : IsRow { r with place } (r.newRow.put sequenceColumn (.int place)) := by
  refine ⟨rfl, rfl, rfl, rfl, hproper, rfl, hactions, rfl, rfl, rfl, hobject, rfl, rfl,
    fun c hc => ?_⟩
  simp only [rowColumns, List.mem_cons, List.not_mem_nil, or_false, not_or] at hc
  rw [Fields.get, Fields.find?_put_of_ne _ _ (by tauto)]
  simp [newRow, Fields.find?, eq_comm, hc]

/-- The table of rules has one index, that of names and versions. -/
theorem Store.Declared.rules_schema {s : Store} (h : s.Declared) {t : Table}
    (ht : s.table? rulesTable = some t) :
    t.schema = ⟨"id", ["is_active"], [("name_version", ["name", "version"])]⟩ :=
  h.schema_eq rulesTable ht rfl

namespace Op

variable {base : Option Store} {rules : List StoredRule} {w : World}

/-- Changing whether a version is active switches it, or leaves the versions as they were. -/
theorem ends_switch (h : w.HoldsRules base rules) {r : StoredRule} (hr : r ∈ rules) {active : Value}
    (hon : active.truthy = true →
      ∀ o ∈ rules, o.name = r.name → o.id ≠ r.id → o.isActive = false) :
    (change (Store.update rulesTable (.uuid r.id) [("is_active", active)])).Ends w
      (fun columns w' => w'.HoldsRules base (rules.map (switched r.id active)) ∧
        IsRow { r with active } columns)
      fun e w' => e.isDuplicate = false ∧ w'.HoldsRules base rules := by
  have hfixed : ∀ t, w.store.table? rulesTable = some t → ∀ ix ∈ t.schema.indexes, ∀ c ∈ ix.2,
      c ∉ Fields.names [("is_active", active)] := fun t ht => by
    rw [h.declared.rules_schema ht]
    simp [Fields.names]
  have hfits := h.sound.fitsRows hfixed
  refine ends_change (fun columns s hrun => ?_) fun e s hrun => ?_
  · have hfollows := Store.follows_of_run_update h.sound hfits hrun
    obtain ⟨t, row, ht, hrow, hkey, -, -, rfl, rfl⟩ := Store.of_run_update_ok hrun
    -- the row that was updated has the key of the version, and no other version has that key
    have hrowkey : row.key = .uuid r.id := h.lists.key_eq h.sound ht hrow hkey
    have hlists : (w.store.updated rulesTable t row [("is_active", active)]).Lists
        (rules.map (switched r.id active)) := by
      refine h.lists.updated h.sound ht hrow (fun o ho hrow' => ?_) fun o ho => ?_
      · have hid : o.id = r.id := Value.uuid.inj (ho.trans hrowkey)
        rw [switched, if_pos hid]
        exact IsRow.switch hrow' active
      · exact if_neg fun hid => ho ((congrArg Value.uuid hid).trans hrowkey.symm)
    refine ⟨h.follows hfollows hlists (h.reached.tail (.switch hr hon)) fun o' ho' => ?_, ?_⟩
    · obtain ⟨o, ho, rfl⟩ := List.mem_map.1 ho'
      rw [switched_id]
      exact h.given o ho
    · obtain ⟨o, ho, hrow', hrowkey'⟩ : ∃ o ∈ rules, IsRow o row.columns ∧ row.key = .uuid o.id := by
        obtain ⟨o, ho, -, hrow', hkey'⟩ :=
          exists_mem_of_forall₂ (h.lists.forall₂_mem h.sound ht) hrow
        exact ⟨o, ho, hrow', hkey'⟩
      obtain rfl := h.reached.eq_of_id ho hr (Value.uuid.inj (hrowkey'.symm.trans hrowkey))
      exact hrow'.switch active
  · -- an update that fails leaves the rows as they were
    obtain ⟨-, halike, -⟩ := Store.of_run_update_error h.sound hfits hrun
    exact ⟨Failure.isDuplicate_eq_false (Store.isFault_of_run_update hfixed hrun),
      h.follows (Store.follows_of_run_update h.sound hfits hrun) (h.lists.of_alike halike) h.reached
        h.given⟩

/-- The row of a version has the key of the version in the index of names and versions. -/
theorem keyIn?_of_isRow {r : StoredRule} {columns : Fields}
    (hname : columns.find? "name" = some (.str r.name))
    (hversion : columns.find? "version" = some (.int r.version)) :
    columns.keyIn? ["name", "version"] = some [.str r.name, .int r.version] := by
  simp [Fields.keyIn?, Fields.get, hname, hversion, Value.isNull]

/-- The columns of a version fit the table of rules: the index is by a text and a number. -/
theorem fitsTable_newRow (h : w.HoldsRules base rules) (r : StoredRule) :
    w.store.FitsTable Value.IsPlain rulesTable r.newRow := by
  refine h.declared.fitsTable rfl ?_ fun ix hix c hc => ?_
  · exact .inr trivial
  · rw [List.mem_singleton.1 hix] at hc
    rcases List.mem_cons.1 hc with rfl | hc
    · exact .inr trivial
    · rw [List.mem_singleton.1 hc]
      exact .inr trivial

/-- Adding the next version of a name adds it, or leaves the versions as they were; it finds no key
taken. -/
theorem ends_add (h : w.HoldsRules base rules) {r : StoredRule} (hproper : r.condition.Proper)
    (hactions : ∀ a ∈ r.actions, a.Proper) (hobject : r.metadata.asObject = .ok r.metadata)
    (hgiven : r.id.value ≤ w.issued) (hid : ∀ o ∈ rules, o.id ≠ r.id)
    (hversion : r.version = (RuleBook.versionsOf r.name rules).length + 1)
    (hquiet : ∀ o ∈ rules, o.name = r.name → o.isActive = false) :
    (change (Store.insert rulesTable r.newRow)).Ends w
      (fun columns w' => ∃ place, w'.HoldsRules base (rules ++ [{ r with place }]) ∧
        IsRow { r with place } columns)
      fun e w' => e.isDuplicate = false ∧ w'.HoldsRules base rules := by
  have hfits := fitsTable_newRow h r
  refine ends_change (fun columns s hrun => ?_) fun e s hrun => ?_
  · have hfollows := Store.follows_of_run_insert h.sound hfits hrun
    obtain ⟨t, ht, -, -, -, rfl, rfl⟩ := Store.of_run_insert_ok hrun
    have hrow := isRow_newRow hproper hactions hobject w.store.nextSeq
    exact ⟨w.store.nextSeq, h.follows hfollows (h.lists.inserted hrow _)
      (h.reached.tail (.add hid hversion hquiet)) (forall_mem_concat h.given hgiven), hrow⟩
  · -- a taken key would be the identifier or the name with the number of the version
    obtain ⟨htables, -, -⟩ := Store.of_run_insert_error hrun
    refine ⟨Bool.eq_false_iff.2 fun hduplicate => ?_,
      h.follows (Store.follows_of_run_insert h.sound hfits hrun)
        (h.lists.of_alike (.of_tables_eq htables)) h.reached h.given⟩
    obtain ⟨table, index, key, rfl⟩ : ∃ table index key, e = .duplicate table index key := by
      cases e with
      | duplicate table index key => exact ⟨table, index, key, rfl⟩
      | _ => cases hduplicate
    obtain ⟨t, ht, row, hrow, htaken⟩ := Store.of_run_insert_duplicate h.sound hfits hrun
    have hschema := h.declared.rules_schema ht
    obtain ⟨o, ho, -, hrow', hkey⟩ := exists_mem_of_forall₂ (h.lists.forall₂_mem h.sound ht) hrow
    rcases htaken with hsame | ⟨ix, hix, own, hown, hhas⟩
    · -- the identifier is new
      rw [show t.primaryKey = "id" from congrArg Schema.primaryKey hschema, hkey] at hsame
      exact hid o ho (Value.uuid.inj (Value.sameKey_uuid_iff.1 hsame).symm)
    · -- the version is greater than all versions of the name
      rw [hschema, List.mem_singleton] at hix
      rw [hix] at hown hhas
      rw [keyIn?_of_isRow (r := r) rfl rfl, Option.some.injEq] at hown
      rw [Fields.hasKey, keyIn?_of_isRow (r := o) (IsRow.name hrow') (IsRow.version hrow'), ← hown]
        at hhas
      simp only [Option.any_some, Value.sameKeys, Bool.and_true, Bool.and_eq_true,
        Value.sameKey_str_iff, Value.str.injEq, Value.sameKey_int, Nat.cast_inj] at hhas
      obtain ⟨hname, hsame⟩ := hhas
      have hle := (h.reached.version_mem ho).2
      rw [← hname] at hle
      omega

end Op

end RewardLedger
