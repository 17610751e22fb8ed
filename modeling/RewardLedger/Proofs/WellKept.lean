import RewardLedger.Proofs.Rule.Worlds
import RewardLedger.Rule.Book

/-!
# Well-kept worlds

Arguments come unchecked, so a column can hold a value of any kind, and a row that is no record can
stay in a table. What can be said all the same of every world that the services lead to is that it is
well kept (`World.WellKept`): its tables are sound for keys of every sort and declared as they should
be, rows but those of recorded requests are kept under identifiers, the rows of rules stand for
versions that could be made again, and an open transaction leads back to where it started.

A property of the store may be carried along if it lasts (`Store.Lasting`): rows that are alike, rows
that are added as the services write them and changes of mutable columns do not spoil it. A change of
the store keeps a world well kept (`Op.keeps_insert`, `Op.keeps_update`), and so does a transaction,
which leaves rows alike to those before it if it is given up (`World.WellKept.givenUp`).
-/

namespace RewardLedger

/-! ## Rows -/

/-- The version could be made again: its name has a character that is not blank, and it has actions. -/
structure StoredRule.Submitted (r : StoredRule) : Prop where
  named : RuleBook.isName (.str r.name) = true
  acts : r.actions ≠ []

/-- The row of the table is kept as the services keep rows. -/
structure Row.Kept (table : String) (row : Row) : Prop where
  /-- But for recorded requests it is kept under an identifier. -/
  id : table ≠ requestsTable → ∃ u, row.key = .uuid u
  /-- The row of a rule stands for a version that could be made again. -/
  rule : table = rulesTable → ∃ r : StoredRule, r.Submitted ∧ r.IsRow row.columns

/-- The columns are those of a row that the services add to the table. -/
structure Fields.Added (table : String) (columns : Fields) : Prop where
  /-- But for recorded requests it has an identifier. -/
  id : table ≠ requestsTable → ∃ u, columns.get "id" = .uuid u
  /-- The row of a rule stands for a version that could be made again. -/
  rule : table = rulesTable → ∃ r : StoredRule, r.Submitted ∧ r.condition.Proper ∧
    (∀ a ∈ r.actions, a.Proper) ∧ r.metadata.asObject = .ok r.metadata ∧ columns = r.newRow

/-- The columns are such as the services change in the table: of a rule only whether it is active. -/
def Fields.Changed (table : String) (changes : Fields) : Prop :=
  table = rulesTable → ∃ active, changes = [("is_active", active)]

/-- Rows that are alike are kept alike. -/
theorem Row.Kept.of_alike {table : String} {row row' : Row} (h : row.Kept table)
    (ha : row'.Alike row) : row'.Kept table where
  id hne := by
    obtain ⟨u, hu⟩ := h.id hne
    exact ⟨u, ha.key_eq.trans hu⟩
  rule heq := by
    obtain ⟨r, hr, hrow⟩ := h.rule heq
    have hrow' : Stored.IsRow r row'.columns := Stored.of_agrees ha.columns hrow
    exact ⟨r, hr, hrow'⟩

/-- A row that got other columns is kept. -/
theorem Row.Kept.changed {table : String} {row : Row} (h : row.Kept table) {changes : Fields}
    (hc : Fields.Changed table changes) :
    Row.Kept table { row with columns := row.columns.putAll changes } where
  id := h.id
  rule heq := by
    obtain ⟨r, hr, hrow⟩ := h.rule heq
    obtain ⟨active, rfl⟩ := hc heq
    exact ⟨{ r with active }, ⟨hr.named, hr.acts⟩, hrow.switch active⟩

namespace Store

/-- Every row is kept as the services keep rows. -/
def Kept (s : Store) : Prop := ∀ name t, s.table? name = some t → ∀ row ∈ t.rows, row.Kept name

variable {s s' : Store}

/-- Stores that are alike keep their rows alike. -/
theorem Kept.of_alike (h : s.Kept) (ha : s'.Alike s) : s'.Kept := by
  intro name t' ht' row' hrow'
  obtain ⟨t, ht, hat⟩ := ha.exists_table ht'
  obtain ⟨row, hrow, har⟩ := exists_mem_of_forall₂ hat.rows hrow'
  exact (h name t ht row hrow).of_alike har

/-- But for recorded requests, the primary key is the identifier. -/
theorem Declared.primaryKey_eq (h : s.Declared) {name : String} {t : Table}
    (ht : s.table? name = some t) (hne : name ≠ requestsTable) : t.primaryKey = "id" := by
  have hd := h name
  rw [ht, Option.map_some, eq_comm] at hd
  obtain ⟨t₀, ht₀, hschema⟩ := Option.map_eq_some_iff.1 hd
  rw [show t.primaryKey = t₀.primaryKey from (congrArg Schema.primaryKey hschema).symm]
  obtain ⟨d, hmem, rfl⟩ := Option.map_eq_some_iff.1 ht₀
  have hname : d.1 = name := by simpa using List.find?_some hmem
  have hmem := List.mem_of_find?_eq_some hmem
  simp only [Store.ledger, List.mem_cons, List.not_mem_nil, or_false] at hmem
  rcases hmem with rfl | rfl | rfl | rfl | rfl
  · rfl
  · rfl
  · rfl
  · exact absurd hname.symm hne
  · rfl

/-- A row that was added is kept, and so are the others. -/
theorem Kept.inserted (h : s.Kept) (hd : s.Declared) {name : String} {t : Table}
    (ht : s.table? name = some t) {row : Fields} (hrow : row.Added name) :
    (s.inserted name (row.get t.primaryKey) (row.put sequenceColumn (.int s.nextSeq))).Kept := by
  intro other t' ht' r hr
  rw [table?_inserted] at ht'
  split at ht'
  · rename_i heq
    subst heq
    rw [ht] at ht'
    cases ht'
    rcases List.mem_append.1 hr with hr | hr
    · exact h _ t ht r hr
    -- the last row is the one that was added
    rw [List.mem_singleton.1 hr]
    refine ⟨fun hne => ?_, fun heq => ?_⟩
    · rw [hd.primaryKey_eq ht hne]
      exact hrow.id hne
    · obtain ⟨v, hv, hproper, hactions, hobject, rfl⟩ := hrow.rule heq
      exact ⟨{ v with place := s.nextSeq }, ⟨hv.named, hv.acts⟩,
        StoredRule.isRow_newRow hproper hactions hobject s.nextSeq⟩
  · exact h other t' ht' r hr

/-- A row that was changed is kept, and so are the others. -/
theorem Kept.updated (h : s.Kept) {name : String} {t : Table} (ht : s.table? name = some t)
    {row : Row} (hrow : row ∈ t.rows) {changes : Fields} (hc : Fields.Changed name changes)
    (hs : ∀ r ∈ t.rows, r.seq = row.seq → r = row) : (s.updated name t row changes).Kept := by
  intro other t' ht' r hr
  rw [table?_updated ht] at ht'
  split at ht'
  · rename_i heq
    subst heq
    cases ht'
    obtain ⟨o, ho, rfl⟩ := List.mem_map.1 hr
    split
    · rename_i hseq
      obtain rfl := hs o ho hseq
      exact (h _ t ht o ho).changed hc
    · exact h _ t ht o ho
  · exact h other t' ht' r hr

/-- The columns that are found under a key are those of a row with the key. -/
theorem exists_row_of_get {name : String} {key : Value} {columns : Fields}
    (h : s.get name key = .ok (some columns)) : ∃ t row, s.table? name = some t ∧ row ∈ t.rows ∧
      row.key.sameKey key = true ∧ row.columns = columns := by
  rw [get, table] at h
  cases ht : s.table? name with
  | none =>
    rw [ht] at h
    cases h
  | some t =>
    simp only [ht, bind, Except.bind] at h
    split at h
    · obtain ⟨row, hfind, hcolumns⟩ := Option.map_eq_some_iff.1 (Except.ok.inj h)
      obtain ⟨hrow, hkey⟩ := Table.find?_some hfind
      exact ⟨t, row, rfl, hrow, hkey, hcolumns⟩
    · cases h

/-! ## Properties that last -/

/-- What the services do to the tables of a store, but for those that are passed by, does not spoil the
property. -/
structure Lasting (Q : Store → Prop) (passed : List String := []) : Prop where
  /-- Stores that are alike have it alike. -/
  of_alike : ∀ {s s' : Store}, s'.Alike s → Q s → Q s'
  /-- Adding a row as the services do does not spoil it. -/
  inserted : ∀ {s : Store} {name : String} {t : Table} {row : Fields}, name ∉ passed →
    s.table? name = some t → row.Added name → Q s →
      Q (s.inserted name (row.get t.primaryKey) (row.put sequenceColumn (.int s.nextSeq)))
  /-- Changing columns as the services do does not spoil it. -/
  updated : ∀ {s : Store} {name : String} {t : Table} {row : Row} {changes : Fields},
    name ∉ passed → s.table? name = some t → row ∈ t.rows →
      (∀ r ∈ t.rows, r.seq = row.seq → r = row) → Fields.Changed name changes → Q s →
        Q (s.updated name t row changes)

/-- What all stores have lasts. -/
theorem lasting_true : Lasting fun _ => True :=
  ⟨fun _ _ => trivial, fun _ _ _ _ => trivial, fun _ _ _ _ _ _ => trivial⟩

/-- Without a base no transaction is open; with one, an open transaction leads back to it, whatever
the keys are. -/
def Inside (base : Option Store) (s : Store) : Prop :=
  match base with
  | none => s.undo = none
  | some s₀ => Since Value.IsKey s₀ s

end Store

/-! ## Worlds -/

namespace World

/-- The world is kept as the services keep it, and its store has the property. -/
structure WellKept (Q : Store → Prop) (base : Option Store) (w : World) : Prop where
  /-- The store is sound, whatever its keys are. -/
  sound : w.store.Sound Value.IsKey
  /-- The tables are declared as those of the ledger. -/
  declared : w.store.Declared
  /-- The rows are kept as the services keep them. -/
  kept : w.store.Kept
  /-- The store has the property. -/
  lasting : Q w.store
  /-- A transaction is open if there is a base for it. -/
  inside : w.store.Inside base

variable {Q : Store → Prop} {passed : List String} {base : Option Store} {w w' : World}

/-- Whether a world is well kept rests on the store. -/
theorem restsOnStore_wellKept (Q : Store → Prop) (base : Option Store) :
    RestsOnStore (WellKept Q base) := by
  rintro w w' hs - ⟨h1, h2, h3, h4, h5⟩
  exact ⟨hs ▸ h1, hs ▸ h2, hs ▸ h3, hs ▸ h4, hs ▸ h5⟩

/-- With a base a transaction is open. -/
theorem WellKept.inTransaction {s₀ : Store} (h : w.WellKept Q (some s₀)) :
    w.store.inTransaction = true := by
  obtain ⟨us, hus, -⟩ := h.inside
  rw [Store.inTransaction, hus]
  rfl

/-- Opening a transaction keeps a world well kept. -/
theorem WellKept.enter (hQ : Store.Lasting Q passed) (h : w.WellKept Q base) :
    w.enter.WellKept Q (some (base.getD w.store)) := by
  cases base with
  | some s₀ =>
    rw [enter_of_inTransaction h.inTransaction]
    exact h
  | none =>
    have halike : w.store.opened.Alike w.store := .of_tables_eq rfl
    rw [enter_of_undo_none h.inside]
    exact ⟨h.sound.of_tables_eq rfl (Nat.le_refl _), h.declared, h.kept.of_alike halike,
      hQ.of_alike halike h.lasting, Store.since_opened w.store⟩

/-- A transaction that is given up at the top leaves rows alike to those before it. -/
theorem WellKept.givenUp (hQ : Store.Lasting Q passed) (h : w.WellKept Q none)
    (h' : w'.WellKept Q (some w.store)) :
    (World.leave w w' false).WellKept Q none ∧ (World.leave w w' false).store.Alike w.store := by
  obtain ⟨hsound, halike, hundo⟩ := Store.Since.rolledBack h'.inside h'.sound
  rw [leave_givenUp h.inside]
  refine ⟨⟨hsound, fun name => ?_, h.kept.of_alike halike, hQ.of_alike halike h.lasting, hundo⟩,
    halike⟩
  exact (halike.schema_eq name).trans (h.declared name)

/-- Closing a transaction keeps a world well kept. -/
theorem WellKept.leave (hQ : Store.Lasting Q passed) (h : w.WellKept Q base)
    (h' : w'.WellKept Q (some (base.getD w.store))) (keep : Bool) :
    (World.leave w w' keep).WellKept Q base := by
  cases base with
  | some s₀ =>
    rw [leave_of_inTransaction h.inTransaction]
    exact h'
  | none =>
    cases keep with
    | false => exact (h.givenUp hQ h').1
    | true =>
      have halike : w'.store.committed.Alike w'.store := .of_tables_eq rfl
      rw [leave_kept h.inside]
      exact ⟨h'.sound.of_tables_eq rfl (Nat.le_refl _), h'.declared, h'.kept.of_alike halike,
        hQ.of_alike halike h'.lasting, rfl⟩

/-- A world whose store follows is well kept if its rows are kept and the property has lasted. -/
theorem WellKept.follows (h : w.WellKept Q base) {s : Store}
    (hs : w.store.Follows Value.IsKey s) (hk : s.Kept) (hq : Q s) :
    ({ w with store := s } : World).WellKept Q base where
  sound := hs.sound
  declared := h.declared.follows hs
  kept := hk
  lasting := hq
  inside := by
    cases base with
    | none => exact hs.undo_eq_none h.inside
    | some s₀ => exact hs.since s₀ h.inside

end World

/-! ## Changes -/

namespace Store

variable {s s' : Store} {name : String}

/-- A row that was added has a key that can be one. -/
theorem isKey_of_run_insert {row columns : Fields}
    (h : (insert name row).run.run s = (.ok columns, s')) {t : Table}
    (ht : s.table? name = some t) : (row.get t.primaryKey).IsKey := by
  cases insertRun h with
  | added ht' hkey =>
    obtain rfl := Option.some.inj (ht.symm.trans ht')
    exact hkey

/-- Of a row that is added, only the columns of the indexes have to be keys or null: the primary key is
checked when it is added. -/
theorem follows_of_run_insert_indexed (hs : s.Sound Value.IsKey) (hd : s.Declared) {row : Fields}
    {t₀ : Table} (ht₀ : ledger.table? name = some t₀)
    (hix : ∀ ix ∈ t₀.schema.indexes, row.FitsKey Value.IsKey ix.2)
    {result : Except Failure Fields} (h : (insert name row).run.run s = (result, s')) :
    s.Follows Value.IsKey s' := by
  cases result with
  | error e =>
    obtain ⟨htables, hundo, hnext⟩ := of_run_insert_error h
    exact .of_alike hs (hs.of_tables_eq htables hnext) (Alike.of_tables_eq htables) hundo
  | ok columns =>
    refine follows_of_run_insert hs (fun t ht => ⟨.inr (isKey_of_run_insert h ht), ?_⟩) h
    rw [hd.schema_eq name ht ht₀]
    exact hix

end Store

namespace Op

open World

variable {Q : Store → Prop} {passed : List String} {base : Option Store}

/-- Adding a row as the services do keeps a world well kept. -/
theorem keeps_insert (hQ : Store.Lasting Q passed) {name : String} (hname : name ∉ passed)
    {row : Fields} (hrow : row.Added name) {t₀ : Table} (ht₀ : Store.ledger.table? name = some t₀)
    (hix : ∀ ix ∈ t₀.schema.indexes, row.FitsKey Value.IsKey ix.2) :
    (change (Store.insert name row)).Keeps (WellKept Q base) := by
  intro w hw
  refine ends_change (fun columns s hrun => ?_) fun e s hrun => ?_
  · have hfollows := Store.follows_of_run_insert_indexed hw.sound hw.declared ht₀ hix hrun
    obtain ⟨t, ht, -, -, -, rfl, rfl⟩ := Store.of_run_insert_ok hrun
    exact hw.follows hfollows (hw.kept.inserted hw.declared ht hrow)
      (hQ.inserted hname ht hrow hw.lasting)
  · have hfollows := Store.follows_of_run_insert_indexed hw.sound hw.declared ht₀ hix hrun
    obtain ⟨htables, -, -⟩ := Store.of_run_insert_error hrun
    have halike : s.Alike w.store := .of_tables_eq htables
    exact hw.follows hfollows (hw.kept.of_alike halike) (hQ.of_alike halike hw.lasting)

/-- Changing columns that are in no index, as the services do, keeps a world well kept. -/
theorem keeps_update (hQ : Store.Lasting Q passed) {name : String} (hname : name ∉ passed)
    (key : Value) {changes : Fields} (hchanges : changes.Changed name) {t₀ : Table}
    (ht₀ : Store.ledger.table? name = some t₀)
    (hc : ∀ ix ∈ t₀.schema.indexes, ∀ c ∈ ix.2, c ∉ changes.names) :
    (change (Store.update name key changes)).Keeps (WellKept Q base) := by
  intro w hw
  have hfits : w.store.FitsRows Value.IsKey name changes := hw.sound.fitsRows fun t ht => by
    rw [hw.declared.schema_eq name ht ht₀]
    exact hc
  refine ends_change (fun columns s hrun => ?_) fun e s hrun => ?_
  · have hfollows := Store.follows_of_run_update hw.sound hfits hrun
    obtain ⟨t, row, ht, hrow, -, -, -, rfl, rfl⟩ := Store.of_run_update_ok hrun
    have hplace : ∀ r ∈ t.rows, r.seq = row.seq → r = row := fun r hr =>
      (hw.sound name t ht).1.rowsSound.eq_of_seq hr hrow
    exact hw.follows hfollows (hw.kept.updated ht hrow hchanges hplace)
      (hQ.updated hname ht hrow hplace hchanges hw.lasting)
  · obtain ⟨-, halike, -⟩ := Store.of_run_update_error hw.sound hfits hrun
    exact hw.follows (Store.follows_of_run_update hw.sound hfits hrun) (hw.kept.of_alike halike)
      (hQ.of_alike halike hw.lasting)

end Op

end RewardLedger
