import RewardLedger.Proofs.Store.Rollback

/-!
# What insert and update do

Each of the two changes is first opened into its cases (`run_insert`, `run_update`), guards included.
What a change comes to is one of a few things (`InsertRun`, `UpdateRun`), and from these comes what all later proofs use: a change that is refused leaves a store that is alike to
the one before, a change that is made has one known difference, and either leaves a store that
follows the one before (`Store.Follows`): it is sound, and what an open transaction takes back leads
to where it led before.
-/

namespace RewardLedger.Store

/-! ## Cases -/

/-- The second change runs on the store that the first one leaves, if that one succeeds. -/
theorem run_bind {α β : Type} (m : StoreM α) (f : α → StoreM β) (s : Store) :
    (m >>= f).run.run s =
      match m.run.run s with
      | (.ok a, s') => (f a).run.run s'
      | (.error e, s') => (.error e, s') := by
  simp only [ExceptT.run, StateT.run, bind, ExceptT.bind, ExceptT.mk, StateT.bind,
    ExceptT.bindCont]
  rcases m s with ⟨r, s'⟩
  cases r with
  | ok a => rfl
  | error e => rfl

/-- The store after a row was added to the table. -/
def inserted (s : Store) (name : String) (key : Value) (columns : Fields) : Store :=
  ({ s with nextSeq := s.nextSeq + 1 }.modifyTable name
    (·.append ⟨s.nextSeq, key, columns⟩)).remember (.inserted name s.nextSeq)

/-- The store after a row of the table got other columns. -/
def updated (s : Store) (name : String) (t : Table) (row : Row) (changes : Fields) : Store :=
  (s.modifyTable name fun _ => t.rewrite row (row.columns.putAll changes)).remember
    (.updated name row.seq (changes.names.map fun c => (c, row.columns.get c)))

/-- The table after an index refused what a row would have become: the row is out of the indexes, or
is entered in them again if it was refused for a taken key. -/
def refused (t : Table) (row : Row) : Failure → Table
  | .duplicate .. => (t.unindex row.columns).index row.columns
  | _ => t.unindex row.columns

/-- A refusal changes no rows. -/
@[simp] theorem rows_refused (t : Table) (row : Row) (e : Failure) :
    (refused t row e).rows = t.rows := by
  cases e <;> rfl

/-- A refusal does not change what a table is declared as. -/
@[simp] theorem schema_refused (t : Table) (row : Row) (e : Failure) :
    (refused t row e).schema = t.schema := by
  cases e <;> simp [refused]

variable {s s' : Store} {name : String} {t : Table}

/-- Asking for a table that is there gives the table. -/
theorem run_table (ht : s.table? name = some t) :
    (do liftM ((← getThe Store).table name) : StoreM Table).run.run s = (.ok t, s) := by
  show (liftM (s.table name) : StoreM Table).run.run s = _
  rw [table, ht]
  rfl

/-- Asking for a table that is not there fails. -/
theorem run_table_none (ht : s.table? name = none) :
    (do liftM ((← getThe Store).table name) : StoreM Table).run.run s =
      (.error (.unknownTable (.str name)), s) := by
  show (liftM (s.table name) : StoreM Table).run.run s = _
  rw [table, ht]
  rfl

/-- Adding a row is refused for a key that is absent, can be no key, or is taken, and then for what
the indexes refuse. -/
theorem run_insert (ht : s.table? name = some t) (row : Fields) :
    (insert name row).run.run s =
      if (row.get t.primaryKey).isNull then (.error (.noPrimaryKey name t.primaryKey), s)
      else if (row.get t.primaryKey).hashable = false then (.error .wrongKind, s)
      else if (t.find? (row.get t.primaryKey)).isSome then
        (.error (.duplicate name t.primaryKey [row.get t.primaryKey]), s)
      else
        match t.refusal? name (row.put sequenceColumn (.int s.nextSeq)) with
        | some e => (.error e, { s with nextSeq := s.nextSeq + 1 })
        | none => (.ok (row.put sequenceColumn (.int s.nextSeq)),
            s.inserted name (row.get t.primaryKey) (row.put sequenceColumn (.int s.nextSeq))) := by
  unfold insert
  rw [← bind_assoc, run_bind, run_table ht]
  dsimp only
  -- the refusals are checked in the order in which the operation comes to them
  by_cases h1 : (row.get t.primaryKey).isNull = true
  · rw [if_pos h1, if_pos h1]
    rfl
  rw [if_neg h1, if_neg h1]
  by_cases h2 : (row.get t.primaryKey).hashable = false
  · rw [if_pos h2, h2]
    rfl
  rw [if_neg h2]
  simp only [Bool.not_eq_false] at h2
  rw [h2]
  by_cases h3 : (t.find? (row.get t.primaryKey)).isSome = true
  · rw [if_pos h3, if_pos h3]
    rfl
  rw [if_neg h3, if_neg h3]
  show (match t.refusal? name (row.put sequenceColumn (.int s.nextSeq)) with
    | some e => throw e
    | none => _ : StoreM Fields).run.run { s with nextSeq := s.nextSeq + 1 } = _
  cases t.refusal? name (row.put sequenceColumn (.int s.nextSeq)) with
  | some e => rfl
  | none => rfl

/-- Adding a row to a table that is not there fails. -/
theorem run_insert_none (ht : s.table? name = none) (row : Fields) :
    (insert name row).run.run s = (.error (.unknownTable (.str name)), s) := by
  rw [insert, ← bind_assoc, run_bind, run_table_none ht]

/-- Changing columns is refused for columns that may not change, for a key that can be none or that
no row has, and for what the indexes refuse once the row is taken out of them. -/
theorem run_update (ht : s.table? name = some t) (key : Value) (changes : Fields) :
    (update name key changes).run.run s =
      if (Text.inOrder (changes.names.filter fun c => !t.mutableColumns.contains c)).isEmpty = false
      then (.error (.immutable name
        (Text.inOrder (changes.names.filter fun c => !t.mutableColumns.contains c))), s)
      else if key.hashable = false then (.error .wrongKind, s)
      else
        match t.find? key with
        | none => (.error (.unknownRow name key), s)
        | some row =>
          match (t.unindex row.columns).refusal? name (row.columns.putAll changes) with
          | some e => (.error e, s.modifyTable name fun _ => refused t row e)
          | none => (.ok (row.columns.putAll changes), s.updated name t row changes) := by
  unfold update
  rw [← bind_assoc, run_bind, run_table ht]
  dsimp only
  generalize Text.inOrder (changes.names.filter fun c => !t.mutableColumns.contains c) = illegal
  -- again in order: the columns, the key, and the row, which alone is needed for the rest
  by_cases h1 : illegal.isEmpty = false
  · rw [if_pos h1, h1]
    rfl
  rw [if_neg h1]
  simp only [Bool.not_eq_false] at h1
  rw [h1]
  by_cases h2 : key.hashable = false
  · rw [if_pos h2, h2]
    rfl
  rw [if_neg h2]
  simp only [Bool.not_eq_false] at h2
  rw [h2]
  show (match t.find? key with
    | none => throw (.unknownRow name key)
    | some row => _ : StoreM Fields).run.run s = _
  cases t.find? key with
  | none => rfl
  | some row =>
    dsimp only
    show (match (t.unindex row.columns).refusal? name (row.columns.putAll changes) with
      | some refusal => _
      | none => _ : StoreM Fields).run.run s = _
    cases (t.unindex row.columns).refusal? name (row.columns.putAll changes) with
    | none => rfl
    | some refusal => rfl

/-- Changing columns in a table that is not there fails. -/
theorem run_update_none (ht : s.table? name = none) (key : Value) (changes : Fields) :
    (update name key changes).run.run s = (.error (.unknownTable (.str name)), s) := by
  rw [update, ← bind_assoc, run_bind, run_table_none ht]

/-- What adding a row comes to, and the store that is left. -/
inductive InsertRun (s : Store) (name : String) (row : Fields) :
    Except Failure Fields → Store → Prop where
  /-- There is no such table. -/
  | noTable (ht : s.table? name = none) :
    InsertRun s name row (.error (.unknownTable (.str name))) s
  /-- The primary key is null. -/
  | noKey {t : Table} (ht : s.table? name = some t)
    (hnull : (row.get t.primaryKey).isNull = true) :
    InsertRun s name row (.error (.noPrimaryKey name t.primaryKey)) s
  /-- The primary key can be none. -/
  | wrongKind {t : Table} (ht : s.table? name = some t)
    (hkind : (row.get t.primaryKey).hashable = false) : InsertRun s name row (.error .wrongKind) s
  /-- The primary key is taken. -/
  | taken {t : Table} {r : Row} (ht : s.table? name = some t)
    (hfind : t.find? (row.get t.primaryKey) = some r) :
    InsertRun s name row (.error (.duplicate name t.primaryKey [row.get t.primaryKey])) s
  /-- An index refuses the row, whose place is used up. -/
  | refused {t : Table} {e : Failure} (ht : s.table? name = some t)
    (hkey : (row.get t.primaryKey).IsKey) (hfree : t.find? (row.get t.primaryKey) = none)
    (hn : t.refusal? name (row.put sequenceColumn (.int s.nextSeq)) = some e) :
    InsertRun s name row (.error e) { s with nextSeq := s.nextSeq + 1 }
  /-- The row is added with its place. -/
  | added {t : Table} (ht : s.table? name = some t) (hkey : (row.get t.primaryKey).IsKey)
    (hfree : t.find? (row.get t.primaryKey) = none)
    (hn : t.refusal? name (row.put sequenceColumn (.int s.nextSeq)) = none) :
    InsertRun s name row (.ok (row.put sequenceColumn (.int s.nextSeq)))
      (s.inserted name (row.get t.primaryKey) (row.put sequenceColumn (.int s.nextSeq)))

/-- An insert comes to one of these. -/
theorem insertRun {row : Fields} {result : Except Failure Fields}
    (h : (insert name row).run.run s = (result, s')) : s.InsertRun name row result s' := by
  cases ht : s.table? name with
  | none =>
    cases (run_insert_none ht row).symm.trans h
    exact .noTable ht
  | some t =>
    rw [run_insert ht] at h
    split at h
    · rename_i hnull
      cases h
      exact .noKey ht hnull
    rename_i hnull
    split at h
    · rename_i hkind
      cases h
      exact .wrongKind ht hkind
    rename_i hkind
    have hkey : (row.get t.primaryKey).IsKey := ⟨by simpa using hkind, by simpa using hnull⟩
    cases hfind : t.find? (row.get t.primaryKey) with
    | some r =>
      rw [hfind] at h
      cases h
      exact .taken ht hfind
    | none =>
      rw [hfind] at h
      cases hn : t.refusal? name (row.put sequenceColumn (.int s.nextSeq)) with
      | some e =>
        rw [hn] at h
        cases h
        exact .refused ht hkey hfind hn
      | none =>
        rw [hn] at h
        cases h
        exact .added ht hkey hfind hn

/-- What changing columns comes to, and the store that is left. -/
inductive UpdateRun (s : Store) (name : String) (key : Value) (changes : Fields) :
    Except Failure Fields → Store → Prop where
  /-- There is no such table. -/
  | noTable (ht : s.table? name = none) :
    UpdateRun s name key changes (.error (.unknownTable (.str name))) s
  /-- Some of the columns may not change. -/
  | immutable {t : Table} (ht : s.table? name = some t)
    (hnames : (Text.inOrder
      (changes.names.filter fun c => !t.mutableColumns.contains c)).isEmpty = false) :
    UpdateRun s name key changes (.error (.immutable name
      (Text.inOrder (changes.names.filter fun c => !t.mutableColumns.contains c)))) s
  /-- The key can be none. -/
  | wrongKind {t : Table} (ht : s.table? name = some t) (hkind : key.hashable = false) :
    UpdateRun s name key changes (.error .wrongKind) s
  /-- No row has the key. -/
  | unknown {t : Table} (ht : s.table? name = some t) (hfind : t.find? key = none) :
    UpdateRun s name key changes (.error (.unknownRow name key)) s
  /-- An index refuses the row, which has been taken out of the indexes. -/
  | refused {t : Table} {row : Row} {e : Failure} (ht : s.table? name = some t)
    (hfind : t.find? key = some row)
    (hn : (t.unindex row.columns).refusal? name (row.columns.putAll changes) = some e) :
    UpdateRun s name key changes (.error e) (s.modifyTable name fun _ => refused t row e)
  /-- The columns are changed. -/
  | changed {t : Table} {row : Row} (ht : s.table? name = some t)
    (hnames : ∀ c ∈ changes.names, c ∈ t.mutableColumns) (hkind : key.hashable = true)
    (hfind : t.find? key = some row)
    (hn : (t.unindex row.columns).refusal? name (row.columns.putAll changes) = none) :
    UpdateRun s name key changes (.ok (row.columns.putAll changes)) (s.updated name t row changes)

/-- An update comes to one of these. -/
theorem updateRun {key : Value} {changes : Fields} {result : Except Failure Fields}
    (h : (update name key changes).run.run s = (result, s')) :
    s.UpdateRun name key changes result s' := by
  cases ht : s.table? name with
  | none =>
    cases (run_update_none ht key changes).symm.trans h
    exact .noTable ht
  | some t =>
    rw [run_update ht] at h
    split at h
    · rename_i hnames
      cases h
      exact .immutable ht hnames
    rename_i hnames
    split at h
    · rename_i hkind
      cases h
      exact .wrongKind ht hkind
    rename_i hkind
    cases hfind : t.find? key with
    | none =>
      rw [hfind] at h
      cases h
      exact .unknown ht hfind
    | some row =>
      rw [hfind] at h
      dsimp only at h
      cases hn : (t.unindex row.columns).refusal? name (row.columns.putAll changes) with
      | some e =>
        rw [hn] at h
        cases h
        exact .refused ht hfind hn
      | none =>
        rw [hn] at h
        cases h
        refine .changed ht (fun c hc => ?_) (by simpa using hkind) hfind hn
        rw [Bool.not_eq_false, List.isEmpty_iff, Text.inOrder_eq_nil, List.filter_eq_nil_iff]
          at hnames
        simpa using hnames c hc

/-! ## What follows a store -/

/-- The second store is sound, and what an open transaction takes back leads from it to where it led
from the first one. -/
structure Follows (K : Value → Prop) (s s' : Store) : Prop where
  /-- The store is sound. -/
  sound : s'.Sound K
  /-- A transaction is taken back to the same rows. -/
  since : ∀ base, Since K base s → Since K base s'
  /-- No transaction has been left open. -/
  undo_eq_none : s.undo = none → s'.undo = none
  /-- The tables are declared as before. -/
  schema_eq : ∀ name, (s'.table? name).map Table.schema = (s.table? name).map Table.schema

variable {K : Value → Prop}

/-- A sound store follows itself. -/
theorem Follows.refl (h : s.Sound K) : s.Follows K s :=
  ⟨h, fun _ h => h, fun h => h, fun _ => rfl⟩

/-- What follows a store that follows the first one follows the first one. -/
theorem Follows.trans {s'' : Store} (h : s.Follows K s') (h' : s'.Follows K s'') :
    s.Follows K s'' :=
  ⟨h'.sound, fun base hb => h'.since base (h.since base hb),
    fun hu => h'.undo_eq_none (h.undo_eq_none hu),
    fun name => (h'.schema_eq name).trans (h.schema_eq name)⟩

/-- A sound store that is alike, with the same changes to take back, follows. -/
theorem Follows.of_alike (hs : s.Sound K) (hs' : s'.Sound K) (ha : s'.Alike s)
    (hu : s'.undo = s.undo) : s.Follows K s' :=
  ⟨hs', fun _ hb => hb.of_alike hs hs' ha hu, fun h => hu.trans h, ha.schema_eq⟩

/-- Remembering a change keeps the tables. -/
@[simp] theorem table?_remember (s : Store) (u : Undo) (name : String) :
    (s.remember u).table? name = s.table? name := rfl

/-- Remembering a change keeps a store sound. -/
theorem Sound.remember (h : s.Sound K) (u : Undo) : (s.remember u).Sound K :=
  h.of_tables_eq rfl (Nat.le_refl _)

/-- A change that is remembered, and that leads back to a sound store, is what an open transaction
takes back first. -/
theorem Since.remember {base : Store} (h : Since K base s) (hs : s.Sound K) {u : Undo}
    (hu : s'.undo = s.undo) (ha : ((s'.remember u).revert u).Alike s) :
    Since K base (s'.remember u) := by
  obtain ⟨us, hus, hb⟩ := h
  refine ⟨u :: us, ?_, .step hs ha hb⟩
  rw [Store.remember, hu, hus]
  rfl

/-- The tables after a row was added. -/
theorem table?_inserted (s : Store) (name : String) (key : Value) (columns : Fields)
    (other : String) : (s.inserted name key columns).table? other =
      if other = name then (s.table? name).map (·.append ⟨s.nextSeq, key, columns⟩)
      else s.table? other := by
  rw [inserted, table?_remember, table?_modifyTable]
  rfl

/-- The tables after a row got other columns. -/
theorem table?_updated (ht : s.table? name = some t) (row : Row) (changes : Fields)
    (other : String) : (s.updated name t row changes).table? other =
      if other = name then some (t.rewrite row (row.columns.putAll changes))
      else s.table? other := by
  rw [updated, table?_remember, table?_modifyTable, ht]
  rfl

/-- Taking a row out again that was added behind the others leaves the rows that were there before. -/
theorem alike_revert_inserted (ht : s.table? name = some t) (hlast : ∀ r ∈ t.rows, r.seq < s.nextSeq)
    (key : Value) (columns : Fields) :
    ((s.inserted name key columns).revert (.inserted name s.nextSeq)).Alike s := by
  intro other
  rw [revert, table?_modifyTable, table?_inserted, table?_inserted, if_pos rfl, ht]
  by_cases ho : other = name
  · subst ho
    rw [if_pos rfl, ht]
    refine .some ⟨by simp, ?_⟩
    rw [Table.rows_discard, Table.rows_append, List.filter_append, List.filter_eq_self.2]
    · simp only [ne_eq, not_true_eq_false, decide_false, List.filter_cons, List.filter_nil,
        Bool.false_eq_true, if_false, List.append_nil]
      exact List.forall₂_same.2 fun r _ => Row.Alike.refl r
    · intro r hr
      simpa using Nat.ne_of_lt (hlast r hr)
  · rw [if_neg ho, if_neg ho]
    exact Alike.refl s other

/-- Giving changed columns their old values back leaves columns that agree with the old ones. -/
theorem alike_revert_updated (ht : s.table? name = some t) (hs : t.Ascending) {row : Row}
    (hr : row ∈ t.rows) (changes : Fields) :
    ((s.updated name t row changes).revert (.updated name row.seq
      (changes.names.map fun c => (c, row.columns.get c)))).Alike s := by
  intro other
  rw [revert, table?_modifyTable, table?_updated ht, table?_updated ht, if_pos rfl]
  by_cases ho : other = name
  · subst ho
    rw [if_pos rfl, ht]
    refine .some ⟨by simp, ?_⟩
    rw [(hs.rewrite row _).rows_restore, Table.rows_rewrite, List.map_map,
      List.forall₂_map_left_iff, List.forall₂_same]
    intro r hmem
    by_cases hseq : r.seq = row.seq
    · obtain rfl := Row.eq_of_seq hs hmem hr hseq
      simp only [Function.comp_apply, if_true]
      exact ⟨rfl, rfl, Fields.agrees_putBack r.columns changes⟩
    · simp only [Function.comp_apply, if_neg hseq]
      exact Row.Alike.refl r
  · rw [if_neg ho, if_neg ho]
    exact Alike.refl s other

variable [KeyKind K]

/-- A store follows if a row was added that has a key of its own, fits the indexes and is refused by
none of them. -/
theorem follows_inserted (hs : s.Sound K) (ht : s.table? name = some t) {row : Fields}
    (hk : K (row.get t.primaryKey)) (hfree : t.find? (row.get t.primaryKey) = none)
    (hfits : ∀ ix ∈ t.schema.indexes, row.FitsKey K ix.2)
    (hn : t.refusal? name (row.put sequenceColumn (.int s.nextSeq)) = none) :
    s.Follows K (s.inserted name (row.get t.primaryKey)
      (row.put sequenceColumn (.int s.nextSeq))) := by
  obtain ⟨hsound, hlast⟩ := hs name t ht
  have hproper := hsound.proper
  have happend : (t.append ⟨s.nextSeq, row.get t.primaryKey,
      row.put sequenceColumn (.int s.nextSeq)⟩).Sound K := by
    refine hsound.append hn hk (Fields.get_put_of_ne row _ hproper.key_ne)
      (Fields.get_put_self row _ _) hlast (Table.find?_none hfree) fun ix hix => ?_
    exact (hfits ix hix).put (hproper.index_ne ix hix) _
  refine ⟨?_, fun base hb => hb.remember hs rfl ?_, fun hu => ?_, fun other => ?_⟩
  · -- the place of the row has been used up, whatever becomes of the row
    have hused : Sound K { s with nextSeq := s.nextSeq + 1 } :=
      hs.of_tables_eq rfl (Nat.le_succ s.nextSeq)
    refine Sound.remember (hused.modifyTable ?_) _
    intro t' ht'
    obtain rfl : t = t' := Option.some.inj (ht.symm.trans ht')
    refine ⟨happend, fun r hr => ?_⟩
    rw [Table.rows_append, List.mem_append, List.mem_singleton] at hr
    rcases hr with hr | rfl
    · exact Nat.lt_succ_of_lt (hlast r hr)
    · exact Nat.lt_succ_self _
  · -- taking the row out again leads back to rows alike to those before
    exact alike_revert_inserted ht hlast _ _
  · show Option.map _ s.undo = none
    rw [hu]
    rfl
  · rw [table?_inserted]
    split
    · rename_i ho
      rw [ho, ht]
      exact congrArg some (Table.schema_append t _)
    · rfl

/-- Columns that no index refuses once the row is taken out share their keys in the indexes with no
row of another place. -/
theorem apart_of_refusal?_unindex (hs : t.Sound K) {row : Row} (hr : row ∈ t.rows)
    {columns : Fields} (hn : (t.unindex row.columns).refusal? name columns = none)
    (hfits : ∀ ix ∈ t.schema.indexes, columns.FitsKey K ix.2) :
    ∀ ix ∈ t.schema.indexes, ∀ key, KeyKind.All K key → columns.hasKey ix.2 key = true →
      ∀ r ∈ t.rows, r.seq ≠ row.seq → r.columns.hasKey ix.2 key = false := by
  -- the indexes without the row are those of the sound table from which the row is taken out
  have hdiscard : t.discard row.seq =
      { t with rows := t.rows.filter fun r => r.seq ≠ row.seq }.unindex row.columns := by
    rw [Table.discard, hs.ascending.find?_seq hr]
  have hn' : (t.discard row.seq).refusal? name columns = none := by
    rw [hdiscard]
    exact hn
  intro ix hix key hK hh r hrow hne
  rw [← Table.schema_discard t row.seq] at hix
  obtain ⟨i, hi, rfl⟩ := List.mem_map.1 hix
  refine (hs.discard row.seq).apart_of_refusal?_eq_none hn' hi ?_ hK hh r ?_
  · rw [Table.schema_discard] at hix
    exact hfits _ hix
  · rw [Table.rows_discard]
    exact List.mem_filter.2 ⟨hrow, by simpa using hne⟩

omit [KeyKind K] in
/-- Changes of columns that are in no index leave a row fitting the indexes. -/
theorem fits_putAll (hs : t.Sound K) {row : Row} (hr : row ∈ t.rows) {changes : Fields}
    (hc : ∀ ix ∈ t.schema.indexes, ∀ c ∈ ix.2, c ∉ changes.names) :
    ∀ ix ∈ t.schema.indexes, (row.columns.putAll changes).FitsKey K ix.2 := by
  intro ix hix c hcm
  rw [KeyKind.OrNull, Fields.get, Fields.find?_putAll_of_notMem _ (hc ix hix c hcm)]
  exact hs.rowsSound.fits ix hix row hr c hcm

/-- A table stays sound if columns that may change were changed in a row, the new ones fit the indexes
and none of them refuses them. -/
theorem sound_rewrite_putAll (hs : t.Sound K) {row : Row} (hr : row ∈ t.rows) {changes : Fields}
    (hc : ∀ c ∈ changes.names, c ∈ t.mutableColumns)
    (hfits : ∀ ix ∈ t.schema.indexes, (row.columns.putAll changes).FitsKey K ix.2)
    (hn : (t.unindex row.columns).refusal? name (row.columns.putAll changes) = none) :
    (t.rewrite row (row.columns.putAll changes)).Sound K := by
  have hkeep : ∀ c, c ∉ t.mutableColumns →
      (row.columns.putAll changes).get c = row.columns.get c := fun c hcm => by
    rw [Fields.get, Fields.find?_putAll_of_notMem _ fun h => hcm (hc c h)]
    rfl
  refine hs.rewrite hr (hs.rowsSound.replace hr ?_ ?_ hfits (apart_of_refusal?_unindex hs hr hn hfits))
  · exact (hkeep _ hs.proper.key_fixed).trans (hs.rowsSound.get_key row hr)
  · exact (hkeep _ hs.proper.seq_fixed).trans (hs.rowsSound.get_seq row hr)

/-- A store follows if columns that may change were changed in a row, the new ones fit the indexes
and none of them refuses them. -/
theorem follows_updated (hs : s.Sound K) (ht : s.table? name = some t) {row : Row}
    (hr : row ∈ t.rows) {changes : Fields} (hc : ∀ c ∈ changes.names, c ∈ t.mutableColumns)
    (hfits : ∀ ix ∈ t.schema.indexes, (row.columns.putAll changes).FitsKey K ix.2)
    (hn : (t.unindex row.columns).refusal? name (row.columns.putAll changes) = none) :
    s.Follows K (s.updated name t row changes) := by
  obtain ⟨hsound, hlast⟩ := hs name t ht
  have hrewrite : (t.rewrite row (row.columns.putAll changes)).Sound K :=
    sound_rewrite_putAll hsound hr hc hfits hn
  refine ⟨?_, fun base hb => hb.remember hs rfl ?_, fun hu => ?_, fun other => ?_⟩
  · refine Sound.remember (hs.modifyTable fun t' ht' => ?_) _
    refine ⟨hrewrite, fun r hr => ?_⟩
    obtain ⟨r', hr', rfl⟩ := List.mem_map.1 hr
    have hlt := hlast r' hr'
    split
    · exact hlt
    · exact hlt
  · exact alike_revert_updated ht hsound.ascending hr changes
  · show Option.map _ s.undo = none
    rw [hu]
    rfl
  · rw [table?_updated ht]
    split
    · rename_i ho
      rw [ho, ht]
      exact congrArg some (Table.schema_rewrite t row _)
    · rfl

/-! ## Runs -/

/-- The row has a key of the kind, or none, in the table of the name, and fits its indexes. -/
def FitsTable (K : Value → Prop) (s : Store) (name : String) (row : Fields) : Prop :=
  ∀ t, s.table? name = some t → KeyKind.OrNull K (row.get t.primaryKey) ∧
    ∀ ix ∈ t.schema.indexes, row.FitsKey K ix.2

omit [KeyKind K] in
/-- An insert that fails keeps the tables and the changes to take back. -/
theorem of_run_insert_error {row : Fields} {e : Failure}
    (h : (insert name row).run.run s = (.error e, s')) :
    s'.tables = s.tables ∧ s'.undo = s.undo ∧ s.nextSeq ≤ s'.nextSeq := by
  cases insertRun h with
  | noTable | noKey | wrongKind | taken => exact ⟨rfl, rfl, Nat.le_refl _⟩
  | refused => exact ⟨rfl, rfl, Nat.le_succ _⟩

omit [KeyKind K] in
/-- An insert that succeeds has added the row, whose key was free, with its place. -/
theorem of_run_insert_ok {row columns : Fields}
    (h : (insert name row).run.run s = (.ok columns, s')) :
    ∃ t, s.table? name = some t ∧ (row.get t.primaryKey).isNull = false ∧
      t.find? (row.get t.primaryKey) = none ∧ t.refusal? name columns = none ∧
      columns = row.put sequenceColumn (.int s.nextSeq) ∧
      s' = s.inserted name (row.get t.primaryKey) columns := by
  cases insertRun h with
  | added ht hkey hfree hn => exact ⟨_, ht, hkey.2, hfree, hn, rfl, rfl⟩

omit [KeyKind K] in
/-- Whatever an insert comes to, it neither opens nor closes a transaction and gives no place
back. -/
theorem frame_of_run_insert {row : Fields} {result : Except Failure Fields}
    (h : (insert name row).run.run s = (result, s')) :
    s'.inTransaction = s.inTransaction ∧ s.nextSeq ≤ s'.nextSeq := by
  cases result with
  | error e =>
    obtain ⟨-, hundo, hnext⟩ := of_run_insert_error h
    rw [inTransaction, inTransaction, hundo]
    exact ⟨rfl, hnext⟩
  | ok columns =>
    obtain ⟨t, -, -, -, -, -, rfl⟩ := of_run_insert_ok h
    exact ⟨Option.isSome_map, Nat.le_succ _⟩

/-- An insert that finds a key taken has a row in the way, with the same primary key or the same key
in an index. -/
theorem of_run_insert_duplicate (hs : s.Sound K) {row : Fields} (hf : s.FitsTable K name row)
    {table index : String} {key : List Value}
    (h : (insert name row).run.run s = (.error (.duplicate table index key), s')) :
    ∃ t, s.table? name = some t ∧ ∃ r ∈ t.rows,
      r.key.sameKey (row.get t.primaryKey) = true ∨
        ∃ ix ∈ t.schema.indexes, ∃ own, row.keyIn? ix.2 = some own ∧
          r.columns.hasKey ix.2 own = true := by
  cases insertRun h with
  | taken ht hfind =>
    obtain ⟨hmem, hsame⟩ := Table.find?_some hfind
    exact ⟨_, ht, _, hmem, .inl hsame⟩
  | refused ht _ _ hn =>
    -- the key is taken in an index, whose columns do not tell places
    have hsound := (hs name _ ht).1
    obtain ⟨-, hfits⟩ := hf _ ht
    obtain ⟨ix, hix, own, pk, hown, hpk, -⟩ := Table.duplicate_of_refusal? hn fun ix hix =>
      (hfits _ (Table.mem_schema hix)).put (hsound.proper.index_ne _ (Table.mem_schema hix)) _
    have hschema := Table.mem_schema hix
    rw [Fields.keyIn?_put_of_notMem (hsound.proper.index_ne _ hschema)] at hown
    obtain ⟨r, hr, hkey, -⟩ :=
      ((hsound.indexSound ix hix).find_iff own ((hfits _ hschema).all hown) pk).1 hpk
    exact ⟨_, ht, r, hr, .inr ⟨_, hschema, own, hown, hkey⟩⟩

/-- Whatever an insert comes to, the store that it leaves follows the one before. -/
theorem follows_of_run_insert (hs : s.Sound K) {row : Fields} (hf : s.FitsTable K name row)
    {result : Except Failure Fields} (h : (insert name row).run.run s = (result, s')) :
    s.Follows K s' := by
  cases result with
  | error e =>
    obtain ⟨htables, hundo, hnext⟩ := of_run_insert_error h
    exact .of_alike hs (hs.of_tables_eq htables hnext) (Alike.of_tables_eq htables) hundo
  | ok columns =>
    obtain ⟨t, ht, hnull, hfree, hn, rfl, rfl⟩ := of_run_insert_ok h
    obtain ⟨hkey, hfits⟩ := hf t ht
    refine follows_inserted hs ht (hkey.resolve_left fun h0 => ?_) hfree hfits hn
    rw [h0] at hnull
    cases hnull

/-- The changed row of the table of the name fits its indexes. -/
def FitsRows (K : Value → Prop) (s : Store) (name : String) (changes : Fields) : Prop :=
  ∀ t, s.table? name = some t → ∀ row ∈ t.rows, ∀ ix ∈ t.schema.indexes,
    (row.columns.putAll changes).FitsKey K ix.2

omit [KeyKind K] in
/-- Changes of columns that are in no index leave every row fitting the indexes. -/
theorem Sound.fitsRows (hs : s.Sound K) {changes : Fields}
    (hc : ∀ t, s.table? name = some t → ∀ ix ∈ t.schema.indexes, ∀ c ∈ ix.2,
      c ∉ changes.names) : s.FitsRows K name changes := by
  intro t ht row hr
  exact fits_putAll (hs name t ht).1 hr (hc t ht)

omit [KeyKind K] in
/-- An update that succeeds has changed columns that may change in the row of the key. -/
theorem of_run_update_ok {key : Value} {changes columns : Fields}
    (h : (update name key changes).run.run s = (.ok columns, s')) :
    ∃ t row, s.table? name = some t ∧ row ∈ t.rows ∧ row.key.sameKey key = true ∧
      (∀ c ∈ changes.names, c ∈ t.mutableColumns) ∧
      (t.unindex row.columns).refusal? name columns = none ∧
      columns = row.columns.putAll changes ∧ s' = s.updated name t row changes := by
  cases updateRun h with
  | changed ht hnames _ hfind hn =>
    obtain ⟨hr, hkey⟩ := Table.find?_some hfind
    exact ⟨_, _, ht, hr, hkey, hnames, hn, rfl, rfl⟩

omit [KeyKind K] in
/-- An update that fails has put the table at most in place of one that is declared the same and has
the same rows. -/
theorem rows_of_run_update_error {key : Value} {changes : Fields} {e : Failure}
    (h : (update name key changes).run.run s = (.error e, s')) :
    s' = s ∨ ∃ t t', s.table? name = some t ∧ t'.schema = t.schema ∧ t'.rows = t.rows ∧
      s' = s.modifyTable name fun _ => t' := by
  cases updateRun h with
  | noTable | immutable | wrongKind | unknown => exact .inl rfl
  | refused ht => exact .inr ⟨_, _, ht, schema_refused _ _ _, rows_refused _ _ _, rfl⟩

omit [KeyKind K] in
/-- Whatever an update comes to, it neither opens nor closes a transaction and uses no place up. -/
theorem frame_of_run_update {key : Value} {changes : Fields} {result : Except Failure Fields}
    (h : (update name key changes).run.run s = (result, s')) :
    s'.inTransaction = s.inTransaction ∧ s'.nextSeq = s.nextSeq := by
  cases updateRun h with
  | noTable | immutable | wrongKind | unknown | refused => exact ⟨rfl, rfl⟩
  | changed => exact ⟨Option.isSome_map, rfl⟩

omit [KeyKind K] in
/-- What an insert does to the tables does not depend on the changes that would be taken back. -/
theorem insert_congr (h : s'.tables = s.tables) (hn : s'.nextSeq = s.nextSeq) (row : Fields) :
    ((insert name row).run.run s').2.tables = ((insert name row).run.run s).2.tables ∧
      ((insert name row).run.run s').2.nextSeq = ((insert name row).run.run s).2.nextSeq := by
  have ht' : s'.table? name = s.table? name := by rw [table?, table?, h]
  cases ht : s.table? name with
  | none =>
    rw [ht] at ht'
    rw [run_insert_none ht, run_insert_none ht']
    exact ⟨h, hn⟩
  | some t =>
    rw [ht] at ht'
    rw [run_insert ht, run_insert ht', hn]
    split
    · exact ⟨h, hn⟩
    split
    · exact ⟨h, hn⟩
    split
    · exact ⟨h, hn⟩
    split
    · exact ⟨h, rfl⟩
    · simp only [inserted, remember, modifyTable, h, hn, and_self]

omit [KeyKind K] in
/-- What an update does to the tables does not depend on the changes that would be taken back. -/
theorem update_congr (h : s'.tables = s.tables) (hn : s'.nextSeq = s.nextSeq) (key : Value)
    (changes : Fields) :
    ((update name key changes).run.run s').2.tables =
        ((update name key changes).run.run s).2.tables ∧
      ((update name key changes).run.run s').2.nextSeq =
        ((update name key changes).run.run s).2.nextSeq := by
  have ht' : s'.table? name = s.table? name := by rw [table?, table?, h]
  cases ht : s.table? name with
  | none =>
    rw [ht] at ht'
    rw [run_update_none ht, run_update_none ht']
    exact ⟨h, hn⟩
  | some t =>
    rw [ht] at ht'
    rw [run_update ht, run_update ht']
    split
    · exact ⟨h, hn⟩
    split
    · exact ⟨h, hn⟩
    split
    · exact ⟨h, hn⟩
    split
    · simp only [modifyTable, h, hn, and_self]
    · simp only [updated, remember, modifyTable, h, hn, and_self]

/-- An update that fails leaves a store that is alike, with the same changes to take back. -/
theorem of_run_update_error (hs : s.Sound K) {key : Value} {changes : Fields}
    (hf : s.FitsRows K name changes) {e : Failure}
    (h : (update name key changes).run.run s = (.error e, s')) :
    s'.Sound K ∧ s'.Alike s ∧ s'.undo = s.undo := by
  cases updateRun h with
  | noTable | immutable | wrongKind | unknown => exact ⟨hs, Alike.refl s, rfl⟩
  | @refused t row _ ht hfind hn =>
    -- the row is refused for a taken key, so it has been entered in the indexes again
    have hr := (Table.find?_some hfind).1
    have hfit : ∀ ix ∈ (t.unindex row.columns).indexes,
        (row.columns.putAll changes).FitsKey K ix.columns := fun ix hix => by
      have hmem := Table.mem_schema hix
      rw [Table.schema_unindex] at hmem
      exact hf t ht row hr _ hmem
    obtain ⟨ix, -, k, pk, -, -, rfl⟩ := Table.duplicate_of_refusal? hn hfit
    obtain ⟨hsound, hlast⟩ := hs name t ht
    refine ⟨?_, ?_, rfl⟩
    · refine hs.modifyTable fun t' ht' => ?_
      exact ⟨hsound.reindex hr, hlast⟩
    · intro other
      rw [table?_modifyTable]
      split
      · rename_i ho
        rw [ho, ht]
        exact .some ⟨by simp, List.forall₂_same.2 fun r _ => Row.Alike.refl r⟩
      · exact Alike.refl s other

/-- Whatever an update comes to, the store that it leaves follows the one before. -/
theorem follows_of_run_update (hs : s.Sound K) {key : Value} {changes : Fields}
    (hf : s.FitsRows K name changes) {result : Except Failure Fields}
    (h : (update name key changes).run.run s = (result, s')) : s.Follows K s' := by
  cases result with
  | error e =>
    obtain ⟨hsound, halike, hundo⟩ := of_run_update_error hs hf h
    exact .of_alike hs hsound halike hundo
  | ok columns =>
    obtain ⟨t, row, ht, hr, -, hc, hn, rfl, rfl⟩ := of_run_update_ok h
    exact follows_updated hs ht hr hc (hf t ht row hr) hn

end RewardLedger.Store
