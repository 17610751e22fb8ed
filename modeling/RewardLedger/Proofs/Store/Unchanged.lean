import RewardLedger.Proofs.Store.Orderly
import RewardLedger.Proofs.Store.Restored

/-!
# A change that fails changes nothing

Whatever tables are declared and whatever a store has been through, an insert that fails leaves all
rows and all answers of the indexes as they were, and so does an update that fails
(`Store.unchanged_of_error`), with one exception: an update that gives a column of an index a value
that can be no key fails when the row is already out of the indexes, and is not entered again
(`Store.Unseats`). From then on the row is not found by its keys, and others can take them
(`Store.lost_of_list`). So the law is about stores that no such update has led to (`Store.Reached`).
-/

namespace RewardLedger

open Value (IsKey)

namespace Store

variable {s s' : Store} {name : String} {t : Table} {tables : List (String × Schema)}

/-! ## Orderly stores -/

/-- Every table is orderly, and its places have been used up. -/
def Orderly (s : Store) : Prop :=
  ∀ name t, s.table? name = some t → t.Orderly ∧ ∀ r ∈ t.rows, r.seq < s.nextSeq

/-- The places in an orderly store ascend. -/
theorem Orderly.ascending (h : s.Orderly) : s.Ascending := fun name t ht => (h name t ht).1.ascending

/-- The places that a store uses up do not matter for the order of its tables. -/
theorem Orderly.of_tables_eq (h : s.Orderly) (ht : s'.tables = s.tables)
    (hn : s.nextSeq ≤ s'.nextSeq) : s'.Orderly := by
  intro name t ht'
  rw [table?, ht] at ht'
  obtain ⟨horderly, hused⟩ := h name t ht'
  exact ⟨horderly, fun r hr => Nat.lt_of_lt_of_le (hused r hr) hn⟩

/-- Changing a table keeps the store orderly if the changed table is orderly. -/
theorem Orderly.modifyTable (h : s.Orderly) {f : Table → Table}
    (hf : ∀ t, s.table? name = some t → (f t).Orderly ∧ ∀ r ∈ (f t).rows, r.seq < s.nextSeq) :
    (s.modifyTable name f).Orderly := by
  intro other t ht
  rw [table?_modifyTable] at ht
  split at ht
  · obtain ⟨t₀, ht₀, rfl⟩ := Option.map_eq_some_iff.1 ht
    exact hf t₀ ht₀
  · exact h other t ht

/-- A store in which nothing has been done yet is orderly, whatever is declared. -/
theorem orderly_declared (tables : List (String × Schema)) : (declared tables).Orderly := by
  intro name t ht
  rw [table?_declared] at ht
  obtain ⟨σ, -, rfl⟩ := Option.map_eq_some_iff.1 ht
  refine ⟨Table.orderly_of_empty rfl fun ix hix => ?_, nofun⟩
  obtain ⟨_, -, rfl⟩ := List.mem_map.1 hix
  rfl

/-- Taking a change back leaves a store orderly that is then alike to an orderly one. -/
theorem Orderly.revert (h : s.Orderly) {u : Undo} (ha : (s.revert u).Alike s') (hs : s'.Orderly) :
    (s.revert u).Orderly := by
  cases u with
  | inserted name seq =>
    refine h.modifyTable fun t ht => ⟨(h name t ht).1.discard seq, fun r hr => ?_⟩
    rw [Table.rows_discard] at hr
    exact (h name t ht).2 r (List.mem_filter.1 hr).1
  | updated name seq previous =>
    refine h.modifyTable fun t ht => ⟨?_, fun r hr => ?_⟩
    · have ht' : (s.revert (.updated name seq previous)).table? name =
          some (t.restore seq previous) := by
        rw [Store.revert, table?_modifyTable, if_pos rfl, ht]
        rfl
      obtain ⟨t', hs', hat⟩ := ha.exists_table ht'
      exact (h name t ht).1.restore hat (hs name t' hs').1
    · rw [(h name t ht).1.ascending.rows_restore] at hr
      obtain ⟨r', hr', rfl⟩ := List.mem_map.1 hr
      have hlt := (h name t ht).2 r' hr'
      split
      · exact hlt
      · exact hlt

/-- Taking these changes back, the newest first, leads past stores that are alike to orderly ones. -/
inductive Trail : List Undo → Store → Prop where
  /-- There is nothing to take back. -/
  | done {s : Store} : Trail [] s
  /-- Taking the newest change back leads to a store that is alike to an orderly one. -/
  | step {u : Undo} {us : List Undo} {s s' : Store} (hs : s'.Orderly)
      (ha : (s.revert u).Alike s') (htrail : Trail us s') : Trail (u :: us) s

/-- What leads back from a store leads back from every store that is alike. -/
theorem Trail.of_alike {us : List Undo} (h : Trail us s) (hs : s.Orderly) (hs' : s'.Orderly)
    (ha : s'.Alike s) : Trail us s' := by
  cases h with
  | done => exact .done
  | step hback haback htrail =>
    exact .step hback ((ha.revert hs'.ascending hs.ascending _).trans haback) htrail

/-- Taking all changes back leads to an orderly store. -/
theorem Trail.foldl_revert {us : List Undo} (h : Trail us s) (hs : s.Orderly) :
    (us.foldl revert s).Orderly := by
  induction us generalizing s with
  | nil => exact hs
  | cons u us ih =>
    cases h with
    | step hback ha htrail =>
      have horderly := hs.revert ha hback
      exact ih (htrail.of_alike hback horderly ha) horderly

/-- The store is orderly, and so is what is left when the open transaction is given up. -/
structure Retraceable (s : Store) : Prop where
  /-- The store is orderly. -/
  orderly : s.Orderly
  /-- The changes of the open transaction can be taken back. -/
  trail : ∀ us, s.undo = some us → Trail us s

/-- A store that is alike, with the same changes to take back, can be retraced. -/
theorem Retraceable.of_alike (h : s.Retraceable) (hs' : s'.Orderly) (ha : s'.Alike s)
    (hu : s'.undo = s.undo) : s'.Retraceable :=
  ⟨hs', fun us hus => (h.trail us (hu.symm.trans hus)).of_alike h.orderly hs' ha⟩

/-- A store can be retraced if a change is remembered that leads back to such a store. -/
theorem Retraceable.remember (h : s.Retraceable) {u : Undo} (hu : s'.undo = s.undo)
    (hs' : s'.Orderly) (ha : ((s'.remember u).revert u).Alike s) :
    (s'.remember u).Retraceable := by
  refine ⟨hs'.of_tables_eq rfl (Nat.le_refl _), fun us hus => ?_⟩
  rw [Store.remember, hu] at hus
  obtain ⟨before, hbefore, rfl⟩ := Option.map_eq_some_iff.1 hus
  exact .step h.orderly ha (h.trail before hbefore)

/-! ## Changes -/

/-- An index refuses a row for a taken key, or because the row has a value that can be no key. -/
theorem refusal?_cases {columns : Fields} {e : Failure} (h : t.refusal? name columns = some e) :
    e = .wrongKind ∨ ∃ index key, e = .duplicate name index key := by
  obtain ⟨ix, -, he⟩ := List.exists_of_findSome?_eq_some h
  cases hk : ix.keyOf? columns with
  | none => simp [hk] at he
  | some key =>
    simp only [hk] at he
    split at he
    · exact .inl (Option.some.inj he).symm
    split at he
    · exact .inr ⟨_, _, (Option.some.inj he).symm⟩
    · cases he

/-- The update fails for the kind of a value and not because of the primary key that is asked for: a
column of an index would get a value that can be no key. -/
def Unseats (s : Store) (name : String) (key : Value) (changes : Fields) : Prop :=
  ((update name key changes).run.run s).1 = .error .wrongKind ∧ key.hashable = true

/-- An update that fails has changed nothing, or an index has refused the row, which was taken out of
the indexes. -/
theorem of_run_update_error_cases {key : Value} {changes : Fields} {e : Failure}
    (h : (update name key changes).run.run s = (.error e, s')) :
    (s' = s ∧ ¬s.Unseats name key changes) ∨
      ∃ t row, s.table? name = some t ∧ t.find? key = some row ∧ key.hashable = true ∧
        (t.unindex row.columns).refusal? name (row.columns.putAll changes) = some e ∧
        s' = s.modifyTable name fun _ => refused t row e := by
  have hresult : ((update name key changes).run.run s).1 = .error e := by rw [h]
  cases ht : s.table? name with
  | none =>
    rw [run_update_none ht] at h
    cases h
    exact .inl ⟨rfl, fun hu => by cases hresult.symm.trans hu.1⟩
  | some t =>
    rw [run_update ht] at h
    -- the refusals in their order; only the last one comes after the row was taken out
    split at h
    · cases h
      exact .inl ⟨rfl, fun hu => by cases hresult.symm.trans hu.1⟩
    split at h
    · rename_i hkind
      cases h
      exact .inl ⟨rfl, fun hu => by cases hkind.symm.trans hu.2⟩
    rename_i hkind
    cases hfind : t.find? key with
    | none =>
      rw [hfind] at h
      cases h
      exact .inl ⟨rfl, fun hu => by cases hresult.symm.trans hu.1⟩
    | some row =>
      rw [hfind] at h
      dsimp only at h
      cases hn : (t.unindex row.columns).refusal? name (row.columns.putAll changes) with
      | some e =>
        rw [hn] at h
        cases h
        exact .inr ⟨t, row, rfl, hfind, by simpa using hkind, hn, rfl⟩
      | none =>
        rw [hn] at h
        cases h

/-- A failing update that unseats no row has changed nothing, or the row was taken out of the indexes
and entered again. -/
theorem of_run_update_seated {key : Value} {changes : Fields} {e : Failure}
    (h : (update name key changes).run.run s = (.error e, s'))
    (hseated : ¬s.Unseats name key changes) :
    s' = s ∨ ∃ t row, s.table? name = some t ∧ row ∈ t.rows ∧
      s' = s.modifyTable name fun _ => (t.unindex row.columns).index row.columns := by
  rcases of_run_update_error_cases h with ⟨rfl, -⟩ | ⟨t, row, ht, hfind, hkind, hn, rfl⟩
  · exact .inl rfl
  · rcases refusal?_cases hn with rfl | ⟨index, taken, rfl⟩
    · exact absurd ⟨by rw [h], hkind⟩ hseated
    · exact .inr ⟨t, row, ht, (Table.find?_some hfind).1, rfl⟩

/-- An update that unseats a row has taken it out of the indexes. -/
theorem of_run_update_unseats {key : Value} {changes : Fields} {e : Failure}
    (h : (update name key changes).run.run s = (.error e, s'))
    (hunseats : s.Unseats name key changes) :
    ∃ t row, s.table? name = some t ∧ t.find? key = some row ∧
      s' = s.modifyTable name fun _ => t.unindex row.columns := by
  rcases of_run_update_error_cases h with ⟨-, hnot⟩ | ⟨t, row, ht, hfind, -, -, rfl⟩
  · exact absurd hunseats hnot
  · obtain ⟨hresult, -⟩ := hunseats
    rw [h] at hresult
    cases hresult
    exact ⟨t, row, ht, hfind, rfl⟩

/-- The stores that changes and transactions lead to from the declared tables, as long as no update
unseats a row. A change that fails is followed by any other, as in a transaction whose caller has
caught the failure. -/
inductive Reached (tables : List (String × Schema)) : Store → Prop where
  /-- Nothing has been done yet. -/
  | declared : Reached tables (declared tables)
  /-- A row was offered. -/
  | insert {s : Store} (h : Reached tables s) (name : String) (row : Fields) :
    Reached tables ((insert name row).run.run s).2
  /-- Changes of a row were offered. -/
  | update {s : Store} (h : Reached tables s) (name : String) (key : Value) (changes : Fields)
    (hseated : ¬s.Unseats name key changes) : Reached tables ((update name key changes).run.run s).2
  /-- A transaction was opened. -/
  | opened {s : Store} (h : Reached tables s) (hclosed : s.inTransaction = false) :
    Reached tables s.opened
  /-- The open transaction was closed. -/
  | committed {s : Store} (h : Reached tables s) : Reached tables s.committed
  /-- The open transaction was given up. -/
  | rolledBack {s : Store} (h : Reached tables s) : Reached tables s.rolledBack

/-- A store can be retraced whatever is inserted. -/
theorem Retraceable.insert (h : s.Retraceable) (name : String) (row : Fields) :
    ((Store.insert name row).run.run s).2.Retraceable := by
  cases hrun : (Store.insert name row).run.run s with
  | mk result s' =>
  cases result with
  | error e =>
    obtain ⟨htables, hundo, hnext⟩ := of_run_insert_error hrun
    exact h.of_alike (h.orderly.of_tables_eq htables hnext) (Alike.of_tables_eq htables) hundo
  | ok columns =>
    obtain ⟨t, ht, -, -, hn, -, rfl⟩ := of_run_insert_ok hrun
    obtain ⟨horderly, hlast⟩ := h.orderly name t ht
    refine h.remember rfl ?_ (alike_revert_inserted ht hlast _ _)
    have hused : Orderly { s with nextSeq := s.nextSeq + 1 } :=
      h.orderly.of_tables_eq rfl (Nat.le_succ s.nextSeq)
    refine hused.modifyTable fun t' ht' => ?_
    obtain rfl : t = t' := Option.some.inj (ht.symm.trans ht')
    refine ⟨horderly.append hn hlast, fun r hr => ?_⟩
    rw [Table.rows_append, List.mem_append, List.mem_singleton] at hr
    rcases hr with hr | rfl
    · exact Nat.lt_succ_of_lt (hlast r hr)
    · exact Nat.lt_succ_self _

/-- A store can be retraced whatever is changed, if no row is unseated. -/
theorem Retraceable.update (h : s.Retraceable) {name : String} {key : Value} {changes : Fields}
    (hseated : ¬s.Unseats name key changes) :
    ((Store.update name key changes).run.run s).2.Retraceable := by
  cases hrun : (Store.update name key changes).run.run s with
  | mk result s' =>
  cases result with
  | error e =>
    rcases of_run_update_seated hrun hseated with rfl | ⟨t, row, ht, hr, rfl⟩
    · exact h
    · obtain ⟨horderly, hused⟩ := h.orderly name t ht
      refine h.of_alike (h.orderly.modifyTable fun _ _ => ⟨horderly.reindex hr, hused⟩) ?_ rfl
      intro other
      rw [table?_modifyTable, ht]
      split
      · rename_i ho
        rw [ho, ht]
        exact .some ⟨by simp, List.forall₂_same.2 fun r _ => Row.Alike.refl r⟩
      · exact Alike.refl s other
  | ok columns =>
    obtain ⟨t, row, ht, hr, -, -, hn, rfl, rfl⟩ := of_run_update_ok hrun
    obtain ⟨horderly, hlast⟩ := h.orderly name t ht
    refine h.remember rfl ?_ (alike_revert_updated ht horderly.ascending hr changes)
    refine h.orderly.modifyTable fun _ _ => ⟨horderly.rewrite_of_refusal? hr hn, fun r hmem => ?_⟩
    obtain ⟨r', hr', rfl⟩ := List.mem_map.1 hmem
    have hlt := hlast r' hr'
    split
    · exact hlt
    · exact hlt

/-- Every store that is reached can be retraced. -/
theorem Reached.retraceable (h : Reached tables s) : s.Retraceable := by
  induction h with
  | declared => exact ⟨orderly_declared tables, nofun⟩
  | insert _ name row ih => exact ih.insert name row
  | update _ name key changes hseated ih => exact ih.update hseated
  | opened _ _ ih =>
    refine ⟨ih.orderly.of_tables_eq rfl (Nat.le_refl _), fun us hus => ?_⟩
    cases hus
    exact .done
  | committed _ ih => exact ⟨ih.orderly.of_tables_eq rfl (Nat.le_refl _), nofun⟩
  | @rolledBack s _ ih =>
    have htrail : Trail (s.undo.getD []) s := by
      cases hundo : s.undo with
      | none => exact .done
      | some us => exact ih.trail us hundo
    exact ⟨(htrail.foldl_revert ih.orderly).of_tables_eq rfl (Nat.le_refl _), nofun⟩

end Store

/-! ## What failures leave -/

/-- The tables have the same rows, and their indexes give the same answer for every possible key. -/
structure Table.Matches (t t' : Table) : Prop where
  /-- The declaration is the same. -/
  schema_eq : t'.schema = t.schema
  /-- The rows are the same. -/
  rows_eq : t'.rows = t.rows
  /-- The indexes are the same, but for the order in which they keep their entries. -/
  indexes : List.Forall₂ (fun ix ix' => ix'.name = ix.name ∧ ix'.columns = ix.columns ∧
    ∀ key, Value.allHashable key = true → ix'.find? key = ix.find? key) t.indexes t'.indexes

namespace Table

variable {t t' : Table}

/-- A table matches itself. -/
theorem Matches.refl (t : Table) : t.Matches t :=
  ⟨rfl, rfl, List.forall₂_same.2 fun _ _ => ⟨rfl, rfl, fun _ _ => rfl⟩⟩

/-- Where there is a table it matches itself. -/
theorem Matches.rel_refl (found : Option Table) : Option.Rel Matches found found := by
  cases found with
  | none => exact .none
  | some t => exact .some (.refl t)

/-- Tables that match refuse the same rows for the same reasons. -/
theorem Matches.refusal?_eq (h : t.Matches t') (name : String) (row : Fields) :
    t'.refusal? name row = t.refusal? name row := by
  have hindexes := h.indexes
  unfold refusal?
  generalize t.indexes = ixs, t'.indexes = ixs' at hindexes
  induction hindexes with
  | nil => rfl
  | @cons ix ix' _ _ hix _ ih =>
    obtain ⟨hname, hcolumns, hfind⟩ := hix
    have hkey : ix'.keyOf? row = ix.keyOf? row := by rw [Index.keyOf?_eq, hcolumns]; rfl
    rw [List.findSome?_cons, List.findSome?_cons, ih, hkey, hname]
    cases ix.keyOf? row with
    | none => rfl
    | some key =>
      dsimp only
      by_cases hkind : Value.allHashable key = true
      · rw [hfind key hkind]
      · rw [Bool.not_eq_true] at hkind
        rw [hkind]
        rfl

/-- The same index is found by its name in tables that match, or none in either. -/
theorem Matches.find?_index (h : t.Matches t') (index : String) :
    Option.Rel (fun ix ix' : Index => ix'.columns = ix.columns ∧
        ∀ key, Value.allHashable key = true → ix'.find? key = ix.find? key)
      (t.indexes.find? fun ix => ix.name = index) (t'.indexes.find? fun ix => ix.name = index) := by
  have hindexes := h.indexes
  generalize t.indexes = ixs, t'.indexes = ixs' at hindexes
  induction hindexes with
  | nil => exact .none
  | @cons ix ix' _ _ hix _ ih =>
    obtain ⟨hname, hsame⟩ := hix
    rw [List.find?_cons, List.find?_cons, hname]
    split
    · exact .some hsame
    · exact ih

/-- In an orderly table a row can be taken out of the indexes and entered again. -/
theorem Orderly.matches_reindex (h : t.Orderly) {row : Row} (hr : row ∈ t.rows) :
    t.Matches ((t.unindex row.columns).index row.columns) := by
  refine ⟨by simp, rfl, ?_⟩
  have hmap : ((t.unindex row.columns).index row.columns).indexes = t.indexes.map fun ix =>
      (ix.remove row.columns).add row.columns (row.columns.get t.primaryKey) := List.map_map ..
  rw [hmap, List.forall₂_map_right_iff, List.forall₂_same]
  intro ix hix
  refine ⟨by simp, by simp, fun key hkind => ?_⟩
  have hlists := h.lists_reindex hr hix
  by_cases hnull : key.any Value.isNull = true
  · rw [hlists.regular.find?_eq_none hnull, (h.lists ix hix).regular.find?_eq_none hnull]
  · have hk := Value.all_isKey hkind (Bool.eq_false_iff.2 hnull)
    exact (h.lists ix hix).find?_eq hlists (by simp) hk

end Table

namespace Store

/-- All tables have the same rows, and their indexes give the same answers: every row is found by its
keys as before, and the same rows are refused. -/
structure Unchanged (s s' : Store) : Prop where
  /-- The rows and the entries of the indexes are the same. -/
  tables : ∀ name, Option.Rel Table.Matches (s.table? name) (s'.table? name)
  /-- The same rows are found by the indexes. -/
  findUnique : ∀ name index key, s'.findUnique name index key = s.findUnique name index key
  /-- The same rows are refused. -/
  refusal : ∀ name t t', s.table? name = some t → s'.table? name = some t' →
    ∀ row, t'.refusal? name row = t.refusal? name row

variable {s s' : Store} {name : String} {t : Table} {tables : List (String × Schema)}

/-- A store whose tables match is unchanged. -/
theorem Unchanged.of_matches (h : ∀ name, Option.Rel Table.Matches (s.table? name) (s'.table? name)) :
    s.Unchanged s' := by
  refine ⟨h, fun name index key => ?_, fun name t t' ht ht' row => ?_⟩
  · -- the same index is there, and what it finds is entered in the same columns
    have hname := h name
    unfold Store.findUnique Store.table
    generalize s.table? name = found, s'.table? name = found' at hname
    cases hname with
    | none => rfl
    | @some t t' hmatch =>
      have hindex := hmatch.find?_index index
      simp only [bind, Except.bind]
      generalize (t.indexes.find? fun ix => ix.name = index) = ix,
        (t'.indexes.find? fun ix => ix.name = index) = ix' at hindex
      cases hindex with
      | none => rfl
      | @some ix ix' hix =>
        obtain ⟨hcolumns, hfind⟩ := hix
        dsimp only
        split
        · rename_i hkind
          have hentered : ∀ pk, t'.entered? ix' key pk = t.entered? ix key pk := by
            intro pk
            unfold Table.entered? Table.find?
            rw [hmatch.rows_eq]
            simp only [Index.keyOf?_eq, hcolumns]
          rw [hfind key hkind]
          simp only [hentered]
        · rfl
  · have hname := h name
    rw [ht, ht'] at hname
    cases hname with
    | some hmatch => exact hmatch.refusal?_eq name row

/-- In a store that is reached a change that fails leaves everything as it was, whatever it fails for,
unless it unseats a row: then the rows are as they were, and the keys of that row, and no others, lead
nowhere. -/
theorem unchanged_of_error (h : Reached tables s) :
    (∀ name row e s', (insert name row).run.run s = (.error e, s') → s.Unchanged s') ∧
    ∀ name key changes e s', (update name key changes).run.run s = (.error e, s') →
      (¬s.Unseats name key changes → s.Unchanged s') ∧
      (s.Unseats name key changes → ∃ t row, s.table? name = some t ∧ t.find? key = some row ∧
        s' = s.modifyTable name (fun _ => t.unindex row.columns) ∧
        (t.unindex row.columns).rows = t.rows ∧
        ∀ ix ∈ t.indexes, ∀ taken, Value.allHashable taken = true →
          (ix.remove row.columns).find? taken =
            if row.columns.hasKey ix.columns taken then none else ix.find? taken) := by
  have horderly := h.retraceable.orderly
  refine ⟨fun name row e s' hrun => ?_, fun name key changes e s' hrun => ⟨fun hseated => ?_,
    fun hunseats => ?_⟩⟩
  · obtain ⟨htables, -, -⟩ := of_run_insert_error hrun
    refine .of_matches fun name => ?_
    have hsame : s'.table? name = s.table? name := by rw [table?, table?, htables]
    rw [hsame]
    exact Table.Matches.rel_refl _
  · refine .of_matches fun other => ?_
    rcases of_run_update_seated hrun hseated with rfl | ⟨t, row, ht, hr, rfl⟩
    · exact Table.Matches.rel_refl _
    · rw [table?_modifyTable, ht]
      split
      · rename_i ho
        rw [ho, ht]
        exact .some ((horderly name t ht).1.matches_reindex hr)
      · exact Table.Matches.rel_refl _
  · -- the row is no longer in the indexes, so its own keys are not found there
    obtain ⟨t, row, ht, hfind, rfl⟩ := of_run_update_unseats hrun hunseats
    refine ⟨t, row, ht, hfind, rfl, rfl, fun ix hix taken hkind => ?_⟩
    have hordered := (horderly name t ht).1
    have hregular := (hordered.lists ix hix).regular
    by_cases hnull : taken.any Value.isNull = true
    · rw [hregular.remove.find?_eq_none hnull, hregular.find?_eq_none hnull, ite_self]
    · exact Index.find?_remove hregular
        (hordered.apart.keyFits _ (Table.mem_schema hix) row (Table.find?_some hfind).1)
        (Value.all_isKey hkind (Bool.eq_false_iff.2 hnull))

/-- The store after two accounts were added. -/
def twoAccounts : Store :=
  ((insert "accounts" [("id", .int 2), ("email", .str "b")]).run.run
    ((insert "accounts" [("id", .int 1), ("email", .str "a")]).run.run (declared accounts)).2).2

/-- An account that asks for the email of another one stays as it is, and so does the other one. -/
theorem unchanged_of_error_emailTaken :
    Reached accounts twoAccounts ∧
      ((update "accounts" (.int 2) [("email", .str "a")]).run.run twoAccounts).1 =
        .error (.duplicate "accounts" "email" [.str "a"]) ∧
      twoAccounts.Unchanged
        ((update "accounts" (.int 2) [("email", .str "a")]).run.run twoAccounts).2 := by
  have hreached : Reached accounts twoAccounts := (Reached.declared.insert _ _).insert _ _
  have hrefused : ((update "accounts" (.int 2) [("email", .str "a")]).run.run twoAccounts).1 =
      .error (.duplicate "accounts" "email" [.str "a"]) := by with_unfolding_all rfl
  refine ⟨hreached, hrefused,
    ((unchanged_of_error hreached).2 _ _ _ _ _ (Prod.ext hrefused rfl)).1 ?_⟩
  rintro ⟨hunseats, -⟩
  cases hrefused.symm.trans hunseats

/-- An account that asks for a list as its email is refused, and keeps its email, but it is not found
by the email any more, and another account can take it. -/
theorem lost_of_list :
    let failed := (update "accounts" (.int 1) [("email", .list [])]).run.run twoAccounts
    let found := [("id", .int 1), ("email", .str "a"), ("_seq", .int 1)]
    Reached accounts twoAccounts ∧ failed.1 = .error .wrongKind ∧
      twoAccounts.findUnique "accounts" "email" [.str "a"] = .ok (some found) ∧
      failed.2.findUnique "accounts" "email" [.str "a"] = .ok none ∧
      failed.2.get "accounts" (.int 1) = .ok (some found) ∧
      ((update "accounts" (.int 2) [("email", .str "a")]).run.run failed.2).1 =
        .ok [("id", .int 2), ("email", .str "a"), ("_seq", .int 2)] := by
  refine ⟨(Reached.declared.insert _ _).insert _ _, ?_, ?_, ?_, ?_, ?_⟩ <;>
  with_unfolding_all rfl

end Store

end RewardLedger
