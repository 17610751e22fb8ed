import RewardLedger.Proofs.Store.Change
import RewardLedger.Tables

/-!
# The times at which entries were made

Each row of the ledger carries the time at which its entry was made. Nothing changes that time: other
tables do not matter, an update of a row may only change whether its entry counts, and what a
transaction takes back takes rows away or gives other columns back. So if each row that is added
carries the time that was read last, the times of the rows are among the readings, in the same order
(`Store.Stamped`).
-/

namespace RewardLedger

/-! ## The times of rows -/

namespace Table

/-- The places of the rows, and the times at which they were made. -/
def stamps (t : Table) : List (Nat × Value) :=
  t.rows.map fun r => (r.seq, r.columns.get "created_at")

variable {t : Table}

/-- Taking the row of a place out takes its time out. -/
theorem stamps_discard (t : Table) (seq : Nat) :
    (t.discard seq).stamps = t.stamps.filter fun x => x.1 ≠ seq := by
  rw [stamps, stamps, rows_discard, List.filter_map]
  rfl

/-- Other columns that leave the time alone keep the times, if no other row has the place. -/
theorem stamps_setColumns (h : (t.stamps.map Prod.fst).Nodup) {row : Row} (hrow : row ∈ t.rows)
    {columns : Fields} (hc : columns.get "created_at" = row.columns.get "created_at") :
    (t.setColumns row.seq columns).stamps = t.stamps := by
  rw [stamps, stamps, setColumns, List.map_map]
  refine List.map_congr_left fun r hr => ?_
  rw [Function.comp_apply]
  split
  · rename_i hseq
    have hsame : r = row := by
      refine List.inj_on_of_nodup_map ?_ hr hrow hseq
      rwa [stamps, List.map_map] at h
    rw [hc, hsame]
  · rfl

/-- Columns that are given back without a time keep the times. -/
theorem stamps_restore (h : (t.stamps.map Prod.fst).Nodup) (seq : Nat) {previous : Fields}
    (hp : "created_at" ∉ previous.names) : (t.restore seq previous).stamps = t.stamps := by
  unfold restore
  split
  · rfl
  · rename_i row hfind
    have hrow := List.mem_of_find?_eq_some hfind
    have hseq : row.seq = seq := by simpa using List.find?_some hfind
    obtain rfl := hseq
    exact stamps_setColumns h hrow (by rw [Fields.get, Fields.find?_putAll_of_notMem _ hp]; rfl)

end Table

/-! ## The times of the entries -/

namespace Store

/-- The places of the rows of the ledger, and the times at which they were made. -/
def stamps (s : Store) : List (Nat × Value) := ((s.table? entriesTable).map Table.stamps).getD []

/-- The times of the rows of the ledger are among the readings, in the same order. -/
structure Stamped (readings : List Instant) (s : Store) : Prop where
  /-- No two rows have the same place. -/
  placed : (s.stamps.map Prod.fst).Nodup
  /-- The next place is behind all of them. -/
  fresh : ∀ x ∈ s.stamps, x.1 < s.nextSeq
  /-- The times are readings. -/
  times : (s.stamps.map Prod.snd).Sublist (readings.map .instant)
  /-- Taking changes of columns back changes no time. -/
  undo : ∀ seq previous, .updated entriesTable seq previous ∈ s.undo.getD [] →
    "created_at" ∉ previous.names

variable {s s' : Store} {name : String} {readings : List Instant}

/-- Changing a table loses times at most if it is another one or loses times at most. -/
theorem stamps_modifyTable {f : Table → Table}
    (h : name = entriesTable → ∀ t, s.table? entriesTable = some t →
      (f t).stamps.Sublist t.stamps) : (s.modifyTable name f).stamps.Sublist s.stamps := by
  rw [stamps, stamps, table?_modifyTable]
  split
  · rename_i hname
    rw [← hname]
    cases ht : s.table? entriesTable with
    | none => exact .refl _
    | some t => exact h hname.symm t ht
  · exact .refl _

/-- What is taken back is what was taken back before, or the change that is remembered. -/
theorem mem_remember {u v : Undo} (h : v ∈ (s.remember u).undo.getD []) :
    v = u ∨ v ∈ s.undo.getD [] := by
  rw [remember] at h
  cases hundo : s.undo with
  | none =>
    rw [hundo] at h
    exact absurd h List.not_mem_nil
  | some us =>
    rw [hundo] at h
    exact List.mem_cons.1 h

/-- No two rows of the ledger have the same place if no two of its times have. -/
theorem nodup_stamps (h : (s.stamps.map Prod.fst).Nodup) {t : Table}
    (ht : s.table? entriesTable = some t) : (t.stamps.map Prod.fst).Nodup := by
  rwa [stamps, ht] at h

namespace Stamped

/-- A store that has lost rows at most is stamped as well. -/
theorem of_sublist (h : s.Stamped readings) (hstamps : s'.stamps.Sublist s.stamps)
    (hnext : s.nextSeq ≤ s'.nextSeq)
    (hundo : ∀ seq previous, .updated entriesTable seq previous ∈ s'.undo.getD [] →
      "created_at" ∉ previous.names) : s'.Stamped readings where
  placed := h.placed.sublist (hstamps.map _)
  fresh x hx := (h.fresh x (hstamps.subset hx)).trans_le hnext
  times := (hstamps.map _).trans h.times
  undo := hundo

/-- Readings that are not used do not matter. -/
theorem later (h : s.Stamped readings) (more : List Instant) : s.Stamped (readings ++ more) :=
  { h with times := h.times.trans ((List.sublist_append_left _ _).map _) }

/-! ### Transactions -/

/-- Opening a transaction changes no time. -/
theorem opened (h : s.Stamped readings) : s.opened.Stamped readings :=
  h.of_sublist (.refl _) (Nat.le_refl _) fun _ _ hmem => absurd hmem List.not_mem_nil

/-- Keeping what was done in a transaction changes no time. -/
theorem committed (h : s.Stamped readings) : s.committed.Stamped readings :=
  h.of_sublist (.refl _) (Nat.le_refl _) fun _ _ hmem => absurd hmem List.not_mem_nil

/-- Taking a change back takes a row away at most. -/
theorem revert (h : s.Stamped readings) {u : Undo}
    (hu : ∀ seq previous, u = .updated entriesTable seq previous → "created_at" ∉ previous.names) :
    (s.revert u).Stamped readings := by
  cases u with
  | inserted table seq =>
    refine h.of_sublist (stamps_modifyTable fun _ t _ => ?_) (Nat.le_refl _) h.undo
    rw [Table.stamps_discard]
    exact List.filter_sublist
  | updated table seq previous =>
    refine h.of_sublist (stamps_modifyTable fun htable t ht => ?_) (Nat.le_refl _) h.undo
    rw [Table.stamps_restore (nodup_stamps h.placed ht) seq (hu seq previous (htable ▸ rfl))]

/-- Giving a transaction up takes rows away at most. -/
theorem rolledBack (h : s.Stamped readings) : s.rolledBack.Stamped readings := by
  have hall : ∀ (us : List Undo) (s : Store), s.Stamped readings →
      (∀ seq previous, .updated entriesTable seq previous ∈ us →
        "created_at" ∉ previous.names) → (us.foldl Store.revert s).Stamped readings := by
    intro us
    induction us with
    | nil => exact fun _ h _ => h
    | cons u rest ih =>
      intro s h hus
      refine ih _ (h.revert fun seq previous hu => ?_) fun seq previous hmem =>
        hus seq previous (List.mem_cons_of_mem _ hmem)
      exact hus seq previous (hu ▸ List.mem_cons_self)
  exact (hall _ _ h h.undo).of_sublist (.refl _) (Nat.le_refl _) fun _ _ hmem =>
    absurd hmem List.not_mem_nil

/-! ### Changes -/

/-- A row that is added to another table changes no time. -/
theorem insert_of_ne (h : s.Stamped readings) (hname : entriesTable ≠ name) {row : Fields}
    {result : Except Failure Fields} (hrun : (insert name row).run.run s = (result, s')) :
    s'.Stamped readings := by
  cases result with
  | error e =>
    obtain ⟨htables, hundo, hnext⟩ := of_run_insert_error hrun
    refine h.of_sublist ?_ hnext (hundo ▸ h.undo)
    rw [stamps, table?, htables]
    exact .refl _
  | ok columns =>
    obtain ⟨t, -, -, -, -, -, rfl⟩ := of_run_insert_ok hrun
    refine h.of_sublist ?_ (Nat.le_succ _) ?_
    · rw [stamps, table?_inserted, if_neg hname]
      exact .refl _
    · exact fun seq previous hmem =>
        h.undo seq previous ((mem_remember hmem).resolve_left fun heq => by cases heq)

/-- A row that is added to the ledger with the time that was read last has the last time. -/
theorem insert_entry (h : s.Stamped readings) {row : Fields} {now : Instant}
    (hnow : row.get "created_at" = .instant now) {result : Except Failure Fields}
    (hrun : (insert entriesTable row).run.run s = (result, s')) :
    s'.Stamped (readings ++ [now]) := by
  cases result with
  | error e =>
    obtain ⟨htables, hundo, hnext⟩ := of_run_insert_error hrun
    refine (h.later _).of_sublist ?_ hnext (hundo ▸ h.undo)
    rw [stamps, table?, htables]
    exact .refl _
  | ok columns =>
    obtain ⟨t, ht, -, -, -, rfl, rfl⟩ := of_run_insert_ok hrun
    have hcreated : (row.put sequenceColumn (.int s.nextSeq)).get "created_at" = .instant now := by
      rw [Fields.get_put_of_ne row _ (by decide), hnow]
    -- the new row stands behind the others, with the place and the time that come last
    have hstamps : (s.inserted entriesTable (row.get t.primaryKey)
        (row.put sequenceColumn (.int s.nextSeq))).stamps =
        s.stamps ++ [(s.nextSeq, .instant now)] := by
      rw [stamps, table?_inserted, if_pos rfl, ht, stamps, ht, Option.map_some, Option.map_some,
        Option.getD_some, Option.map_some, Option.getD_some, Table.stamps, Table.rows_append,
        List.map_append, List.map_singleton, hcreated]
      rfl
    constructor
    · rw [hstamps, List.map_append, List.map_singleton]
      refine List.nodup_append.2 ⟨h.placed, List.nodup_singleton _, fun seq hseq other hother => ?_⟩
      obtain ⟨x, hx, rfl⟩ := List.mem_map.1 hseq
      rw [List.mem_singleton.1 hother]
      exact Nat.ne_of_lt (h.fresh x hx)
    · rw [hstamps]
      intro x hx
      rcases List.mem_append.1 hx with hx | hx
      · exact Nat.lt_succ_of_lt (h.fresh x hx)
      · rw [List.mem_singleton.1 hx]
        exact Nat.lt_succ_self _
    · rw [hstamps, List.map_append, List.map_append]
      exact h.times.append (.refl _)
    · exact fun seq previous hmem =>
        h.undo seq previous ((mem_remember hmem).resolve_left fun heq => by cases heq)

/-- Other columns of a row change no time. -/
theorem update (h : s.Stamped readings) {key : Value} {changes : Fields}
    (hchanges : "created_at" ∉ changes.names) {result : Except Failure Fields}
    (hrun : (update name key changes).run.run s = (result, s')) : s'.Stamped readings := by
  cases result with
  | error e =>
    rcases rows_of_run_update_error hrun with rfl | ⟨t, t', ht, -, hrows, rfl⟩
    · exact h
    · refine h.of_sublist (stamps_modifyTable fun hname t₀ ht₀ => ?_) (Nat.le_refl _) h.undo
      obtain rfl := Option.some.inj (ht.symm.trans (hname ▸ ht₀))
      rw [Table.stamps, hrows, Table.stamps]
  | ok columns =>
    obtain ⟨t, row, ht, hrow, -, -, -, -, rfl⟩ := of_run_update_ok hrun
    have hstamps : (s.updated name t row changes).stamps = (s.modifyTable name fun _ =>
        t.rewrite row (row.columns.putAll changes)).stamps := rfl
    refine h.of_sublist (hstamps ▸ stamps_modifyTable fun hname t₀ ht₀ => ?_) (Nat.le_refl _) ?_
    · obtain rfl := Option.some.inj (ht.symm.trans (hname ▸ ht₀))
      have hsame : (row.columns.putAll changes).get "created_at" = row.columns.get "created_at" := by
        rw [Fields.get, Fields.find?_putAll_of_notMem _ hchanges, Fields.get]
      exact (Table.stamps_setColumns (nodup_stamps h.placed ht₀) hrow hsame).symm ▸ .refl _
    · intro seq previous hmem
      rcases mem_remember hmem with heq | hmem
      · have hnames : Fields.names (changes.names.map fun c => (c, row.columns.get c)) =
            changes.names := by
          rw [Fields.names, List.map_map]
          exact List.map_id _
        cases heq
        rwa [hnames]
      · exact h.undo seq previous hmem

end Stamped

end Store

end RewardLedger
