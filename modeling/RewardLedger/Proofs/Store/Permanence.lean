import RewardLedger.Proofs.Sorting
import RewardLedger.Proofs.Store.Restored
import RewardLedger.Proofs.Store.Stamps

/-!
# Rows that stay

A row that is there outside any transaction stays for good, in its place, under its primary key and
with the columns that its table does not let change. Two facts about one change carry this. A change,
made or taken back, leaves the rows before a mark alone but for columns that may change
(`Store.Keeps`), provided that the transaction which is open has added rows behind the mark only. And
it brings back no place that has been given to another row (`Store.Leads`), so that no place names two
rows in the whole course of a script. Nothing is asked of the values of keys.
-/

namespace RewardLedger

/-! ## Rows -/

/-- The two are the same row at two times: the place and the primary key are the same, and so are the
columns that may not change. -/
structure Row.Ages (mutableColumns : List String) (r r' : Row) : Prop where
  /-- The place is the same. -/
  seq_eq : r'.seq = r.seq
  /-- The primary key is the same. -/
  key_eq : r'.key = r.key
  /-- The columns that may not change are the same. -/
  find?_eq : ∀ c ∉ mutableColumns, r'.columns.find? c = r.columns.find? c

namespace Row.Ages

variable {mutableColumns : List String} {r r' r'' : Row}

/-- A row is the same row. -/
theorem refl (r : Row) : r.Ages mutableColumns r := ⟨rfl, rfl, fun _ _ => rfl⟩

/-- A row of three times is one row. -/
theorem trans (h : r.Ages mutableColumns r') (h' : r'.Ages mutableColumns r'') :
    r.Ages mutableColumns r'' :=
  ⟨h'.seq_eq.trans h.seq_eq, h'.key_eq.trans h.key_eq,
    fun c hc => (h'.find?_eq c hc).trans (h.find?_eq c hc)⟩

/-- It does not matter which of the two times is the later one. -/
theorem symm (h : r.Ages mutableColumns r') : r'.Ages mutableColumns r :=
  ⟨h.seq_eq.symm, h.key_eq.symm, fun c hc => (h.find?_eq c hc).symm⟩

/-- A row carries its place at each time if places may not change. -/
theorem get_seq (h : r.Ages mutableColumns r') (hs : sequenceColumn ∉ mutableColumns)
    (hr : r.columns.get sequenceColumn = .int r.seq) :
    r'.columns.get sequenceColumn = .int r'.seq := by
  rw [Fields.get, h.find?_eq _ hs, h.seq_eq]
  exact hr

end Row.Ages

/-- What is found under a primary key is found later, in the row that it was. -/
theorem exists_find?_of_ages {mutableColumns : List String} {rows rows' : List Row}
    (h : List.Forall₂ (Row.Ages mutableColumns) rows rows') {key : Value} {r : Row}
    (hr : rows.find? (fun r => r.key.sameKey key) = some r) :
    ∃ r', rows'.find? (fun r => r.key.sameKey key) = some r' ∧ r.Ages mutableColumns r' := by
  induction h with
  | nil => cases hr
  | cons hab _ ih =>
    rw [List.find?_cons] at hr ⊢
    rw [hab.key_eq]
    split at hr
    · cases hr
      exact ⟨_, rfl, hab⟩
    · exact ih hr

/-! ## Tables -/

namespace Table

/-- The places of the rows ascend, have been given out and cannot be changed, and each row carries its
own. -/
structure Placed (next : Nat) (t : Table) : Prop where
  /-- Places may not change. -/
  fixed : sequenceColumn ∉ t.mutableColumns
  /-- The places ascend. -/
  ascending : t.rows.Pairwise fun r r' => r.seq < r'.seq
  /-- The places have been given out. -/
  used : ∀ r ∈ t.rows, r.seq < next
  /-- A row carries its place. -/
  carried : ∀ r ∈ t.rows, r.columns.get sequenceColumn = .int r.seq

/-- The rows whose places are before the mark. -/
def before (mark : Nat) (t : Table) : List Row := t.rows.filter fun r => decide (r.seq < mark)

/-- The table is declared as before, and the rows before the mark are the same rows. -/
structure Keeps (mark : Nat) (t t' : Table) : Prop where
  /-- The declaration is the same. -/
  schema_eq : t'.schema = t.schema
  /-- The rows before the mark are the same rows. -/
  rows : List.Forall₂ (Row.Ages t.mutableColumns) (t.before mark) (t'.before mark)

variable {mark next : Nat} {t t' t'' : Table}

/-- Tables that are declared the same let the same columns change. -/
theorem mutableColumns_of_schema (h : t'.schema = t.schema) :
    t'.mutableColumns = t.mutableColumns :=
  congrArg Schema.mutableColumns h

/-- A table keeps its rows. -/
theorem Keeps.refl (t : Table) : t.Keeps mark t :=
  ⟨rfl, List.forall₂_same.2 fun r _ => .refl r⟩

/-- Keeping rows passes on. -/
theorem Keeps.trans (h : t.Keeps mark t') (h' : t'.Keeps mark t'') : t.Keeps mark t'' := by
  refine ⟨h'.schema_eq.trans h.schema_eq, ?_⟩
  have hrows := h.rows
  have hrows' := h'.rows
  rw [mutableColumns_of_schema h.schema_eq] at hrows'
  generalize t.before mark = rows, t'.before mark = rows', t''.before mark = rows'' at hrows hrows' ⊢
  induction hrows generalizing rows'' with
  | nil =>
    cases hrows'
    exact .nil
  | cons hab _ ih =>
    cases hrows' with
    | cons hbc hrest => exact .cons (hab.trans hbc) (ih _ hrest)

/-- A table whose rows are the same rows keeps them. -/
theorem Keeps.of_ages (hs : t'.schema = t.schema)
    (h : List.Forall₂ (Row.Ages t.mutableColumns) t.rows t'.rows) : t.Keeps mark t' :=
  ⟨hs, List.rel_filter (fun r r' hr => by simp only [hr.seq_eq]) h⟩

/-- A row that is added behind the mark leaves those before it. -/
theorem Keeps.append (t : Table) {row : Row} (h : mark ≤ row.seq) : t.Keeps mark (t.append row) := by
  refine ⟨schema_append t row, ?_⟩
  have hnone : (decide (row.seq < mark)) = false := by simpa using h
  rw [before, before, rows_append, List.filter_append, List.filter_cons, hnone]
  simp only [Bool.false_eq_true, if_false, List.filter_nil, List.append_nil]
  exact List.forall₂_same.2 fun r _ => .refl r

/-- Taking out a row behind the mark leaves those before it. -/
theorem Keeps.discard (t : Table) {seq : Nat} (h : mark ≤ seq) : t.Keeps mark (t.discard seq) := by
  refine ⟨schema_discard t seq, ?_⟩
  have hsame : (t.discard seq).before mark = t.before mark := by
    rw [before, before, rows_discard, List.filter_filter]
    refine List.filter_congr fun r _ => ?_
    have hne : r.seq < mark → r.seq ≠ seq := by omega
    simpa using hne
  rw [hsame]
  exact List.forall₂_same.2 fun r _ => .refl r

/-- Two rows with one place are the same row. -/
theorem Placed.eq_of_seq (h : t.Placed next) {r r' : Row} (hr : r ∈ t.rows) (hr' : r' ∈ t.rows)
    (hs : r.seq = r'.seq) : r = r' := by
  have hp : ∀ x ∈ t.rows, ∀ y ∈ t.rows, x.seq = y.seq → x = y :=
    List.Pairwise.forall_of_forall_of_flip (fun _ _ _ => rfl)
      (h.ascending.imp fun hlt he => absurd he (Nat.ne_of_lt hlt))
      (h.ascending.imp fun hlt he => absurd he.symm (Nat.ne_of_lt hlt))
  exact hp r hr r' hr' hs

/-- Other columns of a row that differ in changeable ones only leave all rows the same rows. -/
theorem Placed.ages_setColumns (h : t.Placed next) {row : Row} (hr : row ∈ t.rows)
    {columns : Fields}
    (hc : ∀ c ∉ t.mutableColumns, columns.find? c = row.columns.find? c) :
    List.Forall₂ (Row.Ages t.mutableColumns) t.rows (t.setColumns row.seq columns).rows := by
  rw [setColumns, List.forall₂_map_right_iff]
  refine List.forall₂_same.2 fun r hmem => ?_
  by_cases hs : r.seq = row.seq
  · obtain rfl := h.eq_of_seq hmem hr hs
    rw [if_pos rfl]
    exact ⟨rfl, rfl, hc⟩
  · rw [if_neg hs]
    exact .refl r

/-- Giving changeable columns back leaves all rows the same rows. -/
theorem Placed.ages_restore (h : t.Placed next) (seq : Nat) {previous : Fields}
    (hp : ∀ c ∈ previous.names, c ∈ t.mutableColumns) :
    List.Forall₂ (Row.Ages t.mutableColumns) t.rows (t.restore seq previous).rows := by
  unfold restore
  split
  · exact List.forall₂_same.2 fun r _ => .refl r
  · rename_i row hfind
    have hseq : row.seq = seq := by simpa using List.find?_some hfind
    obtain rfl := hseq
    exact h.ages_setColumns (List.mem_of_find?_eq_some hfind) fun c hc =>
      Fields.find?_putAll_of_notMem _ fun hmem => hc (hp c hmem)

/-- Changing changeable columns of a row leaves all rows the same rows. -/
theorem Placed.ages_rewrite (h : t.Placed next) {row : Row} (hr : row ∈ t.rows) {changes : Fields}
    (hc : ∀ c ∈ changes.names, c ∈ t.mutableColumns) :
    List.Forall₂ (Row.Ages t.mutableColumns) t.rows
      (t.rewrite row (row.columns.putAll changes)).rows :=
  h.ages_setColumns hr fun c hnot => Fields.find?_putAll_of_notMem _ fun hmem => hnot (hc c hmem)

/-- The same rows keep their places. -/
theorem Placed.of_ages (h : t.Placed next) (hs : t'.schema = t.schema)
    (ha : List.Forall₂ (Row.Ages t.mutableColumns) t.rows t'.rows) : t'.Placed next := by
  have hmutable := mutableColumns_of_schema hs
  have hfrom : ∀ r' ∈ t'.rows, ∃ r ∈ t.rows, r.Ages t.mutableColumns r' := fun r' hr' =>
    exists_mem_of_forall₂ ha.flip hr'
  refine ⟨hmutable ▸ h.fixed, ?_, fun r' hr' => ?_, fun r' hr' => ?_⟩
  · have hseqs : t'.rows.map Row.seq = t.rows.map Row.seq := by
      refine (List.forall₂_eq_eq_eq ▸ ?_ : t'.rows.map Row.seq = t.rows.map Row.seq)
      rw [List.forall₂_map_left_iff, List.forall₂_map_right_iff]
      exact ha.flip.imp fun _ _ hab => hab.seq_eq
    rw [← List.pairwise_map, hseqs, List.pairwise_map]
    exact h.ascending
  · obtain ⟨r, hr, hrr⟩ := hfrom r' hr'
    exact hrr.seq_eq ▸ h.used r hr
  · obtain ⟨r, hr, hrr⟩ := hfrom r' hr'
    exact hrr.get_seq h.fixed (h.carried r hr)

/-- A row with the next place comes behind the others. -/
theorem Placed.append (h : t.Placed next) {row : Row} (hs : row.seq = next)
    (hc : row.columns.get sequenceColumn = .int row.seq) : (t.append row).Placed (next + 1) := by
  refine ⟨h.fixed, ?_, ?_, ?_⟩
  · rw [rows_append, List.pairwise_append]
    refine ⟨h.ascending, List.pairwise_singleton _ _, fun r hr r' hr' => ?_⟩
    rw [List.mem_singleton.1 hr', hs]
    exact h.used r hr
  · rw [rows_append, List.forall_mem_append]
    exact ⟨fun r hr => Nat.lt_succ_of_lt (h.used r hr),
      List.forall_mem_singleton.2 (hs ▸ Nat.lt_succ_self _)⟩
  · rw [rows_append, List.forall_mem_append]
    exact ⟨h.carried, List.forall_mem_singleton.2 hc⟩

/-- The rows that remain when one goes keep their places. -/
theorem Placed.discard (h : t.Placed next) (seq : Nat) : (t.discard seq).Placed next := by
  have hsub : (t.discard seq).rows.Sublist t.rows := by
    rw [rows_discard]
    exact List.filter_sublist
  exact ⟨mutableColumns_of_schema (schema_discard t seq) ▸ h.fixed, h.ascending.sublist hsub,
    fun r hr => h.used r (hsub.subset hr), fun r hr => h.carried r (hsub.subset hr)⟩

/-- More places may have been given out. -/
theorem Placed.mono (h : t.Placed next) {later : Nat} (hn : next ≤ later) : t.Placed later :=
  { h with used := fun r hr => (h.used r hr).trans_le hn }

end Table

/-! ## Stores -/

/-- Taking the change back takes a row out behind the mark only, and gives back only columns that may
change. -/
def Undo.Spares (tables : List (String × Schema)) (mark : Nat) : Undo → Prop
  | .inserted _ seq => mark ≤ seq
  | .updated name _ previous => ∀ σ, Store.schema? tables name = some σ →
      ∀ c ∈ previous.names, c ∈ σ.mutableColumns

namespace Store

/-- The tables are the declared ones, every place is that of one row, and taking back what an open
transaction has done spares the rows before the mark. -/
structure Placed (tables : List (String × Schema)) (mark : Nat) (s : Store) : Prop where
  /-- The tables are the declared ones. -/
  isDeclared : s.IsDeclared tables
  /-- The places before the mark have been given out. -/
  mark_le : mark ≤ s.nextSeq
  /-- In each table the places ascend and are carried by the rows. -/
  table : ∀ name t, s.table? name = some t → t.Placed s.nextSeq
  /-- Rows of different tables have different places. -/
  apart : ∀ name t name' t', s.table? name = some t → s.table? name' = some t' →
    ∀ r ∈ t.rows, ∀ r' ∈ t'.rows, r.seq = r'.seq → name = name'
  /-- What may be taken back spares the rows before the mark. -/
  undo : ∀ u ∈ s.undo.getD [], u.Spares tables mark

/-- Every table keeps its rows before the mark. -/
def Keeps (mark : Nat) (s s' : Store) : Prop :=
  ∀ name, Option.Rel (Table.Keeps mark) (s.table? name) (s'.table? name)

/-- A row of the second store whose place had been given out in the first one is a row of that one, in
the same table. -/
structure Leads (s s' : Store) : Prop where
  /-- No place has been given back. -/
  next_le : s.nextSeq ≤ s'.nextSeq
  /-- A row whose place had been given out is not new. -/
  exists_row : ∀ name t', s'.table? name = some t' → ∃ t, s.table? name = some t ∧
    t'.schema = t.schema ∧
      ∀ r' ∈ t'.rows, r'.seq < s.nextSeq → ∃ r ∈ t.rows, r.Ages t.mutableColumns r'

variable {tables : List (String × Schema)} {mark : Nat} {s s' s'' : Store} {name : String}

/-! ### Keeping rows -/

/-- A store with the same tables keeps all rows. -/
theorem Keeps.of_tables_eq (h : s'.tables = s.tables) : s.Keeps mark s' := by
  intro name
  have htable : s'.table? name = s.table? name := by rw [table?, table?, h]
  rw [htable]
  cases s.table? name with
  | none => exact .none
  | some t => exact .some (.refl t)

/-- Keeping rows passes on. -/
theorem Keeps.trans (h : s.Keeps mark s') (h' : s'.Keeps mark s'') : s.Keeps mark s'' := by
  intro name
  have hn := h name
  have hn' := h' name
  generalize s.table? name = t, s'.table? name = t', s''.table? name = t'' at hn hn' ⊢
  cases hn with
  | none => exact hn'
  | some hab =>
    cases hn' with
    | some hbc => exact .some (hab.trans hbc)

/-- A store keeps rows if the one table that is changed does. -/
theorem Keeps.of_table? {f : Table → Table}
    (htable : ∀ other, s'.table? other =
      if other = name then (s.table? name).map f else s.table? other)
    (hf : ∀ t, s.table? name = some t → t.Keeps mark (f t)) : s.Keeps mark s' := by
  intro other
  rw [htable]
  split
  · rename_i hother
    rw [hother]
    cases ht : s.table? name with
    | none => exact .none
    | some t => exact .some (hf t ht)
  · exact Keeps.of_tables_eq rfl other

/-- If the rows whose places have been given out are kept, no other row has such a place. -/
theorem Keeps.leads (h : s.Keeps s.nextSeq s') (hn : s.nextSeq ≤ s'.nextSeq) : s.Leads s' := by
  refine ⟨hn, fun name t' ht' => ?_⟩
  have hname := h name
  rw [ht'] at hname
  generalize s.table? name = old at hname ⊢
  cases hname with
  | some hkeeps =>
    refine ⟨_, rfl, hkeeps.schema_eq, fun r' hr' hlt => ?_⟩
    have hmem : r' ∈ t'.before s.nextSeq := List.mem_filter.2 ⟨hr', by simpa using hlt⟩
    obtain ⟨r, hr, hrr⟩ := exists_mem_of_forall₂ hkeeps.rows.flip hmem
    exact ⟨r, (List.mem_filter.1 hr).1, hrr⟩

/-- Leading passes on. -/
theorem Leads.trans (h : s.Leads s') (h' : s'.Leads s'') : s.Leads s'' := by
  refine ⟨h.next_le.trans h'.next_le, fun name t'' ht'' => ?_⟩
  obtain ⟨t', ht', hs', hrows'⟩ := h'.exists_row name t'' ht''
  obtain ⟨t, ht, hs, hrows⟩ := h.exists_row name t' ht'
  refine ⟨t, ht, hs'.trans hs, fun r'' hr'' hlt => ?_⟩
  obtain ⟨r', hr', hrr'⟩ := hrows' r'' hr'' (hlt.trans_le h.next_le)
  obtain ⟨r, hr, hrr⟩ := hrows r' hr' (hrr'.seq_eq ▸ hlt)
  rw [Table.mutableColumns_of_schema hs] at hrr'
  exact ⟨r, hr, hrr.trans hrr'⟩

/-! ### Places -/

/-- A table of a store is declared. -/
theorem Placed.schema?_eq (h : s.Placed tables mark) {t : Table} (ht : s.table? name = some t) :
    schema? tables name = some t.schema := by
  rw [← h.isDeclared name, ht]
  rfl

/-- A store keeps its places if one table is changed, in which rows keep their places or get new
ones. -/
theorem Placed.of_table? (h : s.Placed tables mark) {f : Table → Table}
    (htable : ∀ other, s'.table? other =
      if other = name then (s.table? name).map f else s.table? other)
    (hn : s.nextSeq ≤ s'.nextSeq) (hu : ∀ u ∈ s'.undo.getD [], u.Spares tables mark)
    (hf : ∀ t, s.table? name = some t → (f t).schema = t.schema ∧ (f t).Placed s'.nextSeq ∧
      ∀ r' ∈ (f t).rows, (∃ r ∈ t.rows, r.seq = r'.seq) ∨ s.nextSeq ≤ r'.seq) :
    s'.Placed tables mark := by
  -- each row of a table afterwards has the place of a row of that table before, or a new one
  have hcases : ∀ other t', s'.table? other = some t' → ∃ t, s.table? other = some t ∧
      t'.schema = t.schema ∧ t'.Placed s'.nextSeq ∧
        ∀ r' ∈ t'.rows, (∃ r ∈ t.rows, r.seq = r'.seq) ∨ (s.nextSeq ≤ r'.seq ∧ other = name) := by
    intro other t' ht'
    rw [htable] at ht'
    split at ht'
    · rename_i hother
      obtain ⟨t, ht, rfl⟩ := Option.map_eq_some_iff.1 ht'
      obtain ⟨hschema, hplaced, hrows⟩ := hf t ht
      exact ⟨t, hother ▸ ht, hschema, hplaced, fun r' hr' => (hrows r' hr').imp_right
        fun hlt => ⟨hlt, hother⟩⟩
    · exact ⟨t', ht', rfl, (h.table other t' ht').mono hn, fun r' hr' => .inl ⟨r', hr', rfl⟩⟩
  refine ⟨fun other => ?_, h.mark_le.trans hn, fun other t' ht' => ?_, ?_, hu⟩
  · rw [← h.isDeclared other, htable]
    split
    · rename_i hother
      rw [hother]
      cases ht : s.table? name with
      | none => rfl
      | some t => exact congrArg some (hf t ht).1
    · rfl
  · obtain ⟨-, -, -, hplaced, -⟩ := hcases other t' ht'
    exact hplaced
  · intro one t₁ two t₂ ht₁ ht₂ r₁ hr₁ r₂ hr₂ heq
    obtain ⟨t, ht, -, -, hrows⟩ := hcases one t₁ ht₁
    obtain ⟨u, hu, -, -, hrows'⟩ := hcases two t₂ ht₂
    rcases hrows r₁ hr₁ with ⟨r, hr, hs⟩ | ⟨hlt, hone⟩
    · rcases hrows' r₂ hr₂ with ⟨r', hr', hs'⟩ | ⟨hlt, -⟩
      · exact h.apart one t two u ht hu r hr r' hr' (by rw [hs, hs', heq])
      · have hused := (h.table one t ht).used r hr
        omega
    · rcases hrows' r₂ hr₂ with ⟨r', hr', hs'⟩ | ⟨-, htwo⟩
      · have hused := (h.table two u hu).used r' hr'
        omega
      · rw [hone, htwo]

/-- A store with the same tables keeps its places. -/
theorem Placed.of_tables_eq (h : s.Placed tables mark) (ht : s'.tables = s.tables)
    (hn : s.nextSeq ≤ s'.nextSeq) (hu : ∀ u ∈ s'.undo.getD [], u.Spares tables mark) :
    s'.Placed tables mark := by
  have htable : ∀ other, s'.table? other = s.table? other := fun other => by
    rw [table?, table?, ht]
  refine ⟨fun other => ?_, h.mark_le.trans hn, fun other t ht => ?_, ?_, hu⟩
  · rw [htable]
    exact h.isDeclared other
  · exact (h.table other t (htable other ▸ ht)).mono hn
  · intro one t₁ two t₂ ht₁ ht₂
    exact h.apart one t₁ two t₂ (htable one ▸ ht₁) (htable two ▸ ht₂)

/-! ### Changes -/

/-- Adding a row keeps the rows and places that there are. -/
theorem Placed.inserted (h : s.Placed tables mark) (name : String) (key : Value)
    {columns : Fields} (hc : columns.get sequenceColumn = .int s.nextSeq) :
    (s.inserted name key columns).Placed tables mark ∧
      ∀ before ≤ s.nextSeq, s.Keeps before (s.inserted name key columns) := by
  have htable := table?_inserted s name key columns
  refine ⟨h.of_table? htable (Nat.le_succ _) (fun u hu => ?_) fun t₀ ht₀ => ?_,
    fun before hbefore => .of_table? htable fun t₀ _ => .append t₀ hbefore⟩
  · rcases mem_remember hu with rfl | hu
    · exact h.mark_le
    · exact h.undo u hu
  · refine ⟨t₀.schema_append _, (h.table name t₀ ht₀).append rfl hc, ?_⟩
    rw [Table.rows_append, List.forall_mem_append]
    exact ⟨fun r hr => .inl ⟨r, hr, rfl⟩, List.forall_mem_singleton.2 (.inr (Nat.le_refl _))⟩

/-- A table with the same rows in place of a table keeps the rows and places that there are. -/
theorem Placed.replaced (h : s.Placed tables mark) {t t' : Table} (ht : s.table? name = some t)
    (hschema : t'.schema = t.schema)
    (hages : List.Forall₂ (Row.Ages t.mutableColumns) t.rows t'.rows)
    (htable : ∀ other, s'.table? other =
      if other = name then (s.table? name).map fun _ => t' else s.table? other)
    (hn : s.nextSeq ≤ s'.nextSeq) (hu : ∀ u ∈ s'.undo.getD [], u.Spares tables mark) :
    s'.Placed tables mark ∧ ∀ before, s.Keeps before s' := by
  refine ⟨h.of_table? htable hn hu fun t₀ ht₀ => ?_, fun before => .of_table? htable fun t₀ ht₀ => ?_⟩
  · obtain rfl := Option.some.inj (ht.symm.trans ht₀)
    refine ⟨hschema, ((h.table name t ht).of_ages hschema hages).mono hn, fun r' hr' => .inl ?_⟩
    obtain ⟨r, hr, hrr⟩ := exists_mem_of_forall₂ hages.flip hr'
    exact ⟨r, hr, hrr.seq_eq.symm⟩
  · obtain rfl := Option.some.inj (ht.symm.trans ht₀)
    exact .of_ages hschema hages

/-- Changing columns of a row keeps the rows and places that there are. -/
theorem Placed.updated (h : s.Placed tables mark) {t : Table} (ht : s.table? name = some t)
    {row : Row} (hr : row ∈ t.rows) {changes : Fields}
    (hc : ∀ c ∈ changes.names, c ∈ t.mutableColumns) :
    (s.updated name t row changes).Placed tables mark ∧
      ∀ before, s.Keeps before (s.updated name t row changes) := by
  refine h.replaced ht (t.schema_rewrite row (row.columns.putAll changes))
    ((h.table name t ht).ages_rewrite hr hc) (fun other => ?_) (Nat.le_refl _) fun u hu => ?_
  · rw [table?_updated ht, ht]
    rfl
  rcases mem_remember hu with rfl | hu
  · intro σ hσ c hmem
    obtain rfl := Option.some.inj ((h.schema?_eq ht).symm.trans hσ)
    rw [Fields.names, List.map_map] at hmem
    obtain ⟨c', hc', rfl⟩ := List.mem_map.1 hmem
    exact hc c' hc'
  · exact h.undo u hu

/-- Taking a change back keeps the places that there are and the rows that are to be spared, and gives
no place to another row. -/
theorem Placed.revert (h : s.Placed tables mark) {u : Undo} (hu : u.Spares tables mark) :
    (s.revert u).Placed tables mark ∧ s.Keeps mark (s.revert u) ∧ s.Leads (s.revert u) := by
  cases u with
  | inserted name seq =>
    -- taking a row out leaves the others, and only a row before the mark would be missed
    have htable := s.table?_modifyTable name (·.discard seq)
    have hsub : ∀ t : Table, ∀ r ∈ (t.discard seq).rows, r ∈ t.rows := fun t r hr => by
      rw [Table.rows_discard] at hr
      exact (List.mem_filter.1 hr).1
    refine ⟨h.of_table? htable (Nat.le_refl _) h.undo fun t ht => ?_,
      .of_table? htable fun t _ => .discard t hu, Nat.le_refl _, fun other t' ht' => ?_⟩
    · exact ⟨t.schema_discard seq, (h.table name t ht).discard seq,
        fun r hr => .inl ⟨r, hsub t r hr, rfl⟩⟩
    · rw [Store.revert, htable] at ht'
      split at ht'
      · rename_i hother
        obtain ⟨t, ht, rfl⟩ := Option.map_eq_some_iff.1 ht'
        exact ⟨t, hother ▸ ht, t.schema_discard seq, fun r hr _ => ⟨r, hsub t r hr, .refl r⟩⟩
      · exact ⟨t', ht', rfl, fun r hr _ => ⟨r, hr, .refl r⟩⟩
  | updated name seq previous =>
    have htable := s.table?_modifyTable name (·.restore seq previous)
    -- giving old columns back changes no place
    have hages : ∀ t, s.table? name = some t →
        List.Forall₂ (Row.Ages t.mutableColumns) t.rows (t.restore seq previous).rows :=
      fun t ht => (h.table name t ht).ages_restore seq (hu _ (h.schema?_eq ht))
    have hkeeps : ∀ before, s.Keeps before (s.revert (.updated name seq previous)) := fun before =>
      .of_table? htable fun t ht => .of_ages (t.schema_restore seq previous) (hages t ht)
    refine ⟨h.of_table? htable (Nat.le_refl _) h.undo fun t ht => ?_, hkeeps mark,
      (hkeeps s.nextSeq).leads (Nat.le_refl _)⟩
    have hschema := t.schema_restore seq previous
    refine ⟨hschema, (h.table name t ht).of_ages hschema (hages t ht), fun r' hr' => .inl ?_⟩
    obtain ⟨r, hr, hrr⟩ := exists_mem_of_forall₂ (hages t ht).flip hr'
    exact ⟨r, hr, hrr.seq_eq.symm⟩

/-- Giving a transaction up keeps the places that there are and the rows that are to be spared, and
gives no place to another row. -/
theorem Placed.rolledBack (h : s.Placed tables mark) :
    s.rolledBack.Placed tables mark ∧ s.Keeps mark s.rolledBack ∧ s.Leads s.rolledBack := by
  have hall : ∀ (us : List Undo) (s : Store), s.Placed tables mark →
      (∀ u ∈ us, u.Spares tables mark) → (us.foldl Store.revert s).Placed tables mark ∧
        s.Keeps mark (us.foldl Store.revert s) ∧ s.Leads (us.foldl Store.revert s) := by
    intro us
    induction us with
    | nil =>
      exact fun s h _ => ⟨h, .of_tables_eq rfl, (Keeps.of_tables_eq rfl).leads (Nat.le_refl _)⟩
    | cons u rest ih =>
      intro s h hus
      obtain ⟨hplaced, hkeeps, hleads⟩ := h.revert (hus u List.mem_cons_self)
      obtain ⟨hplaced', hkeeps', hleads'⟩ := ih _ hplaced fun v hv =>
        hus v (List.mem_cons_of_mem _ hv)
      exact ⟨hplaced', hkeeps.trans hkeeps', hleads.trans hleads'⟩
  obtain ⟨hplaced, hkeeps, hleads⟩ := hall _ s h h.undo
  have hclosed : ((s.undo.getD []).foldl Store.revert s).Keeps mark s.rolledBack :=
    .of_tables_eq rfl
  have hclosed' : ((s.undo.getD []).foldl Store.revert s).Leads s.rolledBack :=
    Keeps.leads (Keeps.of_tables_eq rfl) (Nat.le_refl _)
  exact ⟨hplaced.of_tables_eq rfl (Nat.le_refl _) fun u hu => absurd hu List.not_mem_nil,
    hkeeps.trans hclosed, hleads.trans hclosed'⟩

end Store

/-! ## Calls -/

namespace StoreCall

variable {tables : List (String × Schema)} {mark : Nat} {s : Store}

/-- A call keeps the rows and places that there are. -/
theorem placed_after (h : s.Placed tables mark) (call : StoreCall) :
    (call.after s).Placed tables mark ∧
      ∀ before ≤ s.nextSeq, s.Keeps before (call.after s) := by
  cases call with
  | insert table row =>
    cases row with
    | object row =>
      cases hrun : (Store.insert table row).run.run s with
      | mk result s' =>
        rw [after, hrun]
        cases result with
        | error e =>
          obtain ⟨htables, hundo, hnext⟩ := Store.of_run_insert_error hrun
          exact ⟨h.of_tables_eq htables hnext (hundo ▸ h.undo), fun _ _ => .of_tables_eq htables⟩
        | ok columns =>
          obtain ⟨t, -, -, -, -, rfl, rfl⟩ := Store.of_run_insert_ok hrun
          exact h.inserted table _ (Fields.get_put_self row _ _)
    | _ => exact ⟨h, fun _ _ => .of_tables_eq rfl⟩
  | update table key changes =>
    cases hrun : (Store.update table key changes).run.run s with
    | mk result s' =>
      rw [after, hrun]
      cases result with
      | error e =>
        -- the rows are those before, but the one that was refused has been entered again
        rcases Store.rows_of_run_update_error hrun with rfl | ⟨t, t', ht, hschema, hrows, rfl⟩
        · exact ⟨h, fun _ _ => .of_tables_eq rfl⟩
        · obtain ⟨hplaced, hkeeps⟩ := h.replaced ht hschema
            (hrows ▸ List.forall₂_same.2 fun r _ => .refl r) (s.table?_modifyTable table _)
            (Nat.le_refl _) h.undo
          exact ⟨hplaced, fun before _ => hkeeps before⟩
      | ok columns =>
        obtain ⟨t, row, ht, hr, -, hc, -, -, rfl⟩ := Store.of_run_update_ok hrun
        obtain ⟨hplaced, hkeeps⟩ := h.updated ht hr hc
        exact ⟨hplaced, fun before _ => hkeeps before⟩
  | _ => exact ⟨h, fun _ _ => .of_tables_eq rfl⟩

/-- A call leads on. -/
theorem leads_after (h : s.Placed tables mark) (call : StoreCall) : s.Leads (call.after s) :=
  ((placed_after h call).2 _ (Nat.le_refl _)).leads (frame_after s call).2

end StoreCall

/-! ## Scripts -/

/-- On the way from one world through others to the last one the places that there are and the rows
before the mark are kept, and no place is given to another row. -/
structure Store.Course (tables : List (String × Schema)) (mark : Nat) (w : World)
    (worlds : List World) (done : World) : Prop where
  /-- The last world has its places. -/
  placed : done.store.Placed tables mark
  /-- The last world has the rows before the mark. -/
  keeps : w.store.Keeps mark done.store
  /-- The first world leads to the last one. -/
  leads : w.store.Leads done.store
  /-- The first world leads to the others, which have their places and lead to the last one. -/
  between : ∀ w' ∈ worlds, w'.store.Placed tables mark ∧ w.store.Leads w'.store ∧
    w'.store.Leads done.store
  /-- Each of the others leads to those that come after it. -/
  pairwise : worlds.Pairwise fun a b => a.store.Leads b.store

namespace Store

variable {tables : List (String × Schema)} {mark : Nat} {w mid done : World}

/-- A store in which nothing has been done yet has no places. -/
theorem Placed.declared (h : ∀ d ∈ tables, sequenceColumn ∉ d.2.mutableColumns) :
    (declared tables).Placed tables 0 := by
  have hempty : ∀ name t, (Store.declared tables).table? name = some t →
      (name, t.schema) ∈ tables ∧ t.rows = [] := by
    intro name t ht
    refine ⟨(isDeclared_declared tables).mem ht, ?_⟩
    rw [table?_declared] at ht
    obtain ⟨σ, -, rfl⟩ := Option.map_eq_some_iff.1 ht
    rfl
  refine ⟨isDeclared_declared tables, Nat.zero_le _, fun name t ht => ?_, ?_, ?_⟩
  · obtain ⟨hmem, hrows⟩ := hempty name t ht
    exact ⟨h _ hmem, by simp [hrows], by simp [hrows], by simp [hrows]⟩
  · intro name t name' t' ht _ r hr
    rw [(hempty name t ht).2] at hr
    cases hr
  · exact fun u hu => absurd hu List.not_mem_nil

/-- While no transaction is open, all places that have been given out are before the mark. -/
theorem Placed.marked (h : w.store.Placed tables mark) (hu : w.store.undo = none) :
    w.store.Placed tables w.store.nextSeq :=
  { h with
    mark_le := Nat.le_refl _
    undo := fun u hmem => by
      rw [hu] at hmem
      exact absurd hmem List.not_mem_nil }

/-- A store leads to itself. -/
theorem Leads.refl (s : Store) : s.Leads s := Keeps.leads (.of_tables_eq rfl) (Nat.le_refl _)

/-- A store leads to one with the same tables in which no place has been given back. -/
theorem Leads.of_tables_eq {s s' : Store} (h : s'.tables = s.tables) (hn : s.nextSeq ≤ s'.nextSeq) :
    s.Leads s' :=
  Keeps.leads (.of_tables_eq h) hn

/-- No world lies between a world and itself. -/
theorem Course.nil (h : w.store.Placed tables mark) : Course tables mark w [] w :=
  ⟨h, .of_tables_eq rfl, .refl _, by simp, .nil⟩

/-- A step ends in its last world. -/
theorem Course.single (h : done.store.Placed tables mark) (hk : w.store.Keeps mark done.store)
    (hl : w.store.Leads done.store) : Course tables mark w [done] done :=
  ⟨h, hk, hl, List.forall_mem_singleton.2 ⟨h, hl, .refl _⟩, List.pairwise_singleton _ _⟩

/-- One way goes on where another one ends. -/
theorem Course.trans {worlds worlds' : List World} (h : Course tables mark w worlds mid)
    (h' : Course tables mark mid worlds' done) :
    Course tables mark w (worlds ++ worlds') done := by
  refine ⟨h'.placed, h.keeps.trans h'.keeps, h.leads.trans h'.leads, ?_, ?_⟩
  · rw [List.forall_mem_append]
    refine ⟨fun w' hw' => ?_, fun w' hw' => ?_⟩
    · obtain ⟨hplaced, hfrom, hto⟩ := h.between w' hw'
      exact ⟨hplaced, hfrom, hto.trans h'.leads⟩
    · obtain ⟨hplaced, hfrom, hto⟩ := h'.between w' hw'
      exact ⟨hplaced, h.leads.trans hfrom, hto⟩
  · rw [List.pairwise_append]
    exact ⟨h.pairwise, h'.pairwise, fun a ha b hb =>
      (h.between a ha).2.2.trans (h'.between b hb).2.1⟩

/-- Opening a transaction keeps everything. -/
theorem Course.enter (h : w.store.Placed tables mark) : Course tables mark w [] w.enter := by
  rw [World.enter]
  split
  · exact .nil h
  · exact ⟨h.of_tables_eq rfl (Nat.le_refl _) fun u hu => absurd hu List.not_mem_nil,
      .of_tables_eq rfl, .of_tables_eq rfl (Nat.le_refl _), by simp, .nil⟩

/-- Closing a transaction keeps the rows before the mark and gives no place to another row. -/
theorem Course.leave (outer : World) (h : w.store.Placed tables mark) (keep : Bool) :
    Course tables mark w [World.leave outer w keep] (World.leave outer w keep) := by
  rw [World.leave]
  split
  · exact .single h (.of_tables_eq rfl) (.refl _)
  · cases keep with
    | true =>
      exact .single (h.of_tables_eq rfl (Nat.le_refl _) fun u hu => absurd hu List.not_mem_nil)
        (.of_tables_eq rfl) (.of_tables_eq rfl (Nat.le_refl _))
    | false =>
      obtain ⟨hplaced, hkeeps, hleads⟩ := h.rolledBack
      exact .single hplaced hkeeps hleads

end Store

namespace Step

variable {tables : List (String × Schema)} {mark : Nat}

mutual

/-- A step keeps the rows before the mark and gives no place to another row. -/
theorem course_of_worlds : ∀ (step : Step StoreCall) {w : World}, w.store.Placed tables mark →
    Store.Course tables mark w (step.worlds StoreCall.perform w)
      (step.run StoreCall.perform w).2
  | .call action caught, w, h => by
    obtain ⟨hplaced, hkeeps⟩ := StoreCall.placed_after h action
    rw [worlds, Step.run, action.perform_snd]
    exact .single hplaced (hkeeps mark h.mark_le) (StoreCall.leads_after h action)
  | .transaction steps abandon caught, w, h => by
    have hopen := Store.Course.enter h
    have hbody := course_of_worldsOf steps hopen.placed
    rw [worlds, Step.run]
    exact hopen.trans (hbody.trans (.leave w hbody.placed _))

/-- The steps of a body keep the rows before the mark and give no place to another row. -/
theorem course_of_worldsOf : ∀ (steps : List (Step StoreCall)) {w : World},
    w.store.Placed tables mark →
      Store.Course tables mark w (worldsOf StoreCall.perform steps w)
        (runBody StoreCall.perform steps w).2.2
  | [], w, h => .single h (.of_tables_eq rfl) (.refl _)
  | step :: rest, w, h => by
    have hhere : Store.Course tables mark w [w] w := .single h (.of_tables_eq rfl) (.refl _)
    have hfirst := hhere.trans (course_of_worlds step h)
    rw [worldsOf, runBody]
    generalize step.run StoreCall.perform w = run at hfirst ⊢
    obtain ⟨report, w'⟩ := run
    dsimp only at hfirst ⊢
    cases report.failure? with
    | none => exact hfirst.trans (course_of_worldsOf rest hfirst.placed)
    | some e =>
      cases step.isCaught with
      | false => exact hfirst.trans (.nil hfirst.placed)
      | true => exact hfirst.trans (course_of_worldsOf rest hfirst.placed)

end

/-- A script keeps the rows before the mark and gives no place to another row. -/
theorem course_of_worldsOfAll (steps : List (Step StoreCall)) {w : World}
    (h : w.store.Placed tables mark) :
    Store.Course tables mark w (worldsOfAll StoreCall.perform steps w)
      (runAll StoreCall.perform steps w).2 := by
  induction steps generalizing w with
  | nil => exact .single h (.of_tables_eq rfl) (.refl _)
  | cons step rest ih =>
    have hhere : Store.Course tables mark w [w] w := .single h (.of_tables_eq rfl) (.refl _)
    have hfirst := hhere.trans (course_of_worlds step h)
    exact hfirst.trans (ih hfirst.placed)

/-- A step neither leaves a transaction open nor closes the one around it. -/
theorem inTransaction_run (step : Step StoreCall) (w : World) :
    (step.run StoreCall.perform w).2.store.inTransaction = w.store.inTransaction := by
  cases hopen : w.store.inTransaction with
  | true =>
    rw [run_of_inTransaction step hopen]
    exact (StoreCall.frame_afterAll _ _).1.trans hopen
  | false =>
    cases step with
    | call action caught =>
      rw [Step.run, action.perform_snd]
      exact (StoreCall.frame_after _ action).1.trans hopen
    | transaction steps abandon caught =>
      rw [Step.run]
      simp only [World.leave, hopen, Bool.false_eq_true, if_false]
      cases Option.isNone _ <;> rfl

/-- A script leaves no transaction open. -/
theorem undo_runAll {w : World} (h : w.store.undo = none) (steps : List (Step StoreCall)) :
    (runAll StoreCall.perform steps w).2.store.undo = none := by
  induction steps generalizing w with
  | nil => exact h
  | cons step rest ih =>
    refine ih ?_
    have hclosed := inTransaction_run step w
    rwa [Store.inTransaction, Store.inTransaction, h, Option.isSome_none, Option.isSome_eq_false_iff,
      Option.isNone_iff_eq_none] at hclosed

end Step

/-- In a table the rows before a mark come first. -/
theorem Table.Placed.before_append {next : Nat} {t : Table} (h : t.Placed next) (mark : Nat) :
    t.before mark ++ (t.rows.filter fun r => !decide (r.seq < mark)) = t.rows := by
  have hrows := h.ascending
  rw [Table.before]
  generalize t.rows = rows at hrows
  induction rows with
  | nil => rfl
  | cons r rest ih =>
    obtain ⟨hfirst, hrest⟩ := List.pairwise_cons.1 hrows
    by_cases hlt : r.seq < mark
    · simp [hlt, ih hrest]
    · have hbehind : ∀ r' ∈ r :: rest, ¬ r'.seq < mark := by
        rw [List.forall_mem_cons]
        exact ⟨hlt, fun r' hr' => by have := hfirst r' hr'; omega⟩
      rw [List.filter_eq_nil_iff.2 fun r' hr' => by simpa using hbehind r' hr',
        List.filter_eq_self.2 fun r' hr' => by simpa using hbehind r' hr', List.nil_append]

namespace Store

variable {tables : List (String × Schema)} {mark : Nat} {s s' : Store} {name : String}

/-- The row is in the table. -/
def Has (s : Store) (name : String) (row : Row) : Prop :=
  ∃ t, s.table? name = some t ∧ row ∈ t.rows

/-- The rows have places that ascend. -/
def Ascend (rows : List Fields) : Prop :=
  ∃ places : List Nat, rows.map (·.get sequenceColumn) = places.map (fun n => .int n) ∧
    places.Pairwise (· < ·)

/-- A table that had only places before the mark keeps its rows, in front of the others. -/
theorem Keeps.exists_rows (h : s.Keeps mark s') (hp : s.Placed tables mark) (hn : s.nextSeq ≤ mark)
    (hp' : s'.Placed tables mark) {t : Table} (ht : s.table? name = some t) :
    ∃ t' kept new, s'.table? name = some t' ∧ t'.rows = kept ++ new ∧
      List.Forall₂ (Row.Ages t.mutableColumns) t.rows kept := by
  have hname := h name
  rw [ht] at hname
  generalize hs' : s'.table? name = other at hname ⊢
  cases hname with
  | @some _ t' hkeeps =>
    refine ⟨t', t'.before mark, _, rfl, ((hp'.table name t' hs').before_append mark).symm, ?_⟩
    have hall : t.before mark = t.rows := by
      rw [Table.before, List.filter_eq_self]
      exact fun r hr => by simpa using ((hp.table name t ht).used r hr).trans_le hn
    exact hall ▸ hkeeps.rows

/-- What is found under a primary key is found there later, in the row that it was. -/
theorem Keeps.get (h : s.Keeps mark s') (hp : s.Placed tables mark) (hn : s.nextSeq ≤ mark)
    (hp' : s'.Placed tables mark) {key : Value} {row : Fields}
    (hget : s.get name key = .ok (some row)) :
    ∃ row', s'.get name key = .ok (some row') ∧ row'.get sequenceColumn = row.get sequenceColumn ∧
      ∀ σ, schema? tables name = some σ → ∀ c ∉ σ.mutableColumns, row'.find? c = row.find? c := by
  rw [Store.get, Store.table] at hget
  cases ht : s.table? name with
  | none =>
    rw [ht] at hget
    cases hget
  | some t =>
    rw [ht] at hget
    simp only [bind, Except.bind] at hget
    split at hget
    · rename_i hkey
      obtain ⟨r, hfind, rfl⟩ := Option.map_eq_some_iff.1 (Except.ok.inj hget)
      obtain ⟨t', kept, new, ht', hrows, hages⟩ := h.exists_rows hp hn hp' ht
      obtain ⟨r', hfind', hrr⟩ := exists_find?_of_ages hages hfind
      refine ⟨r'.columns, ?_, ?_, fun σ hσ c hc => ?_⟩
      · rw [Store.get, Store.table, ht']
        simp only [bind, Except.bind, hkey, if_true]
        rw [Table.find?, hrows, List.find?_append, hfind']
        rfl
      · have hr := List.mem_of_find?_eq_some hfind
        have hplaced := hp.table name t ht
        rw [hrr.get_seq hplaced.fixed (hplaced.carried r hr), hplaced.carried r hr, hrr.seq_eq]
      · obtain rfl := Option.some.inj ((hp.schema?_eq ht).symm.trans hσ)
        exact hrr.find?_eq c hc
    · cases hget

/-- Selected rows have places that ascend. -/
theorem Placed.ascend (h : s.Placed tables mark) {keep : Fields → Except Failure Bool}
    {rows : List Fields} (hsel : s.select name keep = .ok rows) : Ascend rows := by
  rw [Store.select, Store.table] at hsel
  cases ht : s.table? name with
  | none =>
    rw [ht] at hsel
    cases hsel
  | some t =>
    obtain ⟨hfixed, hascending, -, hcarried⟩ := h.table name t ht
    rw [ht] at hsel
    simp only [bind, Except.bind] at hsel
    rw [Table.inOrder_of_notMem hfixed] at hsel
    obtain ⟨picked, hpicked, rfl⟩ := List.sublist_map_iff.1 (sublist_of_filterM hsel)
    refine ⟨picked.map Row.seq, ?_, ?_⟩
    · rw [List.map_map, List.map_map]
      exact List.map_congr_left fun r hr => hcarried r (hpicked.subset hr)
    · rw [List.pairwise_map]
      exact hascending.sublist hpicked

/-- A row that has the place of an earlier one is that row. -/
theorem Leads.same_row (h : s.Leads s') (hp : s.Placed tables mark) {name' : String} {r r' : Row}
    (hr : s.Has name r) (hr' : s'.Has name' r') (hseq : r'.seq = r.seq) :
    name' = name ∧ ∀ σ, schema? tables name = some σ → r.Ages σ.mutableColumns r' := by
  obtain ⟨t, ht, hr⟩ := hr
  obtain ⟨t', ht', hr'⟩ := hr'
  have hplaced := hp.table name t ht
  obtain ⟨u, hu, -, hrows⟩ := h.exists_row name' t' ht'
  obtain ⟨r₀, hr₀, hages⟩ := hrows r' hr' (hseq ▸ hplaced.used r hr)
  have hsame : r₀.seq = r.seq := hages.seq_eq.symm.trans hseq
  obtain rfl := hp.apart name' u name t hu ht r₀ hr₀ r hr hsame
  obtain rfl := Option.some.inj (ht.symm.trans hu)
  refine ⟨rfl, fun σ hσ => ?_⟩
  obtain rfl := Option.some.inj ((hp.schema?_eq ht).symm.trans hσ)
  exact hplaced.eq_of_seq hr₀ hr hsame ▸ hages

/-- Over tables none of which lets places be changed, and whatever a script does: a row that is there
between two of its steps is there between any two later ones, under its primary key, in its place and
with the columns that may not change. In every world on the way, also in the middle of a transaction,
rows are selected in the order of their places, and a place is that of one row in all of them. -/
theorem rows_stay_of_script {tables : List (String × Schema)}
    (hfixed : ∀ d ∈ tables, sequenceColumn ∉ d.2.mutableColumns)
    (earlier later : List (Step StoreCall)) {w : World} (hw : w.store = declared tables) :
    let past := (Step.runAll StoreCall.perform earlier w).2
    let now := (Step.runAll StoreCall.perform later past).2
    let worlds := Step.worldsOfAll StoreCall.perform (earlier ++ later) w
    (∀ name key row, past.store.get name key = .ok (some row) →
      ∃ row', now.store.get name key = .ok (some row') ∧
        row'.get sequenceColumn = row.get sequenceColumn ∧
        ∀ σ, schema? tables name = some σ →
          ∀ c ∉ σ.mutableColumns, row'.find? c = row.find? c) ∧
      (∀ name r, past.store.Has name r → ∃ r', now.store.Has name r' ∧
        ∀ σ, schema? tables name = some σ → r.Ages σ.mutableColumns r') ∧
      (∀ w' ∈ worlds, ∀ name keep rows, w'.store.select name keep = .ok rows → Ascend rows) ∧
      (∀ w' ∈ worlds, ∀ name r, w'.store.Has name r →
        r.columns.get sequenceColumn = .int r.seq ∧
        ∀ w'' ∈ worlds, ∀ name' r', w''.store.Has name' r' → r'.seq = r.seq →
          name' = name ∧ ∀ σ, schema? tables name = some σ → r.Ages σ.mutableColumns r') := by
  intro past now worlds
  have hstart : w.store.Placed tables 0 := by
    rw [hw]
    exact .declared hfixed
  have hundo : w.store.undo = none := by
    rw [hw]
    rfl
  have hpast : past.store.Placed tables past.store.nextSeq :=
    (Step.course_of_worldsOfAll earlier hstart).placed.marked (Step.undo_runAll hundo earlier)
  have hnow := Step.course_of_worldsOfAll later hpast
  have hworlds := Step.course_of_worldsOfAll (earlier ++ later) hstart
  refine ⟨fun name key row => hnow.keeps.get hpast (Nat.le_refl _) hnow.placed, ?_, ?_, ?_⟩
  · rintro name r ⟨t, ht, hr⟩
    obtain ⟨t', kept, new, ht', hrows, hages⟩ :=
      hnow.keeps.exists_rows hpast (Nat.le_refl _) hnow.placed ht
    obtain ⟨r', hr', hrr⟩ := exists_mem_of_forall₂ hages hr
    refine ⟨r', ⟨t', ht', hrows ▸ List.mem_append_left _ hr'⟩, fun σ hσ => ?_⟩
    obtain rfl := Option.some.inj ((hpast.schema?_eq ht).symm.trans hσ)
    exact hrr
  · exact fun w' hw' name keep rows hsel => (hworlds.between w' hw').1.ascend hsel
  · intro w' hw' name r hr
    have hplaced := (hworlds.between w' hw').1
    refine ⟨?_, fun w'' hw'' name' r' hr' hseq => ?_⟩
    · obtain ⟨t, ht, hr⟩ := hr
      exact (hplaced.table name t ht).carried r hr
    have hplaced' := (hworlds.between w'' hw'').1
    -- one of the two worlds comes before the other, or they are the same
    have hline : w'.store.Leads w''.store ∨ w''.store.Leads w'.store :=
      List.Pairwise.forall_of_forall_of_flip
        (R := fun a b : World => a.store.Leads b.store ∨ b.store.Leads a.store)
        (fun a _ => .inl (.refl a.store)) (hworlds.pairwise.imp .inl) (hworlds.pairwise.imp .inr) hw'
        hw''
    rcases hline with hleads | hleads
    · exact hleads.same_row hplaced hr hr' hseq
    · obtain ⟨rfl, hages⟩ := hleads.same_row hplaced' hr' hr hseq.symm
      exact ⟨rfl, fun σ hσ => (hages σ hσ).symm⟩

/-- Passing an email on, given up the first time and kept the second, leaves the first account under
its number and in its place, although its email becomes another one. -/
theorem rows_stay_of_passEmailOn :
    (∀ d ∈ accounts, sequenceColumn ∉ d.2.mutableColumns) ∧
      let past := (Step.runAll StoreCall.perform addTwo
        { store := declared accounts, clock := default }).2
      let now := (Step.runAll StoreCall.perform
        [.transaction passEmailOn true true, .transaction passEmailOn false true] past).2
      ∃ row row', past.store.get "accounts" (.int 1) = .ok (some row) ∧
        now.store.get "accounts" (.int 1) = .ok (some row') ∧
          row'.get sequenceColumn = row.get sequenceColumn ∧ row'.find? "id" = row.find? "id" := by
  have hfixed : ∀ d ∈ accounts, sequenceColumn ∉ d.2.mutableColumns := by
    intro d hd
    rw [List.mem_singleton.1 hd]
    decide
  obtain ⟨row, hrow⟩ := exists_eq_ok_some (r := (Step.runAll StoreCall.perform addTwo
    { store := declared accounts, clock := default }).2.store.get "accounts" (.int 1))
    (by decide +kernel)
  obtain ⟨hget, -⟩ := rows_stay_of_script hfixed addTwo
    [.transaction passEmailOn true true, .transaction passEmailOn false true]
    (w := { store := declared accounts, clock := default }) rfl
  obtain ⟨row', hrow', hseq, hrest⟩ := hget "accounts" (.int 1) row hrow
  exact ⟨hfixed, row, row', hrow, hrow', hseq, hrest _ rfl "id" (by decide)⟩

end Store

end RewardLedger
