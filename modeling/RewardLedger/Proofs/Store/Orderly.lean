import RewardLedger.Proofs.Store.Change

/-!
# Indexes that list the rows of any table

Whatever a table is declared as, its indexes lead from the keys of the rows to what the rows carry as
their primary keys (`Table.Orderly`), and to nothing else. Nothing is asked of the declaration, so the
primary key may change and a row may carry any place, and nothing of the rows but that their places
and the keys in the indexes are their own. Adding a row, rewriting one and taking one out keep a table
orderly. Taking a row out of the indexes and entering it again changes no answer of them
(`Table.Orderly.find?_reindex`).
-/

namespace RewardLedger

open Value (IsKey)

namespace RowsApart

variable {K : Value → Prop} {σ : Schema} {rows : List Row}

/-- No rows are apart. -/
theorem nil : RowsApart K σ [] where
  seqs := List.Pairwise.nil
  keyFits := by simp
  seq_of_hasKey := by simp

/-- The rows that remain when some go are apart. -/
theorem filter (h : RowsApart K σ rows) (keep : Row → Bool) : RowsApart K σ (rows.filter keep) where
  seqs := h.seqs.filter keep
  keyFits ix hix r hr := h.keyFits ix hix r (List.mem_of_mem_filter hr)
  seq_of_hasKey ix hix r hr r' hr' := h.seq_of_hasKey ix hix r (List.mem_of_mem_filter hr) r'
    (List.mem_of_mem_filter hr')

/-- A row that comes last and shares no key with the others leaves the rows apart. -/
theorem append (h : RowsApart K σ rows) {row : Row} (hlast : ∀ r ∈ rows, r.seq < row.seq)
    (hfits : ∀ ix ∈ σ.indexes, row.columns.KeyFits K ix.2)
    (hapart : ∀ ix ∈ σ.indexes, ∀ key, KeyKind.All K key →
      row.columns.hasKey ix.2 key = true → ∀ r ∈ rows, r.columns.hasKey ix.2 key = false) :
    RowsApart K σ (rows ++ [row]) := by
  have hm : ∀ r, r ∈ rows ++ [row] ↔ r ∈ rows ∨ r = row := fun r => by simp
  refine ⟨?_, fun ix hix r hr => ?_, fun ix hix r hr r' hr' key hK h1 h2 => ?_⟩
  · rw [List.pairwise_append]
    refine ⟨h.seqs, List.pairwise_singleton _ _, fun r hr r' hr' => ?_⟩
    rw [List.mem_singleton.1 hr']
    exact hlast r hr
  · rcases (hm r).1 hr with hr | rfl
    · exact h.keyFits ix hix r hr
    · exact hfits ix hix
  · rcases (hm r).1 hr with hm1 | rfl <;> rcases (hm r').1 hr' with hm2 | rfl
    · exact h.seq_of_hasKey ix hix r hm1 r' hm2 key hK h1 h2
    · rw [hapart ix hix key hK h2 r hm1] at h1
      cases h1
    · rw [hapart ix hix key hK h1 r' hm2] at h2
      cases h2
    · rfl

/-- A row that shares no key with the others may get other columns. -/
theorem replace (h : RowsApart K σ rows) {row : Row} (hr : row ∈ rows) {columns : Fields}
    (hfits : ∀ ix ∈ σ.indexes, columns.KeyFits K ix.2)
    (hapart : ∀ ix ∈ σ.indexes, ∀ key, KeyKind.All K key → columns.hasKey ix.2 key = true →
      ∀ r ∈ rows, r.seq ≠ row.seq → r.columns.hasKey ix.2 key = false) :
    RowsApart K σ (rows.map fun r => if r.seq = row.seq then { r with columns } else r) := by
  -- a row afterwards is either one of another place or the given row with the new columns
  have hm : ∀ r ∈ rows.map fun r => if r.seq = row.seq then { r with columns } else r,
      (r ∈ rows ∧ r.seq ≠ row.seq) ∨ r = { row with columns } := by
    intro r hmem
    obtain ⟨r', hr', rfl⟩ := List.mem_map.1 hmem
    by_cases hs : r'.seq = row.seq
    · rw [if_pos hs, Row.eq_of_seq h.seqs hr' hr hs]
      exact .inr rfl
    · rw [if_neg hs]
      exact .inl ⟨hr', hs⟩
  refine ⟨?_, fun ix hix r hmem => ?_, fun ix hix r hmem r' hmem' key hK hk hk' => ?_⟩
  · have hsame : ∀ r : Row, (if r.seq = row.seq then { r with columns } else r).seq = r.seq :=
      fun r => by split <;> rfl
    rw [List.pairwise_map]
    refine h.seqs.imp fun {a b} hlt => ?_
    rw [hsame, hsame]
    exact hlt
  · rcases hm r hmem with ⟨h1, -⟩ | rfl
    · exact h.keyFits ix hix r h1
    · exact hfits ix hix
  · rcases hm r hmem with ⟨h1, hn1⟩ | rfl <;> rcases hm r' hmem' with ⟨h2, hn2⟩ | rfl
    · exact h.seq_of_hasKey ix hix r h1 r' h2 key hK hk hk'
    · rw [hapart ix hix key hK hk' r h1 hn1] at hk
      cases hk
    · rw [hapart ix hix key hK hk r' h2 hn2] at hk'
      cases hk'
    · rfl

/-- Rows that are alike to rows apart are apart. -/
theorem of_alike {rows' : List Row} (h : RowsApart K σ rows')
    (ha : List.Forall₂ Row.Alike rows rows') : RowsApart K σ rows where
  seqs := by
    have hs := h.seqs
    rw [← List.pairwise_map, ← map_seq_of_alike ha, List.pairwise_map] at hs
    exact hs
  keyFits ix hix r hr := by
    obtain ⟨r', hr', hrr⟩ := exists_mem_of_forall₂ ha hr
    intro key hkey
    rw [Fields.keyIn?, hrr.columns.get_eq] at hkey
    exact h.keyFits ix hix r' hr' key hkey
  seq_of_hasKey ix hix r hr r' hr' key hK h1 h2 := by
    obtain ⟨q, hq, hrq⟩ := exists_mem_of_forall₂ ha hr
    obtain ⟨q', hq', hrq'⟩ := exists_mem_of_forall₂ ha hr'
    rw [hrq.hasKey_eq] at h1
    rw [hrq'.hasKey_eq] at h2
    rw [hrq.seq_eq, hrq'.seq_eq]
    exact h.seq_of_hasKey ix hix q hq q' hq' key hK h1 h2

end RowsApart

/-- A key without a null that can be one is made up of values that can be keys. -/
theorem Value.all_isKey {key : List Value} (h : allHashable key = true)
    (hnull : key.any isNull = false) : KeyKind.All IsKey key :=
  fun v hv => ⟨allHashable_iff.1 h v hv, by simpa using List.any_eq_false.1 hnull v hv⟩

/-- A key of a row has no null in it. -/
theorem Fields.any_isNull_of_keyIn? {row : Fields} {columns : List String} {key : List Value}
    (hk : row.keyIn? columns = some key) : key.any Value.isNull = false := by
  unfold Fields.keyIn? at hk
  simp only [Option.ite_none_left_eq_some, Option.some.injEq] at hk
  obtain ⟨hn, rfl⟩ := hk
  simpa using hn

namespace Index

/-- Two indexes on the same columns that list the same rows give the same answers. -/
theorem Lists.find?_eq {K : Value → Prop} {entered : Row → Value} {ix ix' : Index}
    {rows : List Row} (h : ix.Lists K entered rows) (h' : ix'.Lists K entered rows)
    (hcolumns : ix'.columns = ix.columns) {key : List Value} (hk : KeyKind.All K key) :
    ix'.find? key = ix.find? key := by
  refine Option.ext fun pk => ?_
  rw [h.find_iff key hk, h'.find_iff key hk, hcolumns]

/-- A key with a null in it leads to nothing. -/
theorem Regular.find?_eq_none {ix : Index} (h : ix.Regular IsKey) {key : List Value}
    (hnull : key.any Value.isNull = true) : ix.find? key = none := by
  have hnone : ∀ own, KeyKind.All IsKey own → Value.sameKeys own key = false := by
    induction key with
    | nil => cases hnull
    | cons v rest ih =>
      intro own hown
      cases own with
      | nil => rfl
      | cons w others =>
        rw [Value.sameKeys, Bool.and_eq_false_iff]
        rw [List.any_cons, Bool.or_eq_true] at hnull
        rcases hnull with hv | hrest
        · refine .inl (Bool.eq_false_iff.2 fun hs => ?_)
          cases v with
          | null =>
            obtain ⟨hkind, hsome⟩ := hown w List.mem_cons_self
            obtain ⟨e, hw, hnull⟩ := (Value.sameKey_iff hkind .null).1 hs
            cases hnull
            rw [show w = .null from Value.of_essence? hw] at hsome
            cases hsome
          | _ => cases hv
        · exact .inr (ih hrest others fun u hu => hown u (List.mem_cons_of_mem _ hu))
  rw [find?, Option.map_eq_none_iff, List.find?_eq_none]
  intro e he
  rw [hnone e.1 (h e he)]
  decide

end Index

namespace Table

/-- The rows have their places and keys to themselves, and every index leads from the keys to what the
rows carry as primary keys. -/
structure Orderly (t : Table) : Prop where
  /-- The rows have their places and keys to themselves. -/
  apart : RowsApart IsKey t.schema t.rows
  /-- The indexes list the rows. -/
  lists : ∀ ix ∈ t.indexes, ix.Lists IsKey (fun r => r.columns.get t.primaryKey) t.rows

variable {t : Table}

/-- A table without rows is orderly if its indexes are empty. -/
theorem orderly_of_empty (hr : t.rows = []) (hi : ∀ ix ∈ t.indexes, ix.entries = []) :
    t.Orderly := by
  refine ⟨hr ▸ .nil, fun ix hix => ?_⟩
  have hentries := hi ix hix
  rw [hr]
  refine ⟨fun e he => ?_, fun key _ pk => ?_⟩
  · rw [hentries] at he
    cases he
  · rw [Index.find?, hentries]
    simp

/-- The places in an orderly table ascend. -/
theorem Orderly.ascending (h : t.Orderly) : t.Ascending := h.apart.seqs

/-- The keys of a row that no index refuses are of values that can be keys. -/
theorem keyFits_of_refusal?_eq_none {name : String} {columns : Fields}
    (hn : t.refusal? name columns = none) {ix : Index} (hix : ix ∈ t.indexes) :
    columns.KeyFits IsKey ix.columns := by
  intro key hk
  have hix' := List.findSome?_eq_none_iff.1 hn ix hix
  rw [Index.keyOf?_eq, hk] at hix'
  refine Value.all_isKey ?_ (Fields.any_isNull_of_keyIn? hk)
  cases hkind : Value.allHashable key with
  | true => rfl
  | false => simp [hkind] at hix'

/-- A row that no index refuses shares its keys in them with no other row. -/
theorem Orderly.apart_of_refusal?_eq_none (h : t.Orderly) {name : String} {columns : Fields}
    (hn : t.refusal? name columns = none) {ix : Index} (hix : ix ∈ t.indexes) {key : List Value}
    (hk : KeyKind.All IsKey key) (hh : columns.hasKey ix.columns key = true) :
    ∀ r ∈ t.rows, r.columns.hasKey ix.columns key = false := by
  have hix' := List.findSome?_eq_none_iff.1 hn ix hix
  have hfits := keyFits_of_refusal?_eq_none hn hix
  rw [Index.keyOf?_eq] at hix'
  unfold Fields.hasKey at hh
  cases hc : columns.keyIn? ix.columns with
  | none => simp [hc] at hh
  | some own =>
    have ho : KeyKind.All IsKey own := hfits own hc
    rw [hc] at hix' hh
    simp only [KeyKind.allHashable ho, Bool.not_true, Bool.false_eq_true, if_false] at hix'
    have hfree : ix.find? own = none := by
      cases hfind : ix.find? own with
      | none => rfl
      | some pk => simp [hfind] at hix'
    have hrows := ((h.lists ix hix).find_eq_none ho).1 hfree
    intro r hr
    rw [Bool.eq_false_iff]
    intro hrk
    have hown := (h.apart.keyFits _ (mem_schema hix) r hr).hasKey_congr hk ho hrk
      (KeyKind.sameKeys_symm ho hk hh)
    rw [hrows r hr] at hown
    cases hown

/-! ### Changes -/

/-- A row that no index refuses and that comes last leaves the table orderly. -/
theorem Orderly.append (h : t.Orderly) {row : Row} {name : String}
    (hn : t.refusal? name row.columns = none) (hlast : ∀ r ∈ t.rows, r.seq < row.seq) :
    (t.append row).Orderly := by
  have hfits : ∀ ix ∈ t.indexes, row.columns.KeyFits IsKey ix.columns :=
    fun ix hix => keyFits_of_refusal?_eq_none hn hix
  refine ⟨?_, fun ix hix => ?_⟩
  · rw [schema_append, rows_append]
    refine h.apart.append hlast (fun ix hix => ?_) fun ix hix key hK hh => ?_
    · obtain ⟨i, hi, rfl⟩ := List.mem_map.1 hix
      exact hfits i hi
    · obtain ⟨i, hi, rfl⟩ := List.mem_map.1 hix
      exact h.apart_of_refusal?_eq_none hn hi hK hh
  · obtain ⟨i, hi, rfl⟩ := List.mem_map.1 hix
    rw [rows_append]
    exact (h.lists i hi).add (hfits i hi)
      (fun key hK hh => h.apart_of_refusal?_eq_none hn hi hK hh) fun r => by simp

/-- Rewriting a row leaves the table orderly if the rows are apart afterwards. -/
theorem Orderly.rewrite (h : t.Orderly) {row : Row} (hr : row ∈ t.rows) {columns : Fields}
    (hrows : RowsApart IsKey t.schema (t.rewrite row columns).rows) :
    (t.rewrite row columns).Orderly := by
  refine ⟨by rw [schema_rewrite]; exact hrows, fun ix hix => ?_⟩
  have hr' : { row with columns } ∈ (t.rewrite row columns).rows := by
    rw [rows_rewrite]
    exact List.mem_map.2 ⟨row, hr, if_pos rfl⟩
  obtain ⟨i', hi', rfl⟩ := List.mem_map.1 hix
  obtain ⟨i, hi, rfl⟩ := List.mem_map.1 hi'
  refine (h.lists i hi).replace (mem_schema hi) h.apart hrows hr hr' rfl fun r hne => ?_
  rw [rows_rewrite, List.mem_map]
  constructor
  · rintro ⟨r', hr', rfl⟩
    by_cases hs : r'.seq = row.seq
    · rw [if_pos hs] at hne
      exact absurd hs hne
    · rwa [if_neg hs]
  · exact fun hmem => ⟨r, hmem, if_neg hne⟩

/-- Taking a row out of an index and entering it again leaves it listing the rows. -/
theorem Orderly.lists_reindex (h : t.Orderly) {row : Row} (hr : row ∈ t.rows) {ix : Index}
    (hix : ix ∈ t.indexes) : ((ix.remove row.columns).add row.columns
      (row.columns.get t.primaryKey)).Lists IsKey (fun r => r.columns.get t.primaryKey) t.rows :=
  (h.lists ix hix).replace (mem_schema hix) h.apart h.apart hr hr rfl fun _ _ => Iff.rfl

/-- Taking a row out of the indexes and entering it again leaves the table orderly. -/
theorem Orderly.reindex (h : t.Orderly) {row : Row} (hr : row ∈ t.rows) :
    ((t.unindex row.columns).index row.columns).Orderly := by
  refine ⟨by simpa using h.apart, fun ix hix => ?_⟩
  obtain ⟨i', hi', rfl⟩ := List.mem_map.1 hix
  obtain ⟨i, hi, rfl⟩ := List.mem_map.1 hi'
  exact h.lists_reindex hr hi

/-- Taking the row of a place out leaves the table orderly. -/
theorem Orderly.discard (h : t.Orderly) (seq : Nat) : (t.discard seq).Orderly := by
  unfold Table.discard
  split
  · exact h
  · rename_i row hf
    have hr := List.mem_of_find?_eq_some hf
    have hs : row.seq = seq := by simpa using List.find?_some hf
    refine ⟨by rw [schema_unindex]; exact h.apart.filter _, fun ix hix => ?_⟩
    obtain ⟨i, hi, rfl⟩ := List.mem_map.1 hix
    refine (h.lists i hi).remove (h.apart.keyFits _ (mem_schema hi) row hr)
      (fun key hK hh r hro => ?_) fun r => ?_
    · have hmem : r ∈ t.rows ∧ r.seq ≠ seq := by simpa using hro
      rw [Bool.eq_false_iff]
      intro hrk
      exact hmem.2 ((h.apart.seq_of_hasKey _ (mem_schema hi) r hmem.1 row hr key hK hrk hh).trans hs)
    · simp only [rows_unindex, List.mem_filter, decide_eq_true_eq]
      constructor
      · intro hmem
        by_cases hrs : r.seq = seq
        · exact .inr (Row.eq_of_seq h.ascending hmem hr (hrs.trans hs.symm))
        · exact .inl ⟨hmem, hrs⟩
      · rintro (⟨hmem, -⟩ | rfl)
        · exact hmem
        · exact hr

/-- Restoring columns leaves a table orderly that is then alike to an orderly one. -/
theorem Orderly.restore {t' : Table} (h : t.Orderly) {seq : Nat} {previous : Fields}
    (ha : (t.restore seq previous).Alike t') (hs : t'.Orderly) :
    (t.restore seq previous).Orderly := by
  have hrows : RowsApart IsKey t.schema (t.restore seq previous).rows := by
    have hschema := ha.schema_eq
    rw [schema_restore] at hschema
    rw [hschema]
    exact hs.apart.of_alike ha.rows
  unfold Table.restore at hrows ⊢
  split at hrows
  · exact h
  · rename_i row hf
    have hseq : row.seq = seq := by simpa using List.find?_some hf
    rw [← hseq] at hrows ⊢
    exact h.rewrite (List.mem_of_find?_eq_some hf) hrows

/-- A table stays orderly if no index refuses the new columns of a row once the row is taken out. -/
theorem Orderly.rewrite_of_refusal? (h : t.Orderly) {row : Row} (hr : row ∈ t.rows) {name : String}
    {columns : Fields} (hn : (t.unindex row.columns).refusal? name columns = none) :
    (t.rewrite row columns).Orderly := by
  -- the indexes without the row are those of the table from which the row is taken out
  have hdiscard : t.discard row.seq =
      { t with rows := t.rows.filter fun r => r.seq ≠ row.seq }.unindex row.columns := by
    rw [Table.discard, h.ascending.find?_seq hr]
  have hn' : (t.discard row.seq).refusal? name columns = none := by
    rw [hdiscard]
    exact hn
  refine h.rewrite hr (h.apart.replace hr (fun ix hix => ?_) fun ix hix key hK hh r hrow hne => ?_)
  · rw [← schema_discard t row.seq] at hix
    obtain ⟨i, hi, rfl⟩ := List.mem_map.1 hix
    exact keyFits_of_refusal?_eq_none hn' hi
  · rw [← schema_discard t row.seq] at hix
    obtain ⟨i, hi, rfl⟩ := List.mem_map.1 hix
    refine (h.discard row.seq).apart_of_refusal?_eq_none hn' hi hK hh r ?_
    rw [rows_discard]
    exact List.mem_filter.2 ⟨hrow, by simpa using hne⟩

end Table

end RewardLedger
