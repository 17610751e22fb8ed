import RewardLedger.Proofs.Computation
import RewardLedger.Proofs.Store.Change

/-!
# Rows that stand for records

A kind of records is stored in a table of its own; `Stored.IsRow` says which columns stand for which
record. A store lists records if the rows of their table stand for them, one by one
(`Store.Lists`). Changes of other tables do not matter, a row that was added stands for one more
record, and an update replaces the record of its row.
-/

namespace RewardLedger

/-- Records of a kind that is kept in a table. -/
class Stored (α : Type) where
  /-- The table of the records. -/
  tableName : String
  /-- The column of the primary key. -/
  keyColumn : String
  /-- The primary key of a record. -/
  keyOf : α → Value
  /-- The columns stand for the record. -/
  IsRow : α → Fields → Prop
  /-- Columns that agree stand for the same record. -/
  of_agrees {r : α} {a b : Fields} : a.Agrees b → IsRow r b → IsRow r a
  /-- A row carries the key of its record. -/
  get_keyColumn {r : α} {columns : Fields} : IsRow r columns → columns.get keyColumn = keyOf r
  /-- The key of a record is the same key as itself only. -/
  sameKey_iff (r : α) (v : Value) : (keyOf r).sameKey v = true ↔ v = keyOf r
  /-- The key of a record can be a key. -/
  hashable_keyOf (r : α) : (keyOf r).hashable = true

namespace Store

open Stored

variable {α : Type} [Stored α] {K : Value → Prop} {s s' : Store} {records : List α}

/-- The rows of the table of the records stand for them, one by one. -/
def Lists (s : Store) (records : List α) : Prop :=
  ∃ t, s.table? (tableName α) = some t ∧ t.primaryKey = keyColumn α ∧
    List.Forall₂ (fun row r => IsRow r row.columns) t.rows records

/-! ## Keeping records -/

/-- Only the table of the records matters. -/
theorem Lists.of_table?_eq (h : s.Lists records)
    (ht : s'.table? (tableName α) = s.table? (tableName α)) : s'.Lists records := by
  rw [Lists, ht]
  exact h

/-- Rows that are alike stand for the same records. -/
theorem isRow_of_alike {rows rows' : List Row} (ha : List.Forall₂ Row.Alike rows' rows)
    (h : List.Forall₂ (fun row r => IsRow r row.columns) rows records) :
    List.Forall₂ (fun row r => IsRow r row.columns) rows' records := by
  induction ha generalizing records with
  | nil => exact h
  | cons hab _ ih =>
    cases h with
    | cons hr hrest => exact .cons (of_agrees hab.columns hr) (ih hrest)

/-- A store whose table of the records is alike lists the same records. -/
theorem Lists.of_table_alike (h : s.Lists records)
    (ha : Option.Rel Table.Alike (s'.table? (tableName α)) (s.table? (tableName α))) :
    s'.Lists records := by
  obtain ⟨t, ht, hkey, hrows⟩ := h
  rw [ht] at ha
  generalize hx : s'.table? (tableName α) = x at ha
  cases ha with
  | some hat =>
    exact ⟨_, hx, (congrArg Schema.primaryKey hat.schema_eq).trans hkey,
      isRow_of_alike hat.rows hrows⟩

/-- A store that is alike lists the same records. -/
theorem Lists.of_alike (h : s.Lists records) (ha : s'.Alike s) : s'.Lists records :=
  h.of_table_alike (ha _)

/-- Adding a row to another table does not matter. -/
theorem Lists.inserted_of_ne (h : s.Lists records) {name : String} (hne : tableName α ≠ name)
    (key : Value) (columns : Fields) : (s.inserted name key columns).Lists records :=
  h.of_table?_eq (by rw [table?_inserted, if_neg hne])

/-- A row that was added stands for one more record. -/
theorem Lists.inserted (h : s.Lists records) {r : α} {columns : Fields} (hr : IsRow r columns)
    (key : Value) : (s.inserted (tableName α) key columns).Lists (records ++ [r]) := by
  obtain ⟨t, ht, hkey, hrows⟩ := h
  refine ⟨t.append ⟨s.nextSeq, key, columns⟩, ?_, hkey, ?_⟩
  · rw [table?_inserted, if_pos rfl, ht]
    rfl
  · rw [Table.rows_append]
    exact List.rel_append hrows (.cons hr .nil)

/-- Changing a row of another table does not matter. -/
theorem Lists.updated_of_ne (h : s.Lists records) {name : String} {t : Table} {row : Row}
    {changes : Fields} (ht : s.table? name = some t) (hne : tableName α ≠ name) :
    (s.updated name t row changes).Lists records :=
  h.of_table?_eq (by rw [table?_updated ht, if_neg hne])

/-- The key of a record is the primary key of its row. -/
theorem key_eq_keyOf {t : Table} (hs : t.Sound K) (hkey : t.primaryKey = keyColumn α) {row : Row}
    (hrow : row ∈ t.rows) {r : α} (hr : IsRow r row.columns) : row.key = keyOf r := by
  rw [← hs.rowsSound.get_key row hrow, ← get_keyColumn hr, ← hkey]
  rfl

/-- A row that was changed stands for the changed record. -/
theorem Lists.updated (h : s.Lists records) (hs : s.Sound K) {t : Table} {row : Row}
    {changes : Fields} (ht : s.table? (tableName α) = some t) (hrow : row ∈ t.rows) {f : α → α}
    (hf : ∀ r, keyOf r = row.key → IsRow r row.columns →
      IsRow (f r) (row.columns.putAll changes))
    (hid : ∀ r, keyOf r ≠ row.key → f r = r) :
    (s.updated (tableName α) t row changes).Lists (records.map f) := by
  obtain ⟨t', ht', hkey, hrows⟩ := h
  obtain rfl : t = t' := Option.some.inj (ht.symm.trans ht')
  have hsound := (hs _ t ht).1
  refine ⟨t.rewrite row (row.columns.putAll changes), ?_, hkey, ?_⟩
  · rw [table?_updated ht, if_pos rfl]
  · rw [Table.rows_rewrite, List.forall₂_map_left_iff, List.forall₂_map_right_iff]
    have hmem : List.Forall₂ (fun x r => x ∈ t.rows ∧ IsRow r x.columns) t.rows records :=
      (List.forall₂_and_left _ _).2 ⟨fun x hx => hx, hrows⟩
    refine hmem.imp fun x r ⟨hx, hr⟩ => ?_
    have hxr : x.key = keyOf r := key_eq_keyOf hsound hkey hx hr
    by_cases hseq : x.seq = row.seq
    · obtain rfl := hsound.rowsSound.eq_of_seq hx hrow hseq
      rw [if_pos rfl]
      exact hf r hxr.symm hr
    · -- a row of another place has another key, so its record stays as it is
      rw [if_neg hseq, hid r fun he => hseq ?_]
      · exact hr
      · refine hsound.rowsSound.seq_of_key x hx row hrow ?_
        rw [hxr]
        exact (sameKey_iff r row.key).2 he.symm

/-! ## Looking records up -/

/-- A record stands beside each row of the table. -/
theorem Lists.exists_record (h : s.Lists records) {t : Table}
    (ht : s.table? (tableName α) = some t) {row : Row} (hrow : row ∈ t.rows) :
    ∃ r ∈ records, IsRow r row.columns := by
  obtain ⟨t', ht', -, hrows⟩ := h
  obtain rfl : t = t' := Option.some.inj (ht.symm.trans ht')
  exact exists_mem_of_forall₂ hrows hrow

/-- A row stands beside each record. -/
theorem Lists.exists_row (h : s.Lists records) {t : Table}
    (ht : s.table? (tableName α) = some t) {r : α} (hr : r ∈ records) :
    ∃ row ∈ t.rows, IsRow r row.columns := by
  obtain ⟨t', ht', -, hrows⟩ := h
  obtain rfl : t = t' := Option.some.inj (ht.symm.trans ht')
  obtain ⟨row, hrow, hR⟩ := exists_mem_of_forall₂ hrows.flip hr
  exact ⟨row, hrow, hR⟩

/-- A row whose key is the same as a value has that value as its key. -/
theorem Lists.key_eq (h : s.Lists records) (hs : s.Sound K) {t : Table}
    (ht : s.table? (tableName α) = some t) {row : Row} (hrow : row ∈ t.rows) {v : Value}
    (hkey : row.key.sameKey v = true) : row.key = v := by
  obtain ⟨t', ht', hcolumn, hrows⟩ := h
  obtain rfl := Option.some.inj (ht.symm.trans ht')
  obtain ⟨r, -, hR⟩ := exists_mem_of_forall₂ hrows hrow
  rw [key_eq_keyOf (hs _ t ht).1 hcolumn hrow hR] at hkey ⊢
  exact ((sameKey_iff r v).1 hkey).symm

/-- Getting a row under a key gives the row of a record with that key. -/
theorem Lists.of_get_some (h : s.Lists records) (hs : s.Sound K) {v : Value} {columns : Fields}
    (hget : s.get (tableName α) v = .ok (some columns)) :
    ∃ r ∈ records, IsRow r columns ∧ v = keyOf r := by
  obtain ⟨t, ht, hkey, hrows⟩ := id h
  rw [get, table, ht] at hget
  simp only [bind, Except.bind] at hget
  split at hget
  · obtain ⟨row, hfind, rfl⟩ : ∃ row, t.find? v = some row ∧ row.columns = columns := by
      simpa [pure, Except.pure] using hget
    obtain ⟨hrow, hsame⟩ := Table.find?_some hfind
    obtain ⟨r, hr, hR⟩ := exists_mem_of_forall₂ hrows hrow
    refine ⟨r, hr, hR, (sameKey_iff r v).1 ?_⟩
    rwa [← key_eq_keyOf (hs _ t ht).1 hkey hrow hR]
  · cases hget

/-- Getting no row under a key means that no record has the key. -/
theorem Lists.of_get_none (h : s.Lists records) (hs : s.Sound K) {v : Value}
    (hget : s.get (tableName α) v = .ok none) : ∀ r ∈ records, v ≠ keyOf r := by
  obtain ⟨t, ht, hkey, hrows⟩ := id h
  rw [get, table, ht] at hget
  simp only [bind, Except.bind] at hget
  split at hget
  · have hfind : t.find? v = none := by simpa [pure, Except.pure] using hget
    rintro r hr rfl
    obtain ⟨row, hrow, hR⟩ := h.exists_row ht hr
    have hne := Table.find?_none hfind row hrow
    rw [key_eq_keyOf (hs _ t ht).1 hkey hrow hR, (sameKey_iff r _).2 rfl] at hne
    cases hne
  · cases hget

/-- Whether there is a row under a value that can be a key is always known. -/
theorem Lists.exists_get (h : s.Lists records) {v : Value} (hv : v.hashable = true) :
    ∃ found, s.get (tableName α) v = .ok found := by
  obtain ⟨t, ht, -⟩ := h
  rw [get, table, ht]
  simp only [bind, Except.bind, hv, if_true]
  exact ⟨_, rfl⟩

/-- The row of a record is found under its key. -/
theorem Lists.get_keyOf (h : s.Lists records) (hs : s.Sound K) {r : α} (hr : r ∈ records) :
    ∃ columns, s.get (tableName α) (keyOf r) = .ok (some columns) ∧ IsRow r columns := by
  obtain ⟨t, ht, hkey, hrows⟩ := id h
  obtain ⟨row, hrow, hR⟩ := h.exists_row ht hr
  have hsound := (hs _ t ht).1
  have hk : row.key = keyOf r := key_eq_keyOf hsound hkey hrow hR
  rw [get, table, ht]
  simp only [bind, Except.bind, hashable_keyOf, if_true]
  cases hfind : t.find? (keyOf r) with
  | none =>
    have hne := Table.find?_none hfind row hrow
    rw [hk, (sameKey_iff r _).2 rfl] at hne
    cases hne
  | some found =>
    obtain ⟨hfound, hsame⟩ := Table.find?_some hfind
    obtain ⟨q, hq, hQ⟩ := h.exists_record ht hfound
    have hfk : found.key = keyOf q := key_eq_keyOf hsound hkey hfound hQ
    rw [hfk, sameKey_iff] at hsame
    -- the found row has the same key, and so the same place
    have hseq : found.seq = row.seq := hsound.rowsSound.seq_of_key found hfound row hrow (by
      rw [hfk, hk]
      exact (sameKey_iff q _).2 hsame)
    obtain rfl := hsound.rowsSound.eq_of_seq hfound hrow hseq
    exact ⟨found.columns, rfl, hR⟩

/-- What two relations come to together holds item by item if both do. -/
theorem forall₂_of_forall₂ {β γ δ : Type} {R : β → γ → Prop} {S : γ → δ → Prop} {T : β → δ → Prop}
    (hT : ∀ b c d, R b c → S c d → T b d) {bs : List β} {cs : List γ} {ds : List δ}
    (h : List.Forall₂ R bs cs) (h' : List.Forall₂ S cs ds) : List.Forall₂ T bs ds := by
  induction h generalizing ds with
  | nil =>
    cases h'
    exact .nil
  | cons hR _ ih =>
    cases h' with
    | cons hS hrest => exact .cons (hT _ _ _ hR hS) (ih hrest)

/-- What holds of two items of the first list, one before the other, holds of those that stand beside
them. -/
theorem pairwise_of_forall₂ {β γ : Type} {R : β → γ → Prop} {S : β → β → Prop}
    {T : γ → γ → Prop} {bs : List β} {cs : List γ} (h : List.Forall₂ R bs cs)
    (hS : bs.Pairwise S) (hT : ∀ b b' c c', R b c → R b' c' → S b b' → T c c') :
    cs.Pairwise T := by
  induction h with
  | nil => exact .nil
  | cons hbc hrest ih =>
    rw [List.pairwise_cons] at hS ⊢
    refine ⟨fun c' hc' => ?_, ih hS.2⟩
    obtain ⟨b', hb', hR⟩ := exists_mem_of_forall₂ hrest.flip hc'
    exact hT _ b' _ c' hbc hR (hS.1 b' hb')

/-- The rows of a table, each beside its record. -/
theorem Lists.forall₂_mem (h : s.Lists records) (hs : s.Sound K) {t : Table}
    (ht : s.table? (tableName α) = some t) :
    List.Forall₂ (fun x r => x ∈ t.rows ∧ IsRow r x.columns ∧ x.key = keyOf r) t.rows records := by
  obtain ⟨t', ht', hkey, hrows⟩ := h
  obtain rfl : t = t' := Option.some.inj (ht.symm.trans ht')
  have hmem : List.Forall₂ (fun x r => x ∈ t.rows ∧ IsRow r x.columns) t.rows records :=
    (List.forall₂_and_left _ _).2 ⟨fun x hx => hx, hrows⟩
  exact hmem.imp fun x r ⟨hx, hr⟩ => ⟨hx, hr, key_eq_keyOf (hs _ t ht).1 hkey hx hr⟩

/-- No two records have the same key. -/
theorem Lists.pairwise_keyOf (h : s.Lists records) (hs : s.Sound K) :
    records.Pairwise fun r r' => keyOf r ≠ keyOf r' := by
  obtain ⟨t, ht, -⟩ := id h
  have hrows := (hs _ t ht).1.rowsSound
  refine pairwise_of_forall₂ (h.forall₂_mem hs ht) hrows.seqs ?_
  rintro x y r q ⟨hx, -, hxr⟩ ⟨hy, -, hyq⟩ hlt hrq
  refine Nat.ne_of_lt hlt (hrows.seq_of_key x hx y hy ?_)
  rw [hxr]
  exact (sameKey_iff r y.key).2 (hyq.trans hrq.symm)

/-- No two records have the same key in a unique index. -/
theorem Lists.pairwise_hasKey (h : s.Lists records) (hs : s.Sound K) {t : Table}
    (ht : s.table? (tableName α) = some t) {index : String × List String}
    (hix : index ∈ t.schema.indexes) {value : α → Option (List Value)}
    (hvalue : ∀ r columns, IsRow r columns → ∀ key, value r = some key →
      KeyKind.All K key ∧ columns.hasKey index.2 key = true) :
    records.Pairwise fun r r' => ∀ key, value r = some key → value r' ≠ some key := by
  have hrows := (hs _ t ht).1.rowsSound
  refine pairwise_of_forall₂ (h.forall₂_mem hs ht) hrows.seqs ?_
  rintro x y r q ⟨hx, hr, -⟩ ⟨hy, hq, -⟩ hlt key hkr hkq
  obtain ⟨hK, hxk⟩ := hvalue r _ hr key hkr
  obtain ⟨-, hyk⟩ := hvalue q _ hq key hkq
  exact Nat.ne_of_lt hlt (hrows.seq_of_hasKey index hix x hx y hy key hK hxk hyk)

/-- Looking a key up in an index finds a row if there is one that has the key. -/
theorem Sound.exists_findUnique [KeyKind.Exact K] (hs : s.Sound K) {name index : String} {t : Table}
    (ht : s.table? name = some t) {ix : Index}
    (hix : (t.indexes.find? fun ix => ix.name = index) = some ix) {key : List Value}
    (hK : KeyKind.All K key) :
    ∃ found, s.findUnique name index key = .ok found ∧
      (found.isSome = true ↔ ∃ row ∈ t.rows, row.columns.hasKey ix.columns key = true) := by
  have hsound := (hs name t ht).1
  have hmem := List.mem_of_find?_eq_some hix
  rw [findUnique, table, ht]
  simp only [bind, Except.bind, hix, KeyKind.allHashable hK, if_true]
  cases hpk : ix.find? key with
  | none =>
    have hnone := ((hsound.indexSound ix hmem).find_eq_none hK).1 hpk
    refine ⟨none, rfl, iff_of_false Bool.false_ne_true ?_⟩
    rintro ⟨row, hrow, hhas⟩
    exact absurd ((hnone row hrow).symm.trans hhas) Bool.false_ne_true
  | some pk =>
    obtain ⟨row, hrow, hhas, rfl⟩ := ((hsound.indexSound ix hmem).find_iff key hK pk).1 hpk
    have hkind := hsound.rowsSound.kind row hrow
    obtain ⟨found, hfound⟩ : ∃ found, t.find? row.key = some found := by
      cases hfound : t.find? row.key with
      | some found => exact ⟨found, rfl⟩
      | none =>
        have hne := Table.find?_none hfound row hrow
        rw [KeyKind.Exact.refl hkind] at hne
        cases hne
    simp only [KeyKind.hashable hkind, if_true,
      t.entered?_of_ordered ix key (KeyKind.Exact.ordered hkind), hfound]
    exact ⟨_, rfl, iff_of_true rfl ⟨row, hrow, hhas⟩⟩

/-- Selecting rows by what their records are gives the rows of those records, in order. -/
theorem Lists.select (h : s.Lists records) (hs : s.Sound K) {keep : Fields → Except Failure Bool}
    {p : α → Bool} (hp : ∀ r columns, IsRow r columns → keep columns = .ok (p r)) :
    ∃ rows, s.select (tableName α) keep = .ok rows ∧
      List.Forall₂ (fun columns r => IsRow r columns) rows (records.filter p) := by
  obtain ⟨t, ht, -, hrows⟩ := h
  have hcolumns : List.Forall₂ (fun columns r => IsRow r columns) (t.rows.map Row.columns)
      records := List.forall₂_map_left_iff.2 hrows
  obtain ⟨kept, hrun, hkept⟩ := exists_filterM (fun columns r hr => hp r columns hr) hcolumns
  refine ⟨kept, ?_, hkept⟩
  rw [Store.select, table, ht]
  simp only [bind, Except.bind]
  rw [Table.inOrder_of_notMem (hs _ t ht).1.proper.seq_fixed]
  exact hrun

/-- The rows of a table stand for the records, in the same order. -/
theorem Lists.all (h : s.Lists records) (hs : s.Sound K) :
    ∃ rows, s.all (tableName α) = .ok rows ∧
      List.Forall₂ (fun columns r => IsRow r columns) rows records := by
  obtain ⟨t, ht, -, hrows⟩ := h
  refine ⟨t.rows.map Row.columns, ?_, List.forall₂_map_left_iff.2 hrows⟩
  rw [Store.all, table, ht]
  exact Table.inOrder_of_notMem (hs _ t ht).1.proper.seq_fixed

/-- What is selected are columns of rows of the table. -/
theorem Sound.of_select (hs : s.Sound K) {name : String} {keep : Fields → Except Failure Bool}
    {kept : List Fields} (h : s.select name keep = .ok kept) :
    ∃ t, s.table? name = some t ∧ ∀ columns ∈ kept, ∃ row ∈ t.rows, row.columns = columns := by
  rw [select, table] at h
  cases ht : s.table? name with
  | none =>
    rw [ht] at h
    cases h
  | some t =>
    rw [ht] at h
    simp only [bind, Except.bind] at h
    rw [Table.inOrder_of_notMem (hs _ t ht).1.proper.seq_fixed] at h
    refine ⟨t, rfl, fun columns hc => ?_⟩
    exact List.mem_map.1 ((sublist_of_filterM h).subset hc)

end Store

end RewardLedger
