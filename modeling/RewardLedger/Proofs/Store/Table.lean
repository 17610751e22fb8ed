import Mathlib.Data.List.Basic
import RewardLedger.Proofs.Store.Index

/-!
# Tables whose indexes agree with their rows

A table is sound if its rows have their keys and places to themselves and every index agrees with
them (`Table.Sound`). What is asked of the rows (`RowsSound`) depends on the declaration of the table
and on the rows only, so it can be carried over to other rows that look the same. Adding a row,
taking the last change of a row back, and giving a row other columns all keep a table sound; the
last two are the same step, which takes a row out of the indexes, replaces its columns and enters it
again.
-/

namespace RewardLedger

/-! ## Declarations -/

/-- What is declared of a table: all but its rows and the keys that are taken. -/
structure Schema where
  /-- The column of the primary key. -/
  primaryKey : String
  /-- The columns that may change. -/
  mutableColumns : List String
  /-- The names and columns of the unique indexes. -/
  indexes : List (String × List String)
  deriving DecidableEq, Repr

/-- Neither the primary key nor the place of a row may change, and the place is no part of a key. -/
structure Schema.Proper (σ : Schema) : Prop where
  /-- The primary key may not change. -/
  key_fixed : σ.primaryKey ∉ σ.mutableColumns
  /-- The place may not change. -/
  seq_fixed : sequenceColumn ∉ σ.mutableColumns
  /-- The place is not the primary key. -/
  key_ne : σ.primaryKey ≠ sequenceColumn
  /-- The place is in no index. -/
  index_ne : ∀ ix ∈ σ.indexes, sequenceColumn ∉ ix.2

/-- The declaration of a table. -/
def Table.schema (t : Table) : Schema :=
  ⟨t.primaryKey, t.mutableColumns, t.indexes.map fun ix => (ix.name, ix.columns)⟩

/-! ## Rows -/

/-- What holds of all that a list has, and of what is added behind it, holds of all there is then. -/
theorem forall_mem_concat {α : Type} {P : α → Prop} {l : List α} {a : α} (hl : ∀ x ∈ l, P x)
    (ha : P a) : ∀ x ∈ l ++ [a], P x :=
  List.forall_mem_append.2 ⟨hl, List.forall_mem_singleton.2 ha⟩

/-- The rows carry their keys and places, which they have to themselves, and so do the keys of the
unique indexes. -/
structure RowsSound (K : Value → Prop) (σ : Schema) (rows : List Row) : Prop where
  /-- The primary keys are of the kind. -/
  kind : ∀ r ∈ rows, K r.key
  /-- A row carries its primary key. -/
  get_key : ∀ r ∈ rows, r.columns.get σ.primaryKey = r.key
  /-- A row carries its place. -/
  get_seq : ∀ r ∈ rows, r.columns.get sequenceColumn = .int r.seq
  /-- The places ascend. -/
  seqs : rows.Pairwise fun r r' => r.seq < r'.seq
  /-- Two rows with one primary key have one place. -/
  seq_of_key : ∀ r ∈ rows, ∀ r' ∈ rows, r.key.sameKey r'.key = true → r.seq = r'.seq
  /-- The columns of the indexes are null or of the kind. -/
  fits : ∀ ix ∈ σ.indexes, ∀ r ∈ rows, r.columns.FitsKey K ix.2
  /-- Two rows with one key in an index have one place. -/
  seq_of_hasKey : ∀ ix ∈ σ.indexes, ∀ r ∈ rows, ∀ r' ∈ rows, ∀ key, KeyKind.All K key →
    r.columns.hasKey ix.2 key = true → r'.columns.hasKey ix.2 key = true → r.seq = r'.seq

namespace RowsSound

variable {K : Value → Prop} {σ : Schema} {rows : List Row}

/-- No rows are sound. -/
theorem nil : RowsSound K σ [] where
  kind := by simp
  get_key := by simp
  get_seq := by simp
  seqs := List.Pairwise.nil
  seq_of_key := by simp
  fits := by simp
  seq_of_hasKey := by simp

/-- Two rows with one place are the same row. -/
theorem eq_of_seq (h : RowsSound K σ rows) {r r' : Row} (hr : r ∈ rows) (hr' : r' ∈ rows)
    (hs : r.seq = r'.seq) : r = r' := by
  have hp : ∀ x ∈ rows, ∀ y ∈ rows, x.seq = y.seq → x = y :=
    List.Pairwise.forall_of_forall_of_flip (fun x _ _ => rfl)
      (h.seqs.imp fun hlt he => absurd he (Nat.ne_of_lt hlt))
      (h.seqs.imp fun hlt he => absurd he.symm (Nat.ne_of_lt hlt))
  exact hp r hr r' hr' hs

/-- The rows that remain when some go are sound. -/
theorem filter (h : RowsSound K σ rows) (keep : Row → Bool) :
    RowsSound K σ (rows.filter keep) where
  kind r hr := h.kind r (List.mem_of_mem_filter hr)
  get_key r hr := h.get_key r (List.mem_of_mem_filter hr)
  get_seq r hr := h.get_seq r (List.mem_of_mem_filter hr)
  seqs := h.seqs.filter keep
  seq_of_key r hr r' hr' := h.seq_of_key r (List.mem_of_mem_filter hr) r'
    (List.mem_of_mem_filter hr')
  fits ix hix r hr := h.fits ix hix r (List.mem_of_mem_filter hr)
  seq_of_hasKey ix hix r hr r' hr' := h.seq_of_hasKey ix hix r (List.mem_of_mem_filter hr) r'
    (List.mem_of_mem_filter hr')

/-- A row that comes last and shares no key with the others leaves the rows sound. -/
theorem append [KeyKind K] (h : RowsSound K σ rows) {row : Row} (hk : K row.key)
    (hkey : row.columns.get σ.primaryKey = row.key)
    (hseq : row.columns.get sequenceColumn = .int row.seq)
    (hlast : ∀ r ∈ rows, r.seq < row.seq)
    (hnew : ∀ r ∈ rows, r.key.sameKey row.key = false)
    (hfits : ∀ ix ∈ σ.indexes, row.columns.FitsKey K ix.2)
    (hapart : ∀ ix ∈ σ.indexes, ∀ key, KeyKind.All K key →
      row.columns.hasKey ix.2 key = true → ∀ r ∈ rows, r.columns.hasKey ix.2 key = false) :
    RowsSound K σ (rows ++ [row]) := by
  constructor
  case kind => exact forall_mem_concat h.kind hk
  case get_key => exact forall_mem_concat h.get_key hkey
  case get_seq => exact forall_mem_concat h.get_seq hseq
  case seqs =>
    rw [List.pairwise_append]
    refine ⟨h.seqs, List.pairwise_singleton _ _, fun r hr r' hr' => ?_⟩
    rw [List.mem_singleton.1 hr']
    exact hlast r hr
  case seq_of_key =>
    refine forall_mem_concat (fun r hr => forall_mem_concat (h.seq_of_key r hr) fun hs => ?_)
      (forall_mem_concat (fun r hr hs => ?_) fun _ => rfl)
    · rw [hnew r hr] at hs
      cases hs
    · have hs' := KeyKind.symm hk (h.kind r hr) hs
      rw [hnew r hr] at hs'
      cases hs'
  case fits => exact fun ix hix => forall_mem_concat (h.fits ix hix) (hfits ix hix)
  case seq_of_hasKey =>
    intro ix hix
    refine forall_mem_concat (fun r hr => forall_mem_concat (h.seq_of_hasKey ix hix r hr)
      fun key hK hk hk' => ?_) (forall_mem_concat (fun r hr key hK hk hk' => ?_) fun _ _ _ _ => rfl)
    · rw [hapart ix hix key hK hk' r hr] at hk
      cases hk
    · rw [hapart ix hix key hK hk r hr] at hk'
      cases hk'

/-- A row that keeps its key and place and shares no key with the others may get other columns. -/
theorem replace (h : RowsSound K σ rows) {row : Row} (hr : row ∈ rows) {columns : Fields}
    (hkey : columns.get σ.primaryKey = row.key)
    (hseq : columns.get sequenceColumn = .int row.seq)
    (hfits : ∀ ix ∈ σ.indexes, columns.FitsKey K ix.2)
    (hapart : ∀ ix ∈ σ.indexes, ∀ key, KeyKind.All K key → columns.hasKey ix.2 key = true →
      ∀ r ∈ rows, r.seq ≠ row.seq → r.columns.hasKey ix.2 key = false) :
    RowsSound K σ (rows.map fun r => if r.seq = row.seq then { r with columns } else r) := by
  -- a row afterwards is either one of another place or the given row with the new columns
  have hall : ∀ {P : Row → Prop}, (∀ r ∈ rows, r.seq ≠ row.seq → P r) → P { row with columns } →
      ∀ r ∈ rows.map fun r => if r.seq = row.seq then { r with columns } else r, P r := by
    intro P hothers hrow r hmem
    obtain ⟨r', hr', rfl⟩ := List.mem_map.1 hmem
    by_cases hs : r'.seq = row.seq
    · rw [if_pos hs, h.eq_of_seq hr' hr hs]
      exact hrow
    · rw [if_neg hs]
      exact hothers r' hr' hs
  constructor
  case kind => exact hall (fun r hr _ => h.kind r hr) (h.kind row hr)
  case get_key => exact hall (fun r hr _ => h.get_key r hr) hkey
  case get_seq => exact hall (fun r hr _ => h.get_seq r hr) hseq
  case seqs =>
    rw [List.pairwise_map]
    refine h.seqs.imp fun {a b} hlt => ?_
    have hsame : ∀ r : Row, (if r.seq = row.seq then { r with columns } else r).seq = r.seq :=
      fun r => by split <;> rfl
    rw [hsame, hsame]
    exact hlt
  case seq_of_key =>
    exact hall (fun r h1 _ => hall (fun r' h2 _ => h.seq_of_key r h1 r' h2) (h.seq_of_key r h1 row hr))
      (hall (fun r' h2 _ => h.seq_of_key row hr r' h2) fun _ => rfl)
  case fits => exact fun ix hix => hall (fun r hr _ => h.fits ix hix r hr) (hfits ix hix)
  case seq_of_hasKey =>
    intro ix hix
    refine hall (fun r h1 hne => hall (fun r' h2 _ => h.seq_of_hasKey ix hix r h1 r' h2)
      fun key hK hk hk' => ?_) (hall (fun r h2 hne key hK hk hk' => ?_) fun _ _ _ _ => rfl)
    · rw [hapart ix hix key hK hk' r h1 hne] at hk
      cases hk
    · rw [hapart ix hix key hK hk r h2 hne] at hk'
      cases hk'

end RowsSound

/-- The rows have their places to themselves, and so do the keys of the unique indexes. Nothing is
asked of their other columns. -/
structure RowsApart (K : Value → Prop) (σ : Schema) (rows : List Row) : Prop where
  /-- The places ascend. -/
  seqs : rows.Pairwise fun r r' => r.seq < r'.seq
  /-- The keys in the indexes are of the kind. -/
  keyFits : ∀ ix ∈ σ.indexes, ∀ r ∈ rows, r.columns.KeyFits K ix.2
  /-- Two rows with one key in an index have one place. -/
  seq_of_hasKey : ∀ ix ∈ σ.indexes, ∀ r ∈ rows, ∀ r' ∈ rows, ∀ key, KeyKind.All K key →
    r.columns.hasKey ix.2 key = true → r'.columns.hasKey ix.2 key = true → r.seq = r'.seq

/-- Two rows with one place are the same row if the places ascend. -/
theorem Row.eq_of_seq {rows : List Row} (h : rows.Pairwise fun r r' => r.seq < r'.seq) {r r' : Row}
    (hr : r ∈ rows) (hr' : r' ∈ rows) (hs : r.seq = r'.seq) : r = r' := by
  have hp : ∀ x ∈ rows, ∀ y ∈ rows, x.seq = y.seq → x = y :=
    List.Pairwise.forall_of_forall_of_flip (fun x _ _ => rfl)
      (h.imp fun hlt he => absurd he (Nat.ne_of_lt hlt))
      (h.imp fun hlt he => absurd he.symm (Nat.ne_of_lt hlt))
  exact hp r hr r' hr' hs

/-- Sound rows have their places and keys to themselves. -/
theorem RowsSound.apart {K : Value → Prop} {σ : Schema} {rows : List Row}
    (h : RowsSound K σ rows) : RowsApart K σ rows :=
  ⟨h.seqs, fun ix hix r hr => (h.fits ix hix r hr).keyFits, h.seq_of_hasKey⟩

/-- An index that lists the rows goes on listing them when a row is taken out and another one of the
same place is entered in its stead. -/
theorem Index.Lists.replace {K : Value → Prop} [KeyKind K] {entered : Row → Value} {ix : Index}
    {rows rows' : List Row} {row row' : Row} (h : ix.Lists K entered rows) {σ : Schema}
    {name : String} (hix : (name, ix.columns) ∈ σ.indexes) (hrows : RowsApart K σ rows)
    (hrows' : RowsApart K σ rows') (hr : row ∈ rows) (hr' : row' ∈ rows')
    (hseq : row'.seq = row.seq) (hm : ∀ r, r.seq ≠ row.seq → (r ∈ rows' ↔ r ∈ rows)) :
    ((ix.remove row.columns).add row'.columns (entered row')).Lists K entered rows' := by
  -- in between, the rows are those of the other places
  let others := rows.filter fun r => r.seq ≠ row.seq
  have ho : ∀ r, r ∈ others ↔ r ∈ rows ∧ r.seq ≠ row.seq := fun r => by simp [others]
  have hout : (ix.remove row.columns).Lists K entered others := by
    refine h.remove (hrows.keyFits _ hix row hr) (fun key hK hh r hro => ?_) fun r => ?_
    · obtain ⟨hmem, hne⟩ := (ho r).1 hro
      rw [Bool.eq_false_iff]
      exact fun hrk => hne (hrows.seq_of_hasKey _ hix r hmem row hr key hK hrk hh)
    · rw [ho]
      constructor
      · intro hmem
        by_cases hs : r.seq = row.seq
        · exact Or.inr (Row.eq_of_seq hrows.seqs hmem hr hs)
        · exact Or.inl ⟨hmem, hs⟩
      · rintro (⟨hmem, -⟩ | rfl)
        · exact hmem
        · exact hr
  have hcols : (ix.remove row.columns).columns = ix.columns := Index.columns_remove ix row.columns
  refine hout.add ?_ (fun key hK hh r hro => ?_) fun r => ?_
  · rw [hcols]
    exact hrows'.keyFits _ hix row' hr'
  · obtain ⟨hmem, hne⟩ := (ho r).1 hro
    rw [hcols] at hh ⊢
    rw [Bool.eq_false_iff]
    intro hrk
    have hs := hrows'.seq_of_hasKey _ hix r ((hm r hne).2 hmem) row' hr' key hK hrk hh
    exact hne (hs.trans hseq)
  · rw [ho]
    constructor
    · intro hmem
      by_cases hs : r.seq = row.seq
      · exact Or.inr (Row.eq_of_seq hrows'.seqs hmem hr' (hs.trans hseq.symm))
      · exact Or.inl ⟨(hm r hs).1 hmem, hs⟩
    · rintro (⟨hmem, hne⟩ | rfl)
      · exact (hm r hne).2 hmem
      · exact hr'

/-- An index that agrees with the rows goes on agreeing when a row is taken out and another one of
the same place is entered in its stead. -/
theorem Index.Sound.replace {K : Value → Prop} [KeyKind K] {ix : Index} {rows rows' : List Row}
    {row row' : Row} (h : ix.Sound K rows) {σ : Schema} {name : String}
    (hix : (name, ix.columns) ∈ σ.indexes) (hrows : RowsSound K σ rows)
    (hrows' : RowsSound K σ rows') (hr : row ∈ rows) (hr' : row' ∈ rows')
    (hseq : row'.seq = row.seq) (hm : ∀ r, r.seq ≠ row.seq → (r ∈ rows' ↔ r ∈ rows)) :
    ((ix.remove row.columns).add row'.columns row'.key).Sound K rows' :=
  sound_iff.2 ((sound_iff.1 h).replace hix hrows.apart hrows'.apart hr hr' hseq hm)

/-! ## Tables -/

namespace Table

variable {K : Value → Prop} {t : Table}

/-- The rows are sound and every index agrees with them. -/
structure Sound (K : Value → Prop) (t : Table) : Prop where
  /-- The declaration is proper. -/
  proper : t.schema.Proper
  /-- The rows have their keys and places to themselves. -/
  rowsSound : RowsSound K t.schema t.rows
  /-- The indexes agree with the rows. -/
  indexSound : ∀ ix ∈ t.indexes, ix.Sound K t.rows

/-- A table without rows is sound if its indexes are empty. -/
theorem sound_of_empty {K : Value → Prop} {t : Table} (hp : t.schema.Proper) (hr : t.rows = [])
    (hi : ∀ ix ∈ t.indexes, ix.entries = []) : t.Sound K := by
  refine ⟨hp, ?_, fun ix hix => ?_⟩
  · rw [hr]
    exact .nil
  · have hentries := hi ix hix
    rw [hr]
    refine ⟨fun e he => ?_, fun key _ pk => ?_⟩
    · rw [hentries] at he
      cases he
    · rw [Index.find?, hentries]
      simp

/-- The places of the rows ascend. -/
def Ascending (t : Table) : Prop := t.rows.Pairwise fun r r' => r.seq < r'.seq

/-- The places in a sound table ascend. -/
theorem Sound.ascending (h : t.Sound K) : t.Ascending := h.rowsSound.seqs

/-- The columns of an index are declared. -/
theorem mem_schema {ix : Index} (h : ix ∈ t.indexes) :
    (ix.name, ix.columns) ∈ t.schema.indexes :=
  List.mem_map.2 ⟨ix, h, rfl⟩

/-- Entering a row in the indexes keeps the declaration. -/
@[simp] theorem schema_index (t : Table) (row : Fields) : (t.index row).schema = t.schema := by
  simp [index, schema]

/-- Removing keys from the indexes keeps the declaration. -/
@[simp] theorem schema_unindex (t : Table) (row : Fields) :
    (t.unindex row).schema = t.schema := by
  simp [unindex, schema]

/-- Adding a row keeps the declaration. -/
@[simp] theorem schema_append (t : Table) (row : Row) : (t.append row).schema = t.schema := by
  rw [append, schema_index]
  rfl

/-- Replacing columns keeps the declaration. -/
@[simp] theorem schema_setColumns (t : Table) (seq : Nat) (columns : Fields) :
    (t.setColumns seq columns).schema = t.schema := rfl

/-- Taking a row out keeps the declaration. -/
@[simp] theorem schema_discard (t : Table) (seq : Nat) : (t.discard seq).schema = t.schema := by
  unfold discard
  split
  · rfl
  · rw [schema_unindex]
    rfl

/-! ### Looking rows up -/

/-- A row that is found is a row of the table with that primary key. -/
theorem find?_some {key : Value} {row : Row} (h : t.find? key = some row) :
    row ∈ t.rows ∧ row.key.sameKey key = true :=
  ⟨List.mem_of_find?_eq_some h, by simpa using List.find?_some h⟩

/-- No row is found if none has the primary key. -/
theorem find?_none {key : Value} (h : t.find? key = none) :
    ∀ r ∈ t.rows, r.key.sameKey key = false := by
  intro r hr
  simpa using List.find?_eq_none.1 h r hr

/-- The row with a place is found by it. -/
theorem Ascending.find?_seq (h : t.Ascending) {row : Row} (hr : row ∈ t.rows) :
    (t.rows.find? fun r => r.seq = row.seq) = some row := by
  cases hf : t.rows.find? fun r => r.seq = row.seq with
  | none => simpa using List.find?_eq_none.1 hf row hr
  | some found =>
    have hs : found.seq = row.seq := by simpa using List.find?_some hf
    rw [Row.eq_of_seq h (List.mem_of_find?_eq_some hf) hr hs]

/-- A row that no index refuses shares its keys in them with no other row. -/
theorem Sound.apart_of_refusal?_eq_none (h : t.Sound K) {name : String} {columns : Fields}
    (hn : t.refusal? name columns = none) {ix : Index} (hix : ix ∈ t.indexes)
    (hf : columns.FitsKey K ix.columns) [KeyKind K] {key : List Value} (hk : KeyKind.All K key)
    (hh : columns.hasKey ix.columns key = true) :
    ∀ r ∈ t.rows, r.columns.hasKey ix.columns key = false := by
  have hix' := List.findSome?_eq_none_iff.1 hn ix hix
  rw [Index.keyOf?_eq] at hix'
  unfold Fields.hasKey at hh
  cases hc : columns.keyIn? ix.columns with
  | none => simp [hc] at hh
  | some own =>
    have ho : KeyKind.All K own := hf.all hc
    rw [hc] at hix' hh
    simp only [KeyKind.allHashable ho, Bool.not_true, Bool.false_eq_true, if_false] at hix'
    have hfree : ix.find? own = none := by
      cases hfind : ix.find? own with
      | none => rfl
      | some pk => simp [hfind] at hix'
    have hrows := ((h.indexSound ix hix).find_eq_none ho).1 hfree
    intro r hr
    rw [Bool.eq_false_iff]
    intro hrk
    have hown := (h.rowsSound.fits _ (mem_schema hix) r hr).keyFits.hasKey_congr hk ho hrk
      (KeyKind.sameKeys_symm ho hk hh)
    rw [hrows r hr] at hown
    cases hown

/-- What an index refuses of a row that fits is a taken key. -/
theorem duplicate_of_refusal? {name : String} {columns : Fields} [KeyKind K] {e : Failure}
    (h : t.refusal? name columns = some e)
    (hf : ∀ ix ∈ t.indexes, columns.FitsKey K ix.columns) :
    ∃ ix ∈ t.indexes, ∃ key pk, columns.keyIn? ix.columns = some key ∧ ix.find? key = some pk ∧
      e = .duplicate name ix.name key := by
  obtain ⟨ix, hix, he⟩ := List.exists_of_findSome?_eq_some h
  rw [Index.keyOf?_eq] at he
  cases hk : columns.keyIn? ix.columns with
  | none => simp [hk] at he
  | some key =>
    rw [hk] at he
    simp only [KeyKind.allHashable ((hf ix hix).all hk), Bool.not_true, Bool.false_eq_true,
      if_false] at he
    cases hfind : ix.find? key with
    | none => simp [hfind] at he
    | some pk =>
      refine ⟨ix, hix, key, pk, hk, hfind, ?_⟩
      rw [hfind] at he
      exact (Option.some.inj he).symm

/-! ### Changes -/

variable [KeyKind K]

/-- A row that no index refuses and that comes last leaves the table sound. -/
theorem Sound.append (h : t.Sound K) {row : Row} {name : String}
    (hn : t.refusal? name row.columns = none) (hk : K row.key)
    (hkey : row.columns.get t.primaryKey = row.key)
    (hseq : row.columns.get sequenceColumn = .int row.seq)
    (hlast : ∀ r ∈ t.rows, r.seq < row.seq)
    (hnew : ∀ r ∈ t.rows, r.key.sameKey row.key = false)
    (hfits : ∀ ix ∈ t.schema.indexes, row.columns.FitsKey K ix.2) : (t.append row).Sound K := by
  refine ⟨?_, ?_, ?_⟩
  · rw [schema_append]
    exact h.proper
  · rw [schema_append, rows_append]
    refine h.rowsSound.append hk hkey hseq hlast hnew hfits fun ix hix key hK hh => ?_
    obtain ⟨i, hi, rfl⟩ := List.mem_map.1 hix
    exact h.apart_of_refusal?_eq_none hn hi (hfits _ hix) hK hh
  · intro ix hix
    obtain ⟨i, hi, rfl⟩ := List.mem_map.1 hix
    rw [rows_append, show row.columns.get _ = row.key from hkey]
    refine (h.indexSound i hi).add (hfits _ (mem_schema hi)) ?_ fun r => by simp
    exact fun key hK hh => h.apart_of_refusal?_eq_none hn hi (hfits _ (mem_schema hi)) hK hh

/-- The table with the row of that place taken out of the indexes, given other columns and entered
again. -/
def rewrite (t : Table) (row : Row) (columns : Fields) : Table :=
  ((t.unindex row.columns).setColumns row.seq columns).index columns

/-- Rewriting a row keeps the declaration. -/
@[simp] theorem schema_rewrite (t : Table) (row : Row) (columns : Fields) :
    (t.rewrite row columns).schema = t.schema := by
  simp [rewrite]

/-- The rows after rewriting one are the rows with the columns replaced. -/
theorem rows_rewrite (t : Table) (row : Row) (columns : Fields) :
    (t.rewrite row columns).rows =
      t.rows.map fun r => if r.seq = row.seq then { r with columns } else r := rfl

/-- Rewriting a row keeps the places. -/
theorem Ascending.rewrite (h : t.Ascending) (row : Row) (columns : Fields) :
    (t.rewrite row columns).Ascending := by
  have hsame : ∀ r : Row, (if r.seq = row.seq then { r with columns } else r).seq = r.seq :=
    fun r => by split <;> rfl
  rw [Ascending, rows_rewrite, List.pairwise_map]
  refine h.imp fun {a b} hlt => ?_
  rw [hsame, hsame]
  exact hlt

/-- Rewriting a row leaves the table sound if the rows are sound afterwards. -/
theorem Sound.rewrite (h : t.Sound K) {row : Row} (hr : row ∈ t.rows) {columns : Fields}
    (hrows : RowsSound K t.schema (t.rewrite row columns).rows) :
    (t.rewrite row columns).Sound K := by
  refine ⟨by rw [schema_rewrite]; exact h.proper, by rw [schema_rewrite]; exact hrows, ?_⟩
  have hr' : { row with columns } ∈ (t.rewrite row columns).rows := by
    rw [rows_rewrite]
    exact List.mem_map.2 ⟨row, hr, if_pos rfl⟩
  intro ix hix
  obtain ⟨i', hi', rfl⟩ := List.mem_map.1 hix
  obtain ⟨i, hi, rfl⟩ := List.mem_map.1 hi'
  have hkey : columns.get ((t.unindex row.columns).setColumns row.seq columns).primaryKey =
      row.key := hrows.get_key _ hr'
  rw [hkey]
  refine (h.indexSound i hi).replace (mem_schema hi) h.rowsSound hrows hr hr' rfl fun r hne => ?_
  rw [rows_rewrite, List.mem_map]
  constructor
  · rintro ⟨r', hr', rfl⟩
    by_cases hs : r'.seq = row.seq
    · rw [if_pos hs] at hne
      exact absurd hs hne
    · rwa [if_neg hs]
  · exact fun hmem => ⟨r, hmem, if_neg hne⟩

/-- Taking a row out of the indexes and entering it again leaves the table sound. -/
theorem Sound.reindex (h : t.Sound K) {row : Row} (hr : row ∈ t.rows) :
    ((t.unindex row.columns).index row.columns).Sound K := by
  refine ⟨by simpa using h.proper, by simpa using h.rowsSound, fun ix hix => ?_⟩
  obtain ⟨i', hi', rfl⟩ := List.mem_map.1 hix
  obtain ⟨i, hi, rfl⟩ := List.mem_map.1 hi'
  have hkey : row.columns.get (t.unindex row.columns).primaryKey = row.key :=
    h.rowsSound.get_key row hr
  rw [hkey]
  exact (h.indexSound i hi).replace (mem_schema hi) h.rowsSound h.rowsSound hr hr rfl
    fun r _ => Iff.rfl

/-- Taking the row of a place out leaves the table sound. -/
theorem Sound.discard (h : t.Sound K) (seq : Nat) : (t.discard seq).Sound K := by
  refine ⟨by rw [schema_discard]; exact h.proper, ?_, ?_⟩
  · rw [schema_discard]
    unfold Table.discard
    split
    · exact h.rowsSound
    · exact h.rowsSound.filter _
  · unfold Table.discard
    split
    · exact h.indexSound
    · rename_i row hf
      have hr := List.mem_of_find?_eq_some hf
      have hs : row.seq = seq := by simpa using List.find?_some hf
      intro ix hix
      obtain ⟨i, hi, rfl⟩ := List.mem_map.1 hix
      -- the keys of the row are taken out of each index, which no other row of the table has
      refine (h.indexSound i hi).remove (h.rowsSound.fits _ (mem_schema hi) row hr)
        (fun key hK hh r hro => ?_) fun r => ?_
      · have hmem : r ∈ t.rows ∧ r.seq ≠ seq := by simpa using hro
        rw [Bool.eq_false_iff]
        intro hrk
        have hsr := h.rowsSound.seq_of_hasKey _ (mem_schema hi) r hmem.1 row hr key hK hrk hh
        exact hmem.2 (hsr.trans hs)
      · simp only [rows_unindex, List.mem_filter, decide_eq_true_eq]
        constructor
        · intro hmem
          by_cases hrs : r.seq = seq
          · exact Or.inr (h.rowsSound.eq_of_seq hmem hr (hrs.trans hs.symm))
          · exact Or.inl ⟨hmem, hrs⟩
        · rintro (⟨hmem, -⟩ | rfl)
          · exact hmem
          · exact hr

end Table

end RewardLedger
