import Mathlib.Data.List.Forall2
import RewardLedger.Proofs.Store.Table
import RewardLedger.Store.Basic

/-!
# Taking changes back

Taking the changes of a transaction back leads to a store that looks like the one at its start: the
same rows at the same places, except that a column which a change added stays as an explicit null
(`Store.Alike`). The proof follows the list of changes. Behind each of them stands a sound store that
looks like what taking the change back gives (`Store.Back`), and this is all that the steps of a
transaction have to keep up.
-/

namespace RewardLedger

/-! ## Columns -/

namespace Fields

/-- Every column is the same, except that one which is absent from the second may be null in the
first. -/
def Agrees (a b : Fields) : Prop :=
  ∀ c, a.find? c = b.find? c ∨ (b.find? c = none ∧ a.find? c = some .null)

variable {a b c : Fields}

/-- Columns agree with themselves. -/
theorem Agrees.refl (a : Fields) : a.Agrees a := fun _ => Or.inl rfl

/-- Agreement passes on. -/
theorem Agrees.trans (h : a.Agrees b) (h' : b.Agrees c) : a.Agrees c := by
  intro name
  rcases h name with h | ⟨hb, ha⟩
  · rcases h' name with h' | ⟨hc, hb⟩
    · exact Or.inl (h.trans h')
    · exact Or.inr ⟨hc, h.trans hb⟩
  · rcases h' name with h' | ⟨hc, hb'⟩
    · exact Or.inr ⟨h'.symm.trans hb, ha⟩
    · rw [hb] at hb'
      cases hb'

/-- Columns that agree have the same values, an absent column counting as null. -/
theorem Agrees.get_eq (h : a.Agrees b) : a.get = b.get := by
  funext name
  unfold get
  rcases h name with h | ⟨hb, ha⟩
  · rw [h]
  · rw [hb, ha]
    rfl

/-- A column that is there is the same. -/
theorem Agrees.find?_of_some (h : a.Agrees b) {name : String} {v : Value}
    (hv : b.find? name = some v) : a.find? name = some v := by
  rcases h name with h | ⟨hb, -⟩
  · rw [h, hv]
  · rw [hb] at hv
    cases hv

/-- Setting a column keeps columns in agreement. -/
theorem Agrees.put (h : a.Agrees b) (name : String) (v : Value) :
    (a.put name v).Agrees (b.put name v) := by
  intro other
  by_cases ho : other = name
  · subst ho
    simp
  · rw [find?_put_of_ne a v ho, find?_put_of_ne b v ho]
    exact h other

/-- Setting columns keeps columns in agreement. -/
theorem Agrees.putAll (h : a.Agrees b) (changes : Fields) :
    (a.putAll changes).Agrees (b.putAll changes) := by
  unfold Fields.putAll
  induction changes generalizing a b with
  | nil => exact h
  | cons change rest ih => exact ih (h.put change.1 change.2)

/-- Setting columns leaves the others alone. -/
theorem find?_putAll_of_notMem (fs : Fields) {changes : Fields} {name : String}
    (h : name ∉ changes.names) : (fs.putAll changes).find? name = fs.find? name := by
  unfold putAll
  induction changes generalizing fs with
  | nil => rfl
  | cons change rest ih =>
    simp only [names, List.map_cons, List.mem_cons, not_or] at h
    rw [List.foldl_cons, ih _ h.2, find?_put_of_ne fs _ h.1]

/-- Changes of columns that are not among the others do not matter for the key. -/
theorem keyIn?_putAll_of_notMem (fs : Fields) {changes : Fields} {columns : List String}
    (h : ∀ c ∈ columns, c ∉ changes.names) :
    (fs.putAll changes).keyIn? columns = fs.keyIn? columns := by
  have hmap : columns.map (fs.putAll changes).get = columns.map fs.get :=
    List.map_congr_left fun c hc => by rw [get, get, find?_putAll_of_notMem fs (h c hc)]
  rw [keyIn?, keyIn?, hmap]

/-- A field whose name is not there is not found. -/
theorem find?_eq_none_of_notMem {fs : Fields} {name : String} (h : name ∉ fs.names) :
    fs.find? name = none := by
  induction fs with
  | nil => rfl
  | cons field rest ih =>
    simp only [names, List.map_cons, List.mem_cons, not_or] at h
    rw [find?, if_neg (Ne.symm h.1), ih h.2]

/-- Setting different columns sets each of them and leaves the others alone. -/
theorem find?_putAll_of_nodup (fs : Fields) {changes : Fields} (h : changes.names.Nodup)
    (name : String) :
    (fs.putAll changes).find? name = (changes.find? name).or (fs.find? name) := by
  unfold putAll
  induction changes generalizing fs with
  | nil => rfl
  | cons change rest ih =>
    obtain ⟨hnot, hrest⟩ := List.nodup_cons.1 h
    rw [List.foldl_cons, ih _ hrest]
    by_cases hc : change.1 = name
    · subst hc
      have hno : Fields.find? rest change.1 = none := find?_eq_none_of_notMem hnot
      rw [hno, find?_put_self, find?, if_pos rfl]
      rfl
    · rw [find?_put_of_ne fs _ (Ne.symm hc), find?, if_neg hc]

/-- A column that has been set has a new value, and any other the old one. -/
theorem get_putAll (fs changes : Fields) (name : String) :
    (fs.putAll changes).get name = fs.get name ∨
      ∃ change ∈ changes, change.1 = name ∧ (fs.putAll changes).get name = change.2 := by
  unfold putAll
  induction changes generalizing fs with
  | nil => exact .inl rfl
  | cons first rest ih =>
    rw [List.foldl_cons]
    rcases ih (fs.put first.1 first.2) with h | ⟨change, hmem, hname, h⟩
    · by_cases hf : name = first.1
      · subst hf
        rw [get_put_self] at h
        exact .inr ⟨first, List.mem_cons_self, rfl, h⟩
      · rw [get_put_of_ne fs _ hf] at h
        exact .inl h
    · exact .inr ⟨change, List.mem_cons_of_mem _ hmem, hname, h⟩

/-- Setting columns to what they should be sets them to that. -/
theorem find?_putAll_map (fs : Fields) (f : String → Value) (columns : List String)
    (name : String) : (fs.putAll (columns.map fun c => (c, f c))).find? name =
      if name ∈ columns then some (f name) else fs.find? name := by
  unfold putAll
  induction columns generalizing fs with
  | nil => rfl
  | cons first rest ih =>
    rw [List.map_cons, List.foldl_cons, ih]
    by_cases hr : name ∈ rest
    · rw [if_pos hr, if_pos (List.mem_cons_of_mem first hr)]
    · rw [if_neg hr]
      by_cases hf : name = first
      · subst hf
        rw [if_pos List.mem_cons_self, find?_put_self]
      · rw [if_neg (by simp [hf, hr]), find?_put_of_ne fs _ hf]

/-- Changed columns agree with the old ones once they have their old values back. -/
theorem agrees_putBack (fs changes : Fields) :
    ((fs.putAll changes).putAll (changes.names.map fun c => (c, fs.get c))).Agrees fs := by
  intro name
  rw [find?_putAll_map]
  by_cases h : name ∈ changes.names
  · rw [if_pos h, get]
    cases hf : fs.find? name with
    | none => exact Or.inr ⟨rfl, rfl⟩
    | some v => exact Or.inl rfl
  · rw [if_neg h, find?_putAll_of_notMem fs h]
    exact Or.inl rfl

end Fields

/-! ## Rows and tables -/

/-- The rows have the same place and key, and their columns agree. -/
structure Row.Alike (r r' : Row) : Prop where
  /-- The place is the same. -/
  seq_eq : r.seq = r'.seq
  /-- The primary key is the same. -/
  key_eq : r.key = r'.key
  /-- The columns agree. -/
  columns : r.columns.Agrees r'.columns

/-- A row is alike to itself. -/
theorem Row.Alike.refl (r : Row) : r.Alike r := ⟨rfl, rfl, Fields.Agrees.refl _⟩

/-- Being alike passes on. -/
theorem Row.Alike.trans {r r' r'' : Row} (h : r.Alike r') (h' : r'.Alike r'') : r.Alike r'' :=
  ⟨h.seq_eq.trans h'.seq_eq, h.key_eq.trans h'.key_eq, h.columns.trans h'.columns⟩

/-- Rows that are alike have the same keys in all columns. -/
theorem Row.Alike.hasKey_eq {r r' : Row} (h : r.Alike r') (columns : List String)
    (key : List Value) : r.columns.hasKey columns key = r'.columns.hasKey columns key := by
  unfold Fields.hasKey Fields.keyIn?
  rw [h.columns.get_eq]

/-- An item of the first list stands beside one of the second. -/
theorem exists_mem_of_forall₂ {α β : Type} {R : α → β → Prop} {as : List α} {bs : List β}
    (h : List.Forall₂ R as bs) {a : α} (ha : a ∈ as) : ∃ b ∈ bs, R a b := by
  induction h with
  | nil => cases ha
  | cons hab _ ih =>
    rcases List.mem_cons.1 ha with rfl | ha
    · exact ⟨_, List.mem_cons_self, hab⟩
    · obtain ⟨b, hb, hR⟩ := ih ha
      exact ⟨b, List.mem_cons_of_mem _ hb, hR⟩

/-- Rows that are alike have the same places. -/
theorem map_seq_of_alike {rows rows' : List Row} (h : List.Forall₂ Row.Alike rows rows') :
    rows.map Row.seq = rows'.map Row.seq := by
  induction h with
  | nil => rfl
  | cons hab _ ih => rw [List.map_cons, List.map_cons, hab.seq_eq, ih]

/-- Rows that are alike to sound rows are sound. -/
theorem RowsSound.of_alike {K : Value → Prop} {σ : Schema} {rows rows' : List Row}
    (h : RowsSound K σ rows') (ha : List.Forall₂ Row.Alike rows rows') : RowsSound K σ rows where
  kind r hr := by
    obtain ⟨r', hr', hrr⟩ := exists_mem_of_forall₂ ha hr
    rw [hrr.key_eq]
    exact h.kind r' hr'
  get_key r hr := by
    obtain ⟨r', hr', hrr⟩ := exists_mem_of_forall₂ ha hr
    rw [hrr.columns.get_eq, hrr.key_eq]
    exact h.get_key r' hr'
  get_seq r hr := by
    obtain ⟨r', hr', hrr⟩ := exists_mem_of_forall₂ ha hr
    rw [hrr.columns.get_eq, hrr.seq_eq]
    exact h.get_seq r' hr'
  seqs := by
    have hs := h.seqs
    rw [← List.pairwise_map, ← map_seq_of_alike ha, List.pairwise_map] at hs
    exact hs
  seq_of_key r hr r' hr' hs := by
    obtain ⟨q, hq, hrq⟩ := exists_mem_of_forall₂ ha hr
    obtain ⟨q', hq', hrq'⟩ := exists_mem_of_forall₂ ha hr'
    rw [hrq.key_eq, hrq'.key_eq] at hs
    rw [hrq.seq_eq, hrq'.seq_eq]
    exact h.seq_of_key q hq q' hq' hs
  fits ix hix r hr := by
    obtain ⟨r', hr', hrr⟩ := exists_mem_of_forall₂ ha hr
    intro c hc
    rw [hrr.columns.get_eq]
    exact h.fits ix hix r' hr' c hc
  seq_of_hasKey ix hix r hr r' hr' key hK h1 h2 := by
    obtain ⟨q, hq, hrq⟩ := exists_mem_of_forall₂ ha hr
    obtain ⟨q', hq', hrq'⟩ := exists_mem_of_forall₂ ha hr'
    rw [hrq.hasKey_eq] at h1
    rw [hrq'.hasKey_eq] at h2
    rw [hrq.seq_eq, hrq'.seq_eq]
    exact h.seq_of_hasKey ix hix q hq q' hq' key hK h1 h2

namespace Table

/-- The tables have the same declaration, and their rows are alike. -/
structure Alike (t t' : Table) : Prop where
  /-- The declaration is the same. -/
  schema_eq : t.schema = t'.schema
  /-- The rows are alike. -/
  rows : List.Forall₂ Row.Alike t.rows t'.rows

/-- A table is alike to itself. -/
theorem Alike.refl (t : Table) : t.Alike t :=
  ⟨rfl, List.forall₂_same.2 fun r _ => Row.Alike.refl r⟩

/-- Being alike passes on. -/
theorem Alike.trans {t t' t'' : Table} (h : t.Alike t') (h' : t'.Alike t'') : t.Alike t'' := by
  refine ⟨h.schema_eq.trans h'.schema_eq, ?_⟩
  have hrows := h.rows
  have hrows' := h'.rows
  generalize t.rows = rows, t'.rows = rows', t''.rows = rows'' at hrows hrows' ⊢
  induction hrows generalizing rows'' with
  | nil =>
    cases hrows'
    exact .nil
  | cons hab _ ih =>
    cases hrows' with
    | cons hbc hrest => exact .cons (hab.trans hbc) (ih _ hrest)

/-- Taking the row of a place out leaves the rows of the other places. -/
theorem rows_discard (t : Table) (seq : Nat) :
    (t.discard seq).rows = t.rows.filter fun r => r.seq ≠ seq := by
  unfold discard
  split
  · rename_i hf
    rw [eq_comm, List.filter_eq_self]
    intro r hr
    simpa using List.find?_eq_none.1 hf r hr
  · rfl

/-- Tables that are alike stay alike when the row of a place is taken out of both. -/
theorem Alike.discard {t t' : Table} (h : t.Alike t') (seq : Nat) :
    (t.discard seq).Alike (t'.discard seq) := by
  refine ⟨by rw [schema_discard, schema_discard, h.schema_eq], ?_⟩
  rw [rows_discard, rows_discard]
  have hrows := h.rows
  generalize t.rows = rows, t'.rows = rows' at hrows ⊢
  induction hrows with
  | nil => exact .nil
  | cons hab _ ih =>
    rw [List.filter_cons, List.filter_cons, hab.seq_eq]
    split
    · exact .cons hab ih
    · exact ih

/-- Restoring columns keeps the declaration. -/
@[simp] theorem schema_restore (t : Table) (seq : Nat) (previous : Fields) :
    (t.restore seq previous).schema = t.schema := by
  unfold restore
  split
  · rfl
  · simp

variable {K : Value → Prop}

/-- Restoring columns sets them in the row of that place. -/
theorem Ascending.rows_restore {t : Table} (h : t.Ascending) (seq : Nat) (previous : Fields) :
    (t.restore seq previous).rows = t.rows.map fun r =>
      if r.seq = seq then { r with columns := r.columns.putAll previous } else r := by
  unfold restore
  split
  · rename_i hf
    symm
    rw [List.map_congr_left (g := id), List.map_id]
    intro r hr
    exact if_neg (by simpa using List.find?_eq_none.1 hf r hr)
  · rename_i row hf
    rw [rows_index]
    refine List.map_congr_left fun r hr => ?_
    by_cases hs : r.seq = seq
    · have hrow : row.seq = seq := by simpa using List.find?_some hf
      rw [if_pos hs, if_pos hs,
        Row.eq_of_seq h hr (List.mem_of_find?_eq_some hf) (hs.trans hrow.symm)]
    · rw [if_neg hs, if_neg hs]

/-- Tables that are alike stay alike when columns of a row are restored in both. -/
theorem Alike.restore {t t' : Table} (h : t.Alike t') (hs : t.Ascending) (hs' : t'.Ascending)
    (seq : Nat) (previous : Fields) :
    (t.restore seq previous).Alike (t'.restore seq previous) := by
  refine ⟨by rw [schema_restore, schema_restore, h.schema_eq], ?_⟩
  rw [hs.rows_restore, hs'.rows_restore]
  have hrows := h.rows
  generalize t.rows = rows, t'.rows = rows' at hrows ⊢
  induction hrows with
  | nil => exact .nil
  | cons hab _ ih =>
    refine .cons ?_ ih
    dsimp only
    rw [hab.seq_eq]
    split
    · exact ⟨rfl, hab.key_eq, hab.columns.putAll previous⟩
    · exact hab

/-- Restoring columns leaves a table sound that is then alike to a sound one. -/
theorem Sound.restore [KeyKind K] {t t' : Table} (h : t.Sound K) {seq : Nat} {previous : Fields}
    (ha : (t.restore seq previous).Alike t') (hs : t'.Sound K) :
    (t.restore seq previous).Sound K := by
  have hrows : RowsSound K t.schema (t.restore seq previous).rows := by
    have hschema := ha.schema_eq
    rw [schema_restore] at hschema
    rw [hschema]
    exact hs.rowsSound.of_alike ha.rows
  unfold Table.restore at hrows ⊢
  split at hrows
  · exact h
  · rename_i row hf
    have hseq : row.seq = seq := by simpa using List.find?_some hf
    rw [← hseq] at hrows ⊢
    exact h.rewrite (List.mem_of_find?_eq_some hf) hrows

end Table

/-! ## Stores -/

namespace Store

/-- Changing the table of a name leaves the others alone. -/
theorem table?_modifyTable (s : Store) (name : String) (f : Table → Table) (other : String) :
    (s.modifyTable name f).table? other =
      if other = name then (s.table? name).map f else s.table? other := by
  unfold table? modifyTable
  generalize s.tables = tables
  induction tables with
  | nil => simp
  | cons t rest ih =>
    obtain ⟨n, t⟩ := t
    simp only [List.map_cons, List.find?_cons] at ih ⊢
    by_cases hn : n = name
    · subst hn
      by_cases ho : other = n
      · simp [ho]
      · simpa [ho, Ne.symm ho] using ih
    · by_cases ho : n = other
      · subst ho
        simp [hn]
      · simpa [hn, ho] using ih

/-- The tables have the same declarations, and their rows are alike. -/
def Alike (s s' : Store) : Prop := ∀ name, Option.Rel Table.Alike (s.table? name) (s'.table? name)

/-- A store is alike to itself. -/
theorem Alike.refl (s : Store) : s.Alike s := by
  intro name
  cases s.table? name with
  | none => exact .none
  | some t => exact .some (Table.Alike.refl t)

/-- Being alike passes on. -/
theorem Alike.trans {s s' s'' : Store} (h : s.Alike s') (h' : s'.Alike s'') : s.Alike s'' := by
  intro name
  have hn := h name
  have hn' := h' name
  generalize s.table? name = t, s'.table? name = t', s''.table? name = t'' at hn hn' ⊢
  cases hn with
  | none => exact hn'
  | some hab =>
    cases hn' with
    | some hbc => exact .some (hab.trans hbc)

/-- A store with the same tables is alike. -/
theorem Alike.of_tables_eq {s s' : Store} (h : s.tables = s'.tables) : s.Alike s' := by
  have ht : ∀ name, s.table? name = s'.table? name := fun name => by rw [table?, table?, h]
  intro name
  rw [ht name]
  exact Alike.refl s' name

/-- The table that stands beside a table of a store that is alike. -/
theorem Alike.exists_table {s s' : Store} (h : s.Alike s') {name : String} {t : Table}
    (ht : s.table? name = some t) : ∃ t', s'.table? name = some t' ∧ t.Alike t' := by
  have hn := h name
  rw [ht] at hn
  generalize s'.table? name = other at hn ⊢
  cases hn with
  | some hab => exact ⟨_, rfl, hab⟩

/-- Stores that are alike are declared alike. -/
theorem Alike.schema_eq {s s' : Store} (h : s.Alike s') (name : String) :
    (s.table? name).map Table.schema = (s'.table? name).map Table.schema := by
  have hn := h name
  generalize s.table? name = t, s'.table? name = t' at hn ⊢
  cases hn with
  | none => rfl
  | some ha => exact congrArg some ha.schema_eq

/-- Every table is sound, and its places have been used up. -/
def Sound (K : Value → Prop) (s : Store) : Prop :=
  ∀ name t, s.table? name = some t → t.Sound K ∧ ∀ r ∈ t.rows, r.seq < s.nextSeq

/-- The places of the rows ascend in every table. -/
def Ascending (s : Store) : Prop := ∀ name t, s.table? name = some t → t.Ascending

variable {K : Value → Prop}

/-- The places in a sound store ascend. -/
theorem Sound.ascending {s : Store} (h : s.Sound K) : s.Ascending :=
  fun name t ht => (h name t ht).1.ascending

/-- The places that a store uses up do not matter for the soundness of its tables. -/
theorem Sound.of_tables_eq {s s' : Store} (h : s.Sound K) (ht : s'.tables = s.tables)
    (hn : s.nextSeq ≤ s'.nextSeq) : s'.Sound K := by
  intro name t ht'
  rw [table?, ht] at ht'
  have hs := h name t ht'
  exact ⟨hs.1, fun r hr => Nat.lt_of_lt_of_le (hs.2 r hr) hn⟩

/-- Changing a table keeps the store sound if the changed table is sound. -/
theorem Sound.modifyTable {s : Store} (h : s.Sound K) {name : String} {f : Table → Table}
    (hf : ∀ t, s.table? name = some t → (f t).Sound K ∧ ∀ r ∈ (f t).rows, r.seq < s.nextSeq) :
    (s.modifyTable name f).Sound K := by
  intro other t ht
  rw [table?_modifyTable] at ht
  split at ht
  · obtain ⟨t₀, ht₀, rfl⟩ := Option.map_eq_some_iff.1 ht
    exact hf t₀ ht₀
  · exact h other t ht

/-- Stores that are alike stay alike when tables that are alike take the place of a table. -/
theorem Alike.modifyTable {s s' : Store} (h : s.Alike s') {name : String} {f g : Table → Table}
    (hf : ∀ t t', s.table? name = some t → s'.table? name = some t' → t.Alike t' →
      (f t).Alike (g t')) : (s.modifyTable name f).Alike (s'.modifyTable name g) := by
  intro other
  rw [table?_modifyTable, table?_modifyTable]
  split
  · cases ht : s.table? name with
    | none =>
      have hn := h name
      rw [ht] at hn
      generalize s'.table? name = other at hn ⊢
      cases hn
      exact .none
    | some t =>
      obtain ⟨t', ht', ha⟩ := h.exists_table ht
      rw [ht']
      exact .some (hf t t' ht ht' ha)
  · exact h other

/-! ## Taking one change back -/

/-- Stores that are alike stay alike when the same change is taken back in both. -/
theorem Alike.revert {s s' : Store} (h : s.Alike s') (hs : s.Ascending) (hs' : s'.Ascending)
    (u : Undo) : (s.revert u).Alike (s'.revert u) := by
  cases u with
  | inserted name seq => exact h.modifyTable fun t t' _ _ ha => ha.discard seq
  | updated name seq previous =>
    exact h.modifyTable fun t t' ht ht' ha =>
      ha.restore (hs name t ht) (hs' name t' ht') seq previous

/-- Taking a change back leaves a store sound that is then alike to a sound one. -/
theorem Sound.revert [KeyKind K] {s s' : Store} (h : s.Sound K) {u : Undo}
    (ha : (s.revert u).Alike s') (hs : s'.Sound K) : (s.revert u).Sound K := by
  cases u with
  | inserted name seq =>
    refine h.modifyTable fun t ht => ⟨(h name t ht).1.discard seq, fun r hr => ?_⟩
    rw [Table.rows_discard] at hr
    exact (h name t ht).2 r (List.mem_filter.1 hr).1
  | updated name seq previous =>
    refine h.modifyTable fun t ht => ⟨?_, fun r hr => ?_⟩
    · have ht' : (s.revert (.updated name seq previous)).table? name =
          some (t.restore seq previous) := by
        rw [Store.revert, table?_modifyTable, if_pos rfl, ht]
        rfl
      obtain ⟨t', hs', hat⟩ := ha.exists_table ht'
      exact (h name t ht).1.restore hat (hs name t' hs').1
    · rw [(h name t ht).1.ascending.rows_restore] at hr
      obtain ⟨r', hr', rfl⟩ := List.mem_map.1 hr
      have hlt := (h name t ht).2 r' hr'
      split
      · exact hlt
      · exact hlt

/-! ## Taking all changes back -/

/-- Taking these changes back, the newest first, leads from the store past sound stores to one that
is alike to `base`. -/
inductive Back (K : Value → Prop) (base : Store) : List Undo → Store → Prop where
  /-- There is nothing to take back. -/
  | done {s : Store} (h : s.Alike base) : Back K base [] s
  /-- Taking the newest change back leads to a store that is alike to a sound one. -/
  | step {u : Undo} {us : List Undo} {s s' : Store} (hs : s'.Sound K)
      (ha : (s.revert u).Alike s') (hb : Back K base us s') : Back K base (u :: us) s

/-- What leads back from a store leads back from every store that is alike. -/
theorem Back.of_alike {base s x : Store} {us : List Undo} (h : Back K base us s)
    (hs : s.Sound K) (hx : x.Sound K) (ha : x.Alike s) : Back K base us x := by
  cases h with
  | done h => exact .done (ha.trans h)
  | step hs' ha' hb => exact .step hs' ((ha.revert hx.ascending hs.ascending _).trans ha') hb

/-- Taking all changes back gives a sound store that is alike to the one they started from. -/
theorem Back.foldl_revert [KeyKind K] {base s : Store} {us : List Undo} (h : Back K base us s)
    (hs : s.Sound K) : (us.foldl revert s).Sound K ∧ (us.foldl revert s).Alike base := by
  induction us generalizing s with
  | nil =>
    cases h with
    | done h => exact ⟨hs, h⟩
  | cons u us ih =>
    cases h with
    | step hs' ha hb =>
      -- the store after taking the newest change back need not be the one of the chain, but it is
      -- sound and alike to it
      have hsound := hs.revert ha hs'
      exact ih (hb.of_alike hs' hsound ha) hsound

/-- Taking changes back gives no place back. -/
theorem nextSeq_rolledBack (s : Store) : s.rolledBack.nextSeq = s.nextSeq := by
  have hrevert : ∀ (us : List Undo) (s : Store), (us.foldl revert s).nextSeq = s.nextSeq := by
    intro us
    induction us with
    | nil => exact fun _ => rfl
    | cons u us ih =>
      intro s
      rw [List.foldl_cons, ih]
      cases u <;> rfl
  exact hrevert (s.undo.getD []) s

/-- A transaction is open, and taking its changes back leads to a store alike to `base`. -/
def Since (K : Value → Prop) (base s : Store) : Prop := ∃ us, s.undo = some us ∧ Back K base us s

/-- A transaction that has just been opened has nothing to take back. -/
theorem since_opened (s : Store) : Since K s s.opened :=
  ⟨[], rfl, .done (Alike.of_tables_eq rfl)⟩

/-- Changes that keep the rows as they are do not matter for what a transaction takes back. -/
theorem Since.of_alike {base s x : Store} (h : Since K base s) (hs : s.Sound K) (hx : x.Sound K)
    (ha : x.Alike s) (hu : x.undo = s.undo) : Since K base x := by
  obtain ⟨us, hus, hb⟩ := h
  exact ⟨us, hu.trans hus, hb.of_alike hs hx ha⟩

/-- Giving a transaction up leads to a sound store that is alike to the one at its start, in which
no transaction is open. -/
theorem Since.rolledBack [KeyKind K] {base s : Store} (h : Since K base s) (hs : s.Sound K) :
    s.rolledBack.Sound K ∧ s.rolledBack.Alike base ∧ s.rolledBack.undo = none := by
  obtain ⟨us, hus, hb⟩ := h
  obtain ⟨hsound, halike⟩ := hb.foldl_revert hs
  have htables : s.rolledBack.tables = (us.foldl revert s).tables := by
    rw [Store.rolledBack, hus]
    rfl
  have hnext : s.rolledBack.nextSeq = (us.foldl revert s).nextSeq := by
    rw [Store.rolledBack, hus]
    rfl
  refine ⟨hsound.of_tables_eq htables (Nat.le_of_eq hnext.symm), ?_, rfl⟩
  exact (Alike.of_tables_eq htables).trans halike

end Store

end RewardLedger
