import RewardLedger.Proofs.Store.Restored

/-!
# The unique indexes agree with a full scan

In every world that a script of store calls leads through, also in the middle of a transaction, an
index leads from a key to the one row that a scan of the table finds (`Store.AgreesWithScan`). The
index keeps a copy of the primary key, and a thing of the surroundings differs from its copy, so the
primary keys must hold none (`Store.findUnique_of_opaque`). Keys and values of all other sorts are
admitted, not-a-numbers among them.
-/

namespace RewardLedger

/-- The row has values in the columns that are equal to those of the key. -/
def Fields.Carries (row : Fields) (columns : List String) (key : List Value) : Prop :=
  Value.sameKeys (columns.map row.get) key = true

/-- No part of the key is null. -/
def Value.Complete (key : List Value) : Prop := ∀ v ∈ key, v.isNull = false

/-! ## Keys of rows -/

section

variable {row : Fields} {columns : List String} {key : List Value}

/-- What is the same as null is null. -/
theorem Value.isNull_of_sameKey {v : Value} (h : Value.null.sameKey v = true) :
    v.isNull = true := by
  obtain ⟨e, hn, hv⟩ := (Value.sameKey_iff rfl v).1 h
  cases hn
  rw [show v = .null from Value.of_essence? hv]
  rfl

/-- Values that are the same as those of a complete key are not null. -/
theorem Value.complete_of_sameKeys {a b : List Value} (h : sameKeys a b = true)
    (hb : Complete b) : Complete a := by
  induction a generalizing b with
  | nil => simp [Complete]
  | cons v rest ih =>
    cases b with
    | nil => cases h
    | cons w others =>
      rw [sameKeys, Bool.and_eq_true] at h
      intro u hu
      rcases List.mem_cons.1 hu with rfl | hu
      · have hw : w.isNull = false := hb w List.mem_cons_self
        cases u with
        | null =>
          rw [isNull_of_sameKey h.1] at hw
          cases hw
        | _ => rfl
      · exact ih h.2 (fun x hx => hb x (List.mem_cons_of_mem _ hx)) u hu

/-- A row has a key in the columns if its values are the same and none of them is null. -/
theorem Fields.hasKey_iff : row.hasKey columns key = true ↔
    row.Carries columns key ∧ Value.Complete (columns.map row.get) := by
  unfold Fields.hasKey Fields.keyIn? Fields.Carries Value.Complete
  dsimp only
  cases hany : (columns.map row.get).any Value.isNull with
  | true =>
    simp only [if_true, Option.any_none, Bool.false_eq_true, false_iff, not_and]
    intro _ hall
    obtain ⟨v, hv, hnull⟩ := List.any_eq_true.1 hany
    rw [hall v hv] at hnull
    cases hnull
  | false =>
    simp only [Bool.false_eq_true, if_false, Option.any_some]
    refine (and_iff_left fun v hv => ?_).symm
    rw [Bool.eq_false_iff]
    exact fun hnull => by rw [List.any_eq_true.2 ⟨v, hv, hnull⟩] at hany; cases hany

/-- A row carries a complete key if it has it. -/
theorem Fields.carries_iff (hk : Value.Complete key) :
    row.Carries columns key ↔ row.hasKey columns key = true := by
  rw [hasKey_iff]
  exact (and_iff_left_of_imp fun h => Value.complete_of_sameKeys h hk).symm

/-- A complete key that a row of keys carries is one of keys. -/
theorem Fields.FitsKey.all_of_hasKey (h : row.FitsKey Value.IsKey columns)
    (hk : row.hasKey columns key = true) : KeyKind.All Value.IsKey key := by
  unfold Fields.hasKey at hk
  cases hown : row.keyIn? columns with
  | none => simp [hown] at hk
  | some own =>
    rw [hown] at hk
    exact Value.all_isKey_of_sameKeys (h.all hown) hk

end

/-! ## Looking a row up -/

namespace Table

variable {t : Table} {ix : Index} {key : List Value} {row : Row}

/-- An index leads from a key to the row that has it, if its primary key can be copied. -/
theorem Sound.entered?_eq (h : t.Sound Value.IsKey) (hix : ix ∈ t.indexes) (hr : row ∈ t.rows)
    (hk : row.columns.hasKey ix.columns key = true) (ho : row.key.holdsOpaque = false) :
    t.entered? ix key row.key = some row := by
  have hfits := h.rowsSound.fits _ (mem_schema hix)
  have hK := (hfits row hr).all_of_hasKey hk
  unfold entered?
  split
  · -- the primary key equals nothing, and the row is found by its key in the index
    rename_i hunordered
    simp only [Bool.and_eq_true, Bool.not_eq_true'] at hunordered
    cases hf : t.rows.find? fun r => r.key.isUnordered &&
        (ix.keyOf? r.columns).any (Value.sameKeys · key) with
    | none =>
      have hne := List.find?_eq_none.1 hf row hr
      rw [Bool.and_eq_true, not_and] at hne
      exact absurd hk (hne hunordered.1)
    | some found =>
      have hfound := List.find?_some hf
      have hmem := List.mem_of_find?_eq_some hf
      rw [Bool.and_eq_true] at hfound
      rw [h.rowsSound.eq_of_seq hmem hr
        (h.rowsSound.seq_of_hasKey _ (mem_schema hix) found hmem row hr key hK hfound.2 hk)]
  · -- any other primary key is the same as itself, and no other row has it
    rename_i hordered
    rw [ho, Bool.not_false, Bool.and_true] at hordered
    have hself := (Value.sameKey_self_or_isUnordered (h.rowsSound.kind row hr).1 ho).resolve_right
      hordered
    cases hf : t.find? row.key with
    | none =>
      rw [find?_none hf row hr] at hself
      cases hself
    | some found =>
      obtain ⟨hmem, hsame⟩ := find?_some hf
      rw [h.rowsSound.eq_of_seq hmem hr (h.rowsSound.seq_of_key found hmem row hr hsame)]

/-- Whatever an index leads to under a key is a row that has the key. -/
theorem Sound.of_entered? (h : t.Sound Value.IsKey) (hix : ix ∈ t.indexes) {pk : Value}
    (hp : ix.find? key = some pk) {found : Row} (hf : t.entered? ix key pk = some found) :
    found ∈ t.rows ∧ found.columns.hasKey ix.columns key = true := by
  have hsound := h.indexSound ix hix
  obtain ⟨row, hr, hk, rfl⟩ := (hsound.find_iff key (hsound.regular.all_isKey hp) pk).1 hp
  unfold entered? at hf
  split at hf
  · have hfound := List.find?_some hf
    rw [Bool.and_eq_true] at hfound
    exact ⟨List.mem_of_find?_eq_some hf, hfound.2⟩
  · obtain ⟨hmem, hsame⟩ := find?_some hf
    rw [h.rowsSound.eq_of_seq hmem hr (h.rowsSound.seq_of_key found hmem row hr hsame)]
    exact ⟨hr, hk⟩

/-- A row is refused by no index if none has anything under its key there. -/
theorem Sound.refusal?_eq_none (h : t.Sound Value.IsKey) {name : String} {columns : Fields}
    (hf : ∀ ix ∈ t.schema.indexes, columns.FitsKey Value.IsKey ix.2)
    (hfree : ∀ ix ∈ t.schema.indexes, Value.Complete (ix.2.map columns.get) →
      ∀ r ∈ t.rows, ¬ r.columns.Carries ix.2 (ix.2.map columns.get)) :
    t.refusal? name columns = none := by
  cases hr : t.refusal? name columns with
  | none => rfl
  | some e =>
    obtain ⟨ix, hix, key, pk, hk, hpk, -⟩ :=
      duplicate_of_refusal? hr fun ix hix => hf _ (mem_schema hix)
    obtain ⟨hcomplete, rfl⟩ : Value.Complete (ix.columns.map columns.get) ∧
        ix.columns.map columns.get = key := by
      unfold Fields.keyIn? at hk
      simp only [Option.ite_none_left_eq_some, Option.some.injEq] at hk
      refine ⟨fun v hv => Bool.eq_false_iff.2 fun hn => hk.1 ?_, hk.2⟩
      exact List.any_eq_true.2 ⟨v, hv, hn⟩
    obtain ⟨r, hrow, hhas, -⟩ :=
      ((h.indexSound ix hix).find_iff _ ((hf _ (mem_schema hix)).all hk) pk).1 hpk
    exact absurd ((Fields.carries_iff hcomplete).2 hhas)
      (hfree _ (mem_schema hix) hcomplete r hrow)

end Table

namespace Store

/-- The unique indexes of a table agree with a full scan of the table, which finds the rows. -/
structure AgreesWithScan (s : Store) (name : String) (σ : Schema) (rows : List Fields) :
    Prop where
  /-- An index leads from a complete key to the row that carries it. -/
  find_iff : ∀ index columns, (σ.indexes.find? fun ix => ix.1 = index) = some (index, columns) →
    ∀ key, Value.Complete key → ∀ row : Fields,
      s.findUnique name index key = .ok (some row) ↔ row ∈ rows ∧ row.Carries columns key
  /-- No two rows carry the same complete key. -/
  unique : ∀ ix ∈ σ.indexes, ∀ key, Value.Complete key →
    rows.Pairwise fun row row' => ¬ (row.Carries ix.2 key ∧ row'.Carries ix.2 key)
  /-- Nothing is found under a key with null in it. -/
  find_null : ∀ index ix, (σ.indexes.find? fun ix => ix.1 = index) = some ix →
    ∀ key, ¬ Value.Complete key → Value.allHashable key = true →
      s.findUnique name index key = .ok none
  /-- A row is added if its primary key is new, however many rows share a key with null in it. -/
  insert_ok : ∀ row : Fields, (row.get σ.primaryKey).IsKey →
    (∀ r ∈ rows, (r.get σ.primaryKey).sameKey (row.get σ.primaryKey) = false) →
    (∀ ix ∈ σ.indexes, row.FitsKey Value.IsKey ix.2) →
    (∀ ix ∈ σ.indexes, Value.Complete (ix.2.map row.get) →
      ∀ r ∈ rows, ¬ r.Carries ix.2 (ix.2.map row.get)) →
    ((Store.insert name row).run.run s).1.isOk = true

/-- The primary keys of all rows have the property. -/
def KeysAre (P : Value → Prop) (s : Store) : Prop :=
  ∀ name t, s.table? name = some t → ∀ r ∈ t.rows, P r.key

variable {s s' : Store} {name : String} {t : Table}

/-- The index of a name of a table is the declared one. -/
theorem find?_index_of_schema {index : String} {ix : String × List String}
    (h : (t.schema.indexes.find? fun ix => ix.1 = index) = some ix) :
    ∃ i, (t.indexes.find? fun i => i.name = index) = some i ∧ i ∈ t.indexes ∧
      i.columns = ix.2 := by
  rw [Table.schema, List.find?_map, Option.map_eq_some_iff] at h
  obtain ⟨i, hi, rfl⟩ := h
  exact ⟨i, hi, List.mem_of_find?_eq_some hi, rfl⟩

/-- A look-up asks the index and then the table for the row that is entered. -/
theorem findUnique_eq (ht : s.table? name = some t) {index : String} {ix : Index}
    (hix : (t.indexes.find? fun i => i.name = index) = some ix) (key : List Value) :
    s.findUnique name index key =
      if Value.allHashable key = true then
        match ix.find? key with
        | none => .ok none
        | some pk => if pk.hashable = true then .ok ((t.entered? ix key pk).map Row.columns)
          else .error .wrongKind
      else .error .wrongKind := by
  rw [Store.findUnique, table, ht]
  simp only [bind, Except.bind, hix]
  rfl

/-- In a sound store whose primary keys can be copied the indexes agree with a scan. -/
theorem Sound.agreesWithScan (h : s.Sound Value.IsKey)
    (hk : s.KeysAre fun v => v.holdsOpaque = false) (ht : s.table? name = some t) :
    s.AgreesWithScan name t.schema (t.rows.map Row.columns) := by
  have hsound := (h name t ht).1
  have hrows := hsound.rowsSound
  refine ⟨fun index columns hindex key hkey row => ?_, fun ix hix key hkey => ?_,
    fun index ix hindex key hkey hhash => ?_, fun row hrow hnew hfits hfree => ?_⟩
  · -- a row is found just if it carries the key
    obtain ⟨ix, hfind, hix, rfl⟩ := find?_index_of_schema hindex
    rw [findUnique_eq ht hfind, Fields.carries_iff hkey]
    constructor
    · intro hfound
      split at hfound
      · split at hfound
        · cases hfound
        · rename_i pk hpk
          split at hfound
          · obtain ⟨r, hr, rfl⟩ := Option.map_eq_some_iff.1 (Except.ok.inj hfound)
            obtain ⟨hmem, hhas⟩ := hsound.of_entered? hix hpk hr
            exact ⟨List.mem_map_of_mem hmem, hhas⟩
          · cases hfound
      · cases hfound
    · rintro ⟨hmem, hhas⟩
      obtain ⟨r, hr, rfl⟩ := List.mem_map.1 hmem
      have hK := (hrows.fits _ (Table.mem_schema hix) r hr).all_of_hasKey hhas
      have hpk := ((hsound.indexSound ix hix).find_iff key hK r.key).2 ⟨r, hr, hhas, rfl⟩
      rw [if_pos (KeyKind.allHashable hK), hpk]
      dsimp only
      rw [if_pos (hrows.kind r hr).1, hsound.entered?_eq hix hr hhas (hk name t ht r hr)]
      rfl
  · -- no two rows carry the same key, as their places differ
    rw [List.pairwise_map]
    refine hrows.seqs.imp_of_mem fun {r r'} hr hr' hlt hboth => Nat.ne_of_lt hlt ?_
    rw [Fields.carries_iff hkey, Fields.carries_iff hkey] at hboth
    have hK := (hrows.fits ix hix r hr).all_of_hasKey hboth.1
    exact hrows.seq_of_hasKey ix hix r hr r' hr' key hK hboth.1 hboth.2
  · -- what can be no key stands in no index
    obtain ⟨i, hfind, hi, -⟩ := find?_index_of_schema hindex
    have hnone : i.find? key = none := by
      cases hpk : i.find? key with
      | none => rfl
      | some pk =>
        exact absurd (fun v hv => ((hsound.indexSound i hi).regular.all_isKey hpk v hv).2) hkey
    rw [findUnique_eq ht hfind, if_pos hhash, hnone]
  · -- a row that clashes with none is inserted
    have hfresh : t.find? (row.get t.primaryKey) = none := by
      refine List.find?_eq_none.2 fun r hr => ?_
      have hne : (r.columns.get t.schema.primaryKey).sameKey (row.get t.primaryKey) = false :=
        hnew _ (List.mem_map_of_mem hr)
      rw [← hrows.get_key r hr, hne]
      exact Bool.false_ne_true
    have hn : t.refusal? name (row.put sequenceColumn (.int s.nextSeq)) = none := by
      refine hsound.refusal?_eq_none (fun ix hix => (hfits ix hix).put
        (hsound.proper.index_ne ix hix) _) fun ix hix => ?_
      have hsame : ix.2.map (row.put sequenceColumn (.int s.nextSeq)).get = ix.2.map row.get :=
        List.map_congr_left fun c hc => Fields.get_put_of_ne row _ fun hcn =>
          hsound.proper.index_ne ix hix (hcn ▸ hc)
      rw [hsame]
      exact fun hcomplete r hr => hfree ix hix hcomplete _ (List.mem_map_of_mem hr)
    rw [run_insert ht, if_neg (by simp [show (row.get t.primaryKey).isNull = false from hrow.2]),
      if_neg (by simp [show (row.get t.primaryKey).hashable = true from hrow.1]), hfresh, hn]
    rfl

/-! ## The primary keys on the way -/

variable {P : Value → Prop} {tables : List (String × Schema)}

/-- Stores that are alike have the same primary keys. -/
theorem KeysAre.of_alike (h : s.KeysAre P) (ha : s'.Alike s) : s'.KeysAre P := by
  intro name t' ht' r' hr'
  obtain ⟨t, ht, hat⟩ := ha.exists_table ht'
  obtain ⟨r, hr, hrr⟩ := exists_mem_of_forall₂ hat.rows hr'
  rw [hrr.key_eq]
  exact h name t ht r hr

/-- An insert adds at most a row of the offered primary key. -/
theorem KeysAre.insert (h : s.KeysAre P) {row : Fields} {result : Except Failure Fields}
    (hP : ∀ t, s.table? name = some t → P (row.get t.primaryKey))
    (hr : (Store.insert name row).run.run s = (result, s')) : s'.KeysAre P := by
  cases result with
  | error e =>
    intro other t ht
    rw [table?, (of_run_insert_error hr).1] at ht
    exact h other t ht
  | ok columns =>
    obtain ⟨t, ht, -, -, -, -, rfl⟩ := of_run_insert_ok hr
    intro other t' ht'
    rw [table?_inserted] at ht'
    split at ht'
    · rw [ht, Option.map_some, Option.some.injEq] at ht'
      intro r hmem
      rw [← ht', Table.rows_append, List.mem_append, List.mem_singleton] at hmem
      rcases hmem with hmem | rfl
      · exact h name t ht r hmem
      · exact hP t ht
    · exact h other t' ht'

/-- An update keeps the primary keys. -/
theorem KeysAre.update (h : s.KeysAre P) {key : Value} {changes : Fields}
    {result : Except Failure Fields}
    (hr : (Store.update name key changes).run.run s = (result, s')) : s'.KeysAre P := by
  cases updateRun hr with
  | noTable | immutable | wrongKind | unknown => exact h
  | @refused t row _ ht =>
    intro other t' ht'
    rw [table?_modifyTable] at ht'
    split at ht'
    · rw [ht, Option.map_some, Option.some.injEq] at ht'
      intro r hmem
      rw [← ht', rows_refused] at hmem
      exact h name t ht r hmem
    · exact h other t' ht'
  | @changed t row ht =>
    intro other t' ht'
    rw [table?_updated ht] at ht'
    split at ht'
    · cases ht'
      intro r hmem
      obtain ⟨r', hr', rfl⟩ := List.mem_map.1 hmem
      have hP := h name t ht r' hr'
      split
      · exact hP
      · exact hP
    · exact h other t' ht'

end Store

namespace StoreCall

variable {P : Value → Prop} {tables : List (String × Schema)} {s : Store}

/-- The primary key of the row that the call adds, if it adds one, has the property. -/
def AddsKey (P : Value → Prop) (tables : List (String × Schema)) : StoreCall → Prop
  | insert table (.object row) => ∀ σ, (table, σ) ∈ tables → P (Fields.get row σ.primaryKey)
  | _ => True

/-- Calls that offer keys only, and primary keys without things of the surroundings. -/
def OffersCopies (tables : List (String × Schema)) (call : StoreCall) : Prop :=
  call.Offers Value.IsKey tables ∧ call.AddsKey (fun v => v.holdsOpaque = false) tables

/-- The primary keys have the property after calls that add such ones. -/
theorem keysAre_afterAll {calls : List StoreCall} (hs : s.Sound Value.IsKey)
    (hd : s.IsDeclared tables) (hk : s.KeysAre P)
    (ho : ∀ call ∈ calls, call.Offers Value.IsKey tables ∧ call.AddsKey P tables) :
    (afterAll s calls).KeysAre P := by
  induction calls generalizing s with
  | nil => exact hk
  | cons call rest ih =>
    obtain ⟨hoffers, hadds⟩ := ho call List.mem_cons_self
    have hf := follows_after hs hd hoffers
    refine ih hf.sound (hd.follows hf) ?_ fun call h => ho call (List.mem_cons_of_mem _ h)
    cases call with
    | insert table row =>
      cases row with
      | object row => exact hk.insert (fun t ht => hadds _ (hd.mem ht)) rfl
      | _ => exact hk
    | update table key changes => exact hk.update rfl
    | _ => exact hk

end StoreCall

/-! ## Scripts -/

namespace Store

variable {tables : List (String × Schema)} {s : Store}

/-- The store is sound, declared as it was, and no primary key holds a thing of the surroundings. -/
structure Copyable (tables : List (String × Schema)) (s : Store) : Prop where
  /-- The store is sound. -/
  sound : s.Sound Value.IsKey
  /-- The tables are the declared ones. -/
  isDeclared : s.IsDeclared tables
  /-- The primary keys are equal to their copies. -/
  keysAre : s.KeysAre fun v => v.holdsOpaque = false

/-- Calls lead from a store of that sort to a store of that sort. -/
theorem Copyable.afterAll (h : s.Copyable tables) {calls : List StoreCall}
    (ho : ∀ call ∈ calls, call.OffersCopies tables) :
    (StoreCall.afterAll s calls).Copyable tables := by
  have hf := StoreCall.follows_afterAll h.sound h.isDeclared fun call hc => (ho call hc).1
  exact ⟨hf.sound, h.isDeclared.follows hf,
    StoreCall.keysAre_afterAll h.sound h.isDeclared h.keysAre ho⟩

/-- In a store of that sort the indexes of every declared table agree with a scan. -/
theorem Copyable.exists_scan (h : s.Copyable tables) {name : String} {σ : Schema}
    (hσ : schema? tables name = some σ) :
    ∃ rows, s.all name = .ok rows ∧ s.AgreesWithScan name σ rows := by
  have hname := h.isDeclared name
  rw [hσ] at hname
  obtain ⟨t, ht, rfl⟩ := Option.map_eq_some_iff.1 hname
  refine ⟨t.rows.map Row.columns, ?_, h.sound.agreesWithScan h.keysAre ht⟩
  rw [all, table, ht]
  exact Table.inOrder_of_notMem (h.sound name t ht).1.proper.seq_fixed

/-- Opening and closing transactions without taking anything back keeps a store of that sort. -/
theorem Copyable.of_tables_eq (h : s.Copyable tables) {s' : Store} (ht : s'.tables = s.tables)
    (hn : s.nextSeq ≤ s'.nextSeq) : s'.Copyable tables := by
  have htable : ∀ name, s'.table? name = s.table? name := fun name => by rw [table?, table?, ht]
  refine ⟨h.sound.of_tables_eq ht hn, fun name => ?_, fun name t ht' => ?_⟩
  · rw [htable]
    exact h.isDeclared name
  · rw [htable] at ht'
    exact h.keysAre name t ht'

/-- A step at rest leads to a store of that sort at rest. -/
theorem Copyable.run {w : World} (h : w.store.Copyable tables) (hu : w.store.undo = none)
    {step : Step StoreCall} (ho : step.Calls (StoreCall.OffersCopies tables)) :
    (step.run StoreCall.perform w).2.store.Copyable tables ∧
      (step.run StoreCall.perform w).2.store.undo = none := by
  have hrest : w.store.Resting Value.IsKey tables := ⟨h.sound, h.isDeclared, hu⟩
  cases step with
  | call action caught =>
    rw [Step.run, action.perform_snd]
    refine ⟨h.afterAll (List.forall_mem_singleton.2 ho), ?_⟩
    exact (StoreCall.follows_after h.sound h.isDeclared (And.left ho)).undo_eq_none hu
  | transaction steps abandon caught =>
    obtain ⟨calls, hcalls, hstore | hstore⟩ :=
      Step.exists_calls_of_transaction hu ho abandon caught
    · have hopened : w.store.opened.Copyable tables := h.of_tables_eq rfl (Nat.le_refl _)
      rw [hstore]
      exact ⟨(hopened.afterAll hcalls).of_tables_eq rfl (Nat.le_refl _), rfl⟩
    · obtain ⟨hback, halike⟩ := hrest.rolledBack fun call hc => (hcalls call hc).1
      rw [hstore]
      exact ⟨⟨hback.sound, hback.isDeclared, h.keysAre.of_alike halike⟩, hback.undo_eq_none⟩

/-- A step at rest leads through stores of that sort. -/
theorem Copyable.worlds {w : World} (h : w.store.Copyable tables) (hu : w.store.undo = none)
    {step : Step StoreCall} (ho : step.Calls (StoreCall.OffersCopies tables)) :
    ∀ w' ∈ step.worlds StoreCall.perform w, w'.store.Copyable tables := by
  intro w' hmem
  cases step with
  | call action caught =>
    rw [Step.worlds, List.mem_singleton] at hmem
    rw [hmem, action.perform_snd]
    exact h.afterAll (List.forall_mem_singleton.2 ho)
  | transaction steps abandon caught =>
    rw [Step.worlds] at hmem
    rcases List.mem_append.1 hmem with hmem | hmem
    · rw [World.enter_of_undo_none hu] at hmem
      obtain ⟨calls, hcalls, hstore⟩ := Step.exists_calls_of_worldsOf steps
        (w := { w with store := w.store.opened }) rfl ho w' hmem
      have hopened : w.store.opened.Copyable tables := h.of_tables_eq rfl (Nat.le_refl _)
      rw [hstore]
      exact hopened.afterAll hcalls
    · rw [List.mem_singleton.1 hmem]
      exact (h.run hu ho).1

/-- A script at rest leads through stores of that sort. -/
theorem Copyable.worldsOfAll {w : World} (h : w.store.Copyable tables)
    (hu : w.store.undo = none) {steps : List (Step StoreCall)}
    (ho : Step.CallsOf (StoreCall.OffersCopies tables) steps) :
    ∀ w' ∈ Step.worldsOfAll StoreCall.perform steps w, w'.store.Copyable tables := by
  induction steps generalizing w with
  | nil =>
    intro w' hmem
    rw [List.mem_singleton.1 hmem]
    exact h
  | cons step rest ih =>
    intro w' hmem
    rw [Step.worldsOfAll, List.cons_append] at hmem
    rcases List.mem_cons.1 hmem with rfl | hmem
    · exact h
    rcases List.mem_append.1 hmem with hmem | hmem
    · exact h.worlds hu ho.1 w' hmem
    · obtain ⟨hrun, hurun⟩ := h.run hu ho.1
      exact ih hrun hurun ho.2 w' hmem

/-- In every world that a script leads through, also in the middle of a transaction, the unique
indexes of every table agree with a full scan of it. -/
theorem indexes_agree_of_worlds {tables : List (String × Schema)}
    (hp : ∀ d ∈ tables, d.2.Proper) {steps : List (Step StoreCall)}
    (ho : Step.CallsOf (StoreCall.OffersCopies tables) steps) {w : World}
    (hw : w.store = declared tables) :
    ∀ w' ∈ Step.worldsOfAll StoreCall.perform steps w, ∀ name σ, schema? tables name = some σ →
      ∃ rows, w'.store.all name = .ok rows ∧ w'.store.AgreesWithScan name σ rows := by
  intro w' hmem name σ hσ
  have hstart : w.store.Copyable tables := by
    rw [hw]
    refine ⟨sound_declared hp, isDeclared_declared tables, fun name t ht r hr => ?_⟩
    rw [table?_declared] at ht
    obtain ⟨σ, -, rfl⟩ := Option.map_eq_some_iff.1 ht
    cases hr
  have hundo : w.store.undo = none := by
    rw [hw]
    rfl
  exact (hstart.worldsOfAll hundo ho w' hmem).exists_scan hσ

/-- In every world that passing an email on leads through, the emails lead to what a scan finds. -/
theorem indexes_agree_of_passEmailOn :
    (∀ d ∈ accounts, d.2.Proper) ∧
      Step.CallsOf (StoreCall.OffersCopies accounts)
        (addTwo ++ [.transaction passEmailOn true false]) ∧
      ∀ w' ∈ Step.worldsOfAll StoreCall.perform (addTwo ++ [.transaction passEmailOn true false])
          { store := declared accounts, clock := default },
        ∃ rows, w'.store.all "accounts" = .ok rows ∧
          w'.store.AgreesWithScan "accounts" ⟨"id", ["email"], [("email", ["email"])]⟩ rows := by
  have hproper : ∀ d ∈ accounts, d.2.Proper := by
    intro d hd
    rw [List.mem_singleton.1 hd]
    exact ⟨by decide, by decide, by decide, by decide⟩
  have hoffers : Step.CallsOf (StoreCall.OffersCopies accounts)
      (addTwo ++ [.transaction passEmailOn true false]) := by
    simp [addTwo, passEmailOn, accounts, Step.CallsOf, Step.Calls, StoreCall.OffersCopies,
      StoreCall.Offers, StoreCall.AddsKey, Fields.FitsKey, KeyKind.OrNull, Fields.get,
      Fields.find?, Value.IsKey, Value.hashable, Value.isNull, Value.holdsOpaque]
  exact ⟨hproper, hoffers, fun w' hmem =>
    indexes_agree_of_worlds hproper hoffers rfl w' hmem "accounts" _ rfl⟩

/-- Whether a lookup found nothing can be computed, whatever it would have found. -/
theorem eq_ok_none {α : Type} {r : Except Failure (Option α)}
    (h : r.toOption.map Option.isNone = some true) : r = .ok none := by
  cases r with
  | error f => cases h
  | ok found =>
    cases found with
    | none => rfl
    | some a => cases h

/-- A primary key that differs from its copy is not found by the index, although its row carries the
key. -/
theorem findUnique_of_opaque :
    let tables : List (String × Schema) := [("t", ⟨"id", [], [("u", ["u"])]⟩)]
    let row : Fields := [("id", .opaqueThing), ("u", .int 1)]
    let w := (Step.runAll StoreCall.perform [.call (.insert "t" (.object row)) false]
      { store := declared tables, clock := default }).2
    (∀ d ∈ tables, d.2.Proper) ∧ StoreCall.Offers Value.IsKey tables (.insert "t" (.object row)) ∧
      ∃ stored : Fields, w.store.all "t" = .ok [stored] ∧ stored.Carries ["u"] [.int 1] ∧
        w.store.findUnique "t" "u" [.int 1] = .ok none := by
  refine ⟨?_, ?_, [("id", .opaqueThing), ("u", .int 1), ("_seq", .int 1)], rfl, ?_,
    eq_ok_none (by decide +kernel)⟩
  · intro d hd
    rw [List.mem_singleton.1 hd]
    exact ⟨by decide, by decide, by decide, by decide⟩
  · simp [StoreCall.Offers, Fields.FitsKey, KeyKind.OrNull, Fields.get, Fields.find?,
      Value.IsKey, Value.hashable, Value.isNull]
  · unfold Fields.Carries
    decide +kernel

end Store

end RewardLedger
