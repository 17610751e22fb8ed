import RewardLedger.Proofs.Store.Script

/-!
# What a transaction leaves

A transaction that ends with a failure leaves a store in which every question has the answer that it
had before (`Store.LooksLike`), and one that ends well leaves what its calls would have left without
any transaction (`Store.transaction_outcome`). Both hold of every store that scripts of inserts,
updates and transactions lead to, for every body, and for keys of every sort.

Being alike in rows is enough for all answers, because a sound store answers from its rows: an index
leads to what a search of the rows would find (`Store.Alike.looksLike`).
-/

namespace RewardLedger

/-! ## Keys that indexes hold -/

/-- What is the same composite key as one of keys consists of keys. -/
theorem Value.all_isKey_of_sameKeys {a b : List Value} (ha : KeyKind.All IsKey a)
    (h : sameKeys a b = true) : KeyKind.All IsKey b := by
  induction a generalizing b with
  | nil =>
    cases b with
    | nil => exact ha
    | cons w others => cases h
  | cons v rest ih =>
    cases b with
    | nil => cases h
    | cons w others =>
      rw [sameKeys, Bool.and_eq_true] at h
      have hv : v.IsKey := ha v List.mem_cons_self
      have hrest := ih (fun u hu => ha u (List.mem_cons_of_mem _ hu)) h.2
      intro u hu
      rcases List.mem_cons.1 hu with rfl | hu
      · refine ⟨hashable_of_sameKey hv.1 h.1, ?_⟩
        cases u with
        | null =>
          rw [eq_null_of_sameKey hv.1 h.1] at hv
          exact hv.2
        | _ => rfl
      · exact hrest u hu

/-- An index leads to something under keys only. -/
theorem Index.Regular.all_isKey {ix : Index} (h : ix.Regular Value.IsKey) {key : List Value}
    {pk : Value} (hf : ix.find? key = some pk) : KeyKind.All Value.IsKey key := by
  obtain ⟨e, he, -⟩ := Option.map_eq_some_iff.1 hf
  have hsame : Value.sameKeys e.1 key = true := by simpa using List.find?_some he
  exact Value.all_isKey_of_sameKeys (h e (List.mem_of_find?_eq_some he)) hsame

/-! ## Searching rows that are alike -/

/-- The rows are alike, and so are the first of them that have a property. -/
theorem find?_of_alike {rows rows' : List Row} (h : List.Forall₂ Row.Alike rows rows')
    {p p' : Row → Bool} (hp : ∀ r r', r.Alike r' → p r = p' r') :
    Option.Rel Row.Alike (rows.find? p) (rows'.find? p') := by
  induction h with
  | nil => exact .none
  | cons hab _ ih =>
    rw [List.find?_cons, List.find?_cons, hp _ _ hab]
    split
    · exact .some hab
    · exact ih

/-- Rows that are alike have the same values. -/
theorem map_get_of_rel {r r' : Option Row} (h : Option.Rel Row.Alike r r') :
    (r.map Row.columns).map Fields.get = (r'.map Row.columns).map Fields.get := by
  cases h with
  | none => rfl
  | some ha => exact congrArg some ha.columns.get_eq

/-- Rows that are alike have the same primary keys. -/
theorem map_key_of_alike {rows rows' : List Row} (h : List.Forall₂ Row.Alike rows rows') :
    rows.map Row.key = rows'.map Row.key := by
  induction h with
  | nil => rfl
  | cons hab _ ih => rw [List.map_cons, List.map_cons, hab.key_eq, ih]

/-- Rows that are alike have the same values. -/
theorem map_get_of_alike {rows rows' : List Row} (h : List.Forall₂ Row.Alike rows rows') :
    (rows.map Row.columns).map Fields.get = (rows'.map Row.columns).map Fields.get := by
  induction h with
  | nil => rfl
  | cons hab _ ih =>
    rw [List.map_cons, List.map_cons, List.map_cons, List.map_cons, hab.columns.get_eq, ih]

namespace Table

variable {t t' : Table}

/-- Tables that are alike have an index of a name on the same columns, or none. -/
theorem Alike.find?_index (h : t.Alike t') (index : String) :
    ((t.indexes.find? fun ix => ix.name = index).map fun ix => (ix.name, ix.columns)) =
      (t'.indexes.find? fun ix => ix.name = index).map fun ix => (ix.name, ix.columns) := by
  have hindexes := congrArg Schema.indexes h.schema_eq
  have hfind := congrArg (List.find? fun ix => decide (ix.1 = index)) hindexes
  simpa [schema, List.find?_map, Function.comp_def] using hfind

/-- Sound tables that are alike lead from a key in an index to the same primary key. -/
theorem Alike.find?_key (h : t.Alike t') (hs : t.Sound Value.IsKey) (hs' : t'.Sound Value.IsKey)
    {ix ix' : Index} (hix : ix ∈ t.indexes) (hix' : ix' ∈ t'.indexes)
    (hc : ix.columns = ix'.columns) (key : List Value) : ix.find? key = ix'.find? key := by
  have hsound := hs.indexSound ix hix
  have hsound' := hs'.indexSound ix' hix'
  by_cases hK : KeyKind.All Value.IsKey key
  · refine Option.ext fun pk => ?_
    rw [hsound.find_iff key hK, hsound'.find_iff key hK, hc]
    constructor
    · rintro ⟨r, hr, hk, rfl⟩
      obtain ⟨r', hr', ha⟩ := exists_mem_of_forall₂ h.rows hr
      exact ⟨r', hr', (ha.hasKey_eq _ _).symm.trans hk, ha.key_eq.symm⟩
    · rintro ⟨r', hr', hk, rfl⟩
      obtain ⟨r, hr, ha⟩ := exists_mem_of_forall₂ h.rows.flip hr'
      exact ⟨r, hr, (ha.hasKey_eq _ _).trans hk, ha.key_eq⟩
  · have hnone : ∀ i : Index, i.Regular Value.IsKey → i.find? key = none := fun i hi =>
      Option.eq_none_iff_forall_ne_some.2 fun pk hpk => hK (hi.all_isKey hpk)
    rw [hnone ix hsound.regular, hnone ix' hsound'.regular]

/-- Tables that are alike have rows that are alike under a key of an index. -/
theorem Alike.entered? (h : t.Alike t') {ix ix' : Index} (hc : ix.columns = ix'.columns)
    (key : List Value) (pk : Value) :
    Option.Rel Row.Alike (t.entered? ix key pk) (t'.entered? ix' key pk) := by
  unfold Table.entered?
  split
  · refine find?_of_alike h.rows fun r r' ha => ?_
    rw [ha.key_eq, Index.keyOf?_eq, Index.keyOf?_eq, hc, Fields.keyIn?, Fields.keyIn?,
      ha.columns.get_eq]
  · exact find?_of_alike h.rows fun r r' ha => by rw [ha.key_eq]

end Table

namespace Store

variable {s s' : Store}

/-- No question tells the two stores apart, an absent column counting as null. -/
structure LooksLike (s s' : Store) : Prop where
  /-- Every table has the same primary keys in the same order. -/
  keys : ∀ name, (s.table? name).map (fun t => t.rows.map Row.key) =
    (s'.table? name).map fun t => t.rows.map Row.key
  /-- Every row has the same value in every column. -/
  get : ∀ name key, (s.get name key).map (Option.map Fields.get) =
    (s'.get name key).map (Option.map Fields.get)
  /-- Every key of every index leads to a row with the same values. -/
  findUnique : ∀ name index key, (s.findUnique name index key).map (Option.map Fields.get) =
    (s'.findUnique name index key).map (Option.map Fields.get)
  /-- Rows with the same values are selected in the same order. -/
  select : ∀ name (keep : (String → Value) → Except Failure Bool),
    (s.select name fun row => keep row.get).map (List.map Fields.get) =
      (s'.select name fun row => keep row.get).map (List.map Fields.get)
  /-- Every table has the same number of rows. -/
  count : ∀ name, s.count name = s'.count name

/-- A table is there in both of two stores that are alike or in neither. -/
theorem Alike.table?_cases (h : s.Alike s') (name : String) :
    (s.table? name = none ∧ s'.table? name = none) ∨
      ∃ t t', s.table? name = some t ∧ s'.table? name = some t' ∧ t.Alike t' := by
  have hn := h name
  generalize s.table? name = o, s'.table? name = o' at hn ⊢
  cases hn with
  | none => exact .inl ⟨rfl, rfl⟩
  | some ha => exact .inr ⟨_, _, rfl, rfl, ha⟩

/-- Sound stores that are alike lead from a key of an index to rows with the same values. -/
theorem Alike.map_findUnique (h : s.Alike s') (hs : s.Sound Value.IsKey)
    (hs' : s'.Sound Value.IsKey) (name index : String) (key : List Value) :
    (s.findUnique name index key).map (Option.map Fields.get) =
      (s'.findUnique name index key).map (Option.map Fields.get) := by
  unfold Store.findUnique table
  rcases h.table?_cases name with ⟨hn, hn'⟩ | ⟨t, t', ht, ht', ha⟩
  · rw [hn, hn']
  rw [ht, ht']
  simp only [bind, Except.bind]
  have hindex := ha.find?_index index
  cases hix : t.indexes.find? fun ix => ix.name = index with
  | none =>
    rw [hix, Option.map_none, eq_comm, Option.map_eq_none_iff] at hindex
    rw [hindex]
  | some ix =>
    rw [hix, Option.map_some, eq_comm, Option.map_eq_some_iff] at hindex
    obtain ⟨ix', hix', hsame⟩ := hindex
    have hcolumns : ix.columns = ix'.columns := (congrArg Prod.snd hsame).symm
    -- the indexes of the same columns lead to the same primary key
    have hkey := ha.find?_key (hs name t ht).1 (hs' name t' ht').1 (List.mem_of_find?_eq_some hix)
      (List.mem_of_find?_eq_some hix') hcolumns key
    rw [hix']
    dsimp only
    rw [hkey]
    split
    · cases hpk : ix'.find? key with
      | none => rfl
      | some pk =>
        dsimp only
        split
        · exact congrArg Except.ok (map_get_of_rel (ha.entered? hcolumns key pk))
        · rfl
    · rfl

/-- Sound stores that are alike select rows with the same values in the same order. -/
theorem Alike.map_select (h : s.Alike s') (hs : s.Sound Value.IsKey) (hs' : s'.Sound Value.IsKey)
    (name : String) (keep : (String → Value) → Except Failure Bool) :
    (s.select name fun row => keep row.get).map (List.map Fields.get) =
      (s'.select name fun row => keep row.get).map (List.map Fields.get) := by
  unfold Store.select table
  rcases h.table?_cases name with ⟨hn, hn'⟩ | ⟨t, t', ht, ht', ha⟩
  · rw [hn, hn']
  have horder : t.inOrder = .ok (t.rows.map Row.columns) :=
    Table.inOrder_of_notMem (hs name t ht).1.proper.seq_fixed
  have horder' : t'.inOrder = .ok (t'.rows.map Row.columns) :=
    Table.inOrder_of_notMem (hs' name t' ht').1.proper.seq_fixed
  rw [ht, ht']
  simp only [bind, Except.bind, horder, horder']
  rw [map_filterM, map_filterM, map_get_of_alike ha.rows]

/-- Sound stores that are alike answer every question alike. -/
theorem Alike.looksLike (h : s.Alike s') (hs : s.Sound Value.IsKey) (hs' : s'.Sound Value.IsKey) :
    s.LooksLike s' := by
  refine ⟨fun name => ?_, fun name key => ?_, fun name index key => h.map_findUnique hs hs' ..,
    fun name keep => h.map_select hs hs' name keep, fun name => ?_⟩
  all_goals rcases h.table?_cases name with ⟨hn, hn'⟩ | ⟨t, t', ht, ht', ha⟩
  · rw [hn, hn']
  · rw [ht, ht']
    exact congrArg some (map_key_of_alike ha.rows)
  · rw [Store.get, Store.get, table, table, hn, hn']
  · rw [Store.get, Store.get, table, table, ht, ht']
    have hfound : Option.Rel Row.Alike (t.find? key) (t'.find? key) :=
      find?_of_alike ha.rows fun r r' hr => by rw [hr.key_eq]
    have hfind := map_get_of_rel hfound
    cases key.hashable with
    | false => rfl
    | true => exact congrArg Except.ok hfind
  · rw [Store.count, Store.count, table, table, hn, hn']
  · rw [Store.count, Store.count, table, table, ht, ht']
    exact congrArg (fun n => Except.ok n) ha.rows.length_eq

/-- What calls leave in an open transaction is, once it is kept, what they leave without one. -/
theorem committed_afterAll_opened (hu : s.undo = none) (calls : List StoreCall) :
    (StoreCall.afterAll s.opened calls).committed = StoreCall.afterAll s calls := by
  obtain ⟨htables, hnext⟩ := StoreCall.afterAll_congr (show s.opened.tables = s.tables from rfl)
    (show s.opened.nextSeq = s.nextSeq from rfl) calls
  have hopen := (StoreCall.frame_afterAll s calls).1
  rw [inTransaction, inTransaction, hu] at hopen
  have hnone : (StoreCall.afterAll s calls).undo = none := by simpa using hopen
  generalize StoreCall.afterAll s calls = after, StoreCall.afterAll s.opened calls = opened at *
  obtain ⟨tables, undo, nextSeq⟩ := after
  obtain ⟨tables', undo', nextSeq'⟩ := opened
  simp only at htables hnext hnone
  rw [htables, hnext, hnone, committed]

/-- Whatever a script has done before, a transaction that fails leaves a store that looks as it did
at its start, but for places that have been used up, and one that ends well leaves what its calls,
made one after the other without a transaction, would have left. -/
theorem transaction_outcome {tables : List (String × Schema)} (hp : ∀ d ∈ tables, d.2.Proper)
    {before body : List (Step StoreCall)}
    (hbefore : Step.CallsOf (StoreCall.Offers Value.IsKey tables) before)
    (hbody : Step.CallsOf (StoreCall.Offers Value.IsKey tables) body) (abandon caught : Bool)
    {w : World} (hw : w.store = declared tables) :
    let start := (Step.runAll StoreCall.perform before w).2
    let step := Step.transaction body abandon caught
    let report := (step.run StoreCall.perform start).1
    let done := (step.run StoreCall.perform start).2
    done.store.inTransaction = false ∧
      (report.failure?.isSome = true →
        done = { start with store := done.store } ∧ done.store.LooksLike start.store ∧
          start.store.nextSeq ≤ done.store.nextSeq) ∧
      (report.failure? = none →
        done = (Step.runAll StoreCall.perform
          ((step.made report).map (Step.call · true)) start).2) := by
  intro start step
  have hstart : start.store.Resting Value.IsKey tables := by
    refine Resting.runAll (w := w) ?_ hbefore
    rw [hw]
    exact .declared hp
  -- inside the transaction the body is what its calls do one after the other
  have hrun := Step.runBody_of_inTransaction body (w := { start with store := start.store.opened })
    rfl
  generalize hr : Step.runBody StoreCall.perform body { start with store := start.store.opened } =
    run at hrun
  obtain ⟨reports, failure, w'⟩ := run
  dsimp only at hrun
  have hmade : ∀ call ∈ Step.madeOf body reports, call.Offers Value.IsKey tables :=
    hbody.of_madeOf
  obtain ⟨outcome, houtcome⟩ : ∃ outcome : Option Failure,
      outcome = (failure <|> if abandon then some .abandoned else none) := ⟨_, rfl⟩
  rw [Step.run_transaction hstart.undo_eq_none body abandon caught hr houtcome, hrun]
  dsimp only [Report.failure?]
  cases outcome with
  | some e =>
    -- what the calls have done is taken back
    obtain ⟨hrest, halike⟩ := hstart.rolledBack hmade
    refine ⟨rfl, fun _ => ⟨rfl, halike.looksLike hrest.sound hstart.sound, ?_⟩, fun h => by cases h⟩
    show start.store.opened.nextSeq ≤ (StoreCall.afterAll _ _).rolledBack.nextSeq
    rw [nextSeq_rolledBack]
    exact (StoreCall.frame_afterAll _ _).2
  | none =>
    -- closing the transaction leaves what the calls have done
    refine ⟨rfl, (fun h => by cases h), fun _ => ?_⟩
    rw [Step.runAll_calls]
    exact congrArg (fun s => { start with store := s })
      (committed_afterAll_opened hstart.undo_eq_none _)

/-- A table of accounts, each with an email of its own that may change. -/
def accounts : List (String × Schema) := [("accounts", ⟨"id", ["email"], [("email", ["email"])]⟩)]

/-- Two accounts are added. -/
def addTwo : List (Step StoreCall) :=
  [.call (.insert "accounts" (.object [("id", .int 1), ("email", .str "a")])) false,
    .call (.insert "accounts" (.object [("id", .int 2), ("email", .str "b")])) false]

/-- An account gives its email up, another one takes it and cannot be added twice, which is caught,
and then gets a new email. -/
def passEmailOn : List (Step StoreCall) :=
  [.call (.update "accounts" (.int 1) [("email", .str "c")]) false,
    .transaction [.call (.insert "accounts" (.object [("id", .int 3), ("email", .str "a")])) false,
      .call (.insert "accounts" (.object [("id", .int 3), ("email", .str "d")])) false] false true,
    .call (.update "accounts" (.int 3) [("email", .null)]) false]

/-- Passing an email on and giving that up leaves a store that looks as before. -/
theorem transaction_outcome_passEmailOn :
    (∀ d ∈ accounts, d.2.Proper) ∧
      Step.CallsOf (StoreCall.Offers Value.IsKey accounts) addTwo ∧
      Step.CallsOf (StoreCall.Offers Value.IsKey accounts) passEmailOn ∧
      (let start := (Step.runAll StoreCall.perform addTwo
          { store := declared accounts, clock := default }).2
        let done := ((Step.transaction passEmailOn true false).run StoreCall.perform start).2
        done.store.LooksLike start.store ∧ start.store.nextSeq < done.store.nextSeq) := by
  have hproper : ∀ d ∈ accounts, d.2.Proper := by
    intro d hd
    rw [List.mem_singleton.1 hd]
    exact ⟨by decide, by decide, by decide, by decide⟩
  have hbefore : Step.CallsOf (StoreCall.Offers Value.IsKey accounts) addTwo := by
    simp [addTwo, accounts, Step.CallsOf, Step.Calls, StoreCall.Offers, Fields.FitsKey,
      KeyKind.OrNull, Fields.get, Fields.find?, Value.IsKey, Value.hashable, Value.isNull]
  have hbody : Step.CallsOf (StoreCall.Offers Value.IsKey accounts) passEmailOn := by
    simp [passEmailOn, accounts, Step.CallsOf, Step.Calls, StoreCall.Offers, Fields.FitsKey,
      KeyKind.OrNull, Fields.get, Fields.find?, Value.IsKey, Value.hashable, Value.isNull]
  refine ⟨hproper, hbefore, hbody, ?_⟩
  obtain ⟨-, hfailed, -⟩ := transaction_outcome hproper hbefore hbody true false
    (w := { store := declared accounts, clock := default }) rfl
  exact ⟨(hfailed (by decide +kernel)).2.1, by decide +kernel⟩

end Store

end RewardLedger
