import RewardLedger.Ledger.Entries
import RewardLedger.Ledger.Rewards
import RewardLedger.Proofs.Operation
import RewardLedger.Proofs.Store.Change
import RewardLedger.Rule.Basic

/-!
# Where faults come from

A fault is a refusal of the domain or a violated unique constraint. Comparing and converting values,
looking something up and reading records end without a result for other reasons only (`NoFault`). So
an operation that has come to its first change can meet a fault only where it changes the store, and
there only by adding a row whose key is taken (`Store.isFault_of_run_insert`): a change of columns
that are in no index meets none, in whatever state the table is (`Store.isFault_of_run_update`).
-/

namespace RewardLedger

/-- The failure belongs to the domain: a refusal, or a violated unique constraint. -/
def Failure.isFault (e : Failure) : Bool := e.faultKind?.isSome

/-- If the computation fails, it is with such a failure. -/
def FailsOnly {α : Type} (P : Failure → Prop) (r : Except Failure α) : Prop :=
  ∀ e, r = .error e → P e

namespace FailsOnly

variable {α β : Type} {P Q : Failure → Prop}

theorem ok (a : α) : FailsOnly P (.ok a : Except Failure α) := fun _ h => nomatch h

theorem error {e : Failure} (h : P e) : FailsOnly P (.error e : Except Failure α) := by
  rintro e' ⟨⟩
  exact h

/-- Failures of one kind may be failures of another one, too. -/
theorem mono {r : Except Failure α} (h : FailsOnly P r) (hPQ : ∀ e, P e → Q e) : FailsOnly Q r :=
  fun e he => hPQ e (h e he)

/-- A sequence fails as one of its parts does. -/
theorem bind {r : Except Failure α} {f : α → Except Failure β} (h : FailsOnly P r)
    (hf : ∀ a, FailsOnly P (f a)) : FailsOnly P (r >>= f) := by
  cases r with
  | ok a => exact hf a
  | error e => exact error (h e rfl)

/-- What is computed for each item fails as it does for one of them. -/
theorem mapM {f : α → Except Failure β} {items : List α} (h : ∀ a ∈ items, FailsOnly P (f a)) :
    FailsOnly P (items.mapM f) := by
  induction items with
  | nil => exact ok _
  | cons a rest ih =>
    rw [List.mapM_cons]
    exact (h a List.mem_cons_self).bind fun _ =>
      (ih fun b hb => h b (List.mem_cons_of_mem a hb)).bind fun _ => ok _

end FailsOnly

/-- If the computation fails, it is for a reason outside of the domain. -/
abbrev NoFault {α : Type} (r : Except Failure α) : Prop := FailsOnly (fun e => e.isFault = false) r

open FailsOnly

/-! ## Values -/

/-- Comparing values meets no fault. -/
theorem noFault_equalTo (a b : Value) : NoFault (a.equalTo b) := by
  unfold Value.equalTo
  split
  · exact ok _
  · exact error rfl

/-- Looking a column up meets no fault. -/
theorem noFault_column (row : Fields) (name : String) : NoFault (row.column name) := by
  unfold Fields.column
  split
  · exact ok _
  · exact error rfl

/-- Comparing a column meets no fault. -/
theorem noFault_columnIs (row : Fields) (name : String) (v : Value) :
    NoFault (row.columnIs name v) :=
  (noFault_column row name).bind fun _ => noFault_equalTo _ _

/-- Reading a record meets no fault. -/
theorem noFault_toExcept {α : Type} (c : Checked α) : NoFault c.toExcept := by
  cases c with
  | valid a => exact ok a
  | invalid issues => exact error rfl

/-- Collecting entries meets no fault. -/
theorem noFault_entriesOfPairs (pairs : List Value) (place : Nat)
    (acc : List (Value × Value)) : NoFault (Value.entriesOfPairs place pairs acc) := by
  induction pairs generalizing place acc with
  | nil => exact ok _
  | cons pair rest ih =>
    unfold Value.entriesOfPairs
    split
    · exact error rfl
    · split
      · exact ih _ _
      · exact error rfl
    · exact error rfl

/-- Taking a value as an object meets no fault. -/
theorem noFault_asObject (v : Value) : NoFault v.asObject := by
  unfold Value.asObject
  split
  · exact ok _
  · exact ok _
  · split
    · exact (noFault_entriesOfPairs _ _ _).bind fun _ => ok _
    · exact error rfl

/-- A field name meets no fault. -/
theorem noFault_fieldName (s : String) : NoFault (Value.fieldName s) := by
  unfold Value.fieldName
  split
  · exact error rfl
  · exact ok _

mutual

/-- The name of a key meets no fault. -/
theorem noFault_keyText : (v : Value) → NoFault v.keyText
  | .bool _ | .instant _ => by
    unfold Value.keyText
    exact ok _
  | .tuple items => by
    unfold Value.keyText
    exact (noFault_itemKeyTexts items).bind fun _ => ok _
  | .opaqueThing => by
    unfold Value.keyText
    exact error rfl
  | .null | .int _ | .float _ | .decimal _ | .str _ | .uuid _ | .list _ | .object _ | .map _ => by
    unfold Value.keyText
    exact noFault_fieldName _

theorem noFault_itemKeyTexts : (items : List Value) → NoFault (Value.itemKeyTexts items)
  | [] => by
    unfold Value.itemKeyTexts
    exact ok _
  | v :: rest => by
    unfold Value.itemKeyTexts
    exact (noFault_keyText v).bind fun _ => (noFault_itemKeyTexts rest).bind fun _ => ok _

end

mutual

/-- The JSON form of a value meets no fault. -/
theorem noFault_jsonForm : (v : Value) → NoFault v.jsonForm
  | .null | .bool _ | .int _ | .float _ | .decimal _ | .str _ | .uuid _ | .instant _ => by
    unfold Value.jsonForm
    exact ok _
  | .list items | .tuple items => by
    unfold Value.jsonForm
    exact (noFault_itemsJsonForm items).bind fun _ => ok _
  | .object fields => by
    unfold Value.jsonForm
    exact (noFault_fieldsJsonForm fields).bind fun _ => ok _
  | .map entries => by
    unfold Value.jsonForm
    exact (noFault_entriesJsonForm entries).bind fun _ => ok _
  | .opaqueThing => by
    unfold Value.jsonForm
    exact error rfl

theorem noFault_itemsJsonForm : (items : List Value) → NoFault (Value.itemsJsonForm items)
  | [] => by
    unfold Value.itemsJsonForm
    exact ok _
  | v :: rest => by
    unfold Value.itemsJsonForm
    exact (noFault_jsonForm v).bind fun _ =>
      (noFault_itemsJsonForm rest).bind fun _ => ok _

theorem noFault_fieldsJsonForm :
    (fields : List (String × Value)) → NoFault (Value.fieldsJsonForm fields)
  | [] => by
    unfold Value.fieldsJsonForm
    exact ok _
  | (k, v) :: rest => by
    unfold Value.fieldsJsonForm
    exact (noFault_fieldName k).bind fun _ => (noFault_jsonForm v).bind fun _ =>
      (noFault_fieldsJsonForm rest).bind fun _ => ok _

theorem noFault_entriesJsonForm :
    (entries : List (Value × Value)) → NoFault (Value.entriesJsonForm entries)
  | [] => by
    unfold Value.entriesJsonForm
    exact ok _
  | (k, v) :: rest => by
    unfold Value.entriesJsonForm
    exact (noFault_keyText k).bind fun _ => (noFault_jsonForm v).bind fun _ =>
      (noFault_entriesJsonForm rest).bind fun _ => ok _

end

/-! ## Records -/

/-- Looking a row up meets no fault. -/
theorem noFault_get (s : Store) (name : String) (key : Value) :
    NoFault (s.get name key) := by
  have htable : NoFault (s.table name) := by
    unfold Store.table
    split
    · exact ok _
    · exact error rfl
  refine htable.bind fun t => ?_
  split
  · exact ok _
  · exact error rfl

/-- Adding a row meets no fault if its primary key and its keys in the indexes are free. -/
theorem Store.isFault_of_run_insert {s s' : Store} {name : String} {row : Fields} {e : Failure}
    (hfree : ∀ t, s.table? name = some t → t.find? (row.get t.primaryKey) = none ∧
      ∀ ix ∈ t.indexes, ∀ key, ix.keyOf? (row.put sequenceColumn (.int s.nextSeq)) = some key →
        ix.find? key = none)
    (h : (insert name row).run.run s = (.error e, s')) : e.isFault = false := by
  cases insertRun h with
  | noTable | noKey | wrongKind => rfl
  | taken ht hfind => cases (hfree _ ht).1.symm.trans hfind
  | refused ht _ _ hn =>
    obtain ⟨ix, hix, hrefused⟩ := List.exists_of_findSome?_eq_some hn
    split at hrefused
    · cases hrefused
    rename_i key hown
    split at hrefused
    · cases hrefused
      rfl
    rw [(hfree _ ht).2 ix hix key hown] at hrefused
    cases hrefused

/-- Changing columns that are in no index meets no fault: the row is taken out of the indexes first,
and its keys stay the same. -/
theorem Store.isFault_of_run_update {s s' : Store} {name : String} {key : Value} {changes : Fields}
    {e : Failure}
    (hc : ∀ t, s.table? name = some t → ∀ ix ∈ t.schema.indexes, ∀ c ∈ ix.2, c ∉ changes.names)
    (h : (update name key changes).run.run s = (.error e, s')) : e.isFault = false := by
  cases updateRun h with
  | noTable | immutable | wrongKind | unknown => rfl
  | @refused t row _ ht _ hn =>
    obtain ⟨ix, hix, hrefused⟩ := List.exists_of_findSome?_eq_some hn
    obtain ⟨full, hfull, rfl⟩ := List.mem_map.1 hix
    have hkeys : (full.remove row.columns).keyOf? (row.columns.putAll changes) =
        full.keyOf? row.columns := by
      rw [Index.keyOf?_eq, Index.keyOf?_eq, Index.columns_remove, Fields.keyIn?_putAll_of_notMem _
          (hc t ht _ (Table.mem_schema hfull))]
    rw [hkeys] at hrefused
    split at hrefused
    · cases hrefused
    rename_i own hown
    -- what is entered under the key of the row is gone
    have hgone : (full.remove row.columns).find? own = none := by
      rw [Index.remove, hown, Index.find?]
      simp [List.find?_filter]
    split at hrefused
    · cases hrefused
      rfl
    rw [hgone] at hrefused
    cases hrefused

/-- Writing an entry meets no fault. -/
theorem noFault_ledgerEntry_json (e : LedgerEntry) : NoFault e.json :=
  (noFault_jsonForm _).bind fun _ => ok _

/-- Writing a reward meets no fault. -/
theorem noFault_reward_json (r : Reward) : NoFault r.json :=
  (noFault_jsonForm _).bind fun _ => ok _

/-- Writing a reward with its entry meets no fault. -/
theorem noFault_rewardResult_json (r : RewardResult) : NoFault r.json :=
  (noFault_reward_json _).bind fun _ => (noFault_ledgerEntry_json _).bind fun _ => ok _

/-- Writing an answer meets no fault. -/
theorem noFault_creditResult_json (r : CreditResult) : NoFault r.json :=
  (noFault_reward_json _).bind fun _ => (noFault_ledgerEntry_json _).bind fun _ => ok _

/-- Writing a recorded request meets no fault. -/
theorem noFault_requestRecord_json (r : RequestRecord) : NoFault r.json :=
  (noFault_jsonForm _).bind fun _ => ok _

/-- Writing a rule meets no fault. -/
theorem noFault_rule_toValue (r : Rule) : NoFault r.toValue := by
  have hcreated : NoFault (Rule.createdText r.createdAt) := by
    unfold Rule.createdText
    split
    · exact ok _
    · split
      · exact error rfl
      · exact ok _
  exact hcreated.bind fun _ => ok _

/-- Marking particulars with an action meets no fault. -/
theorem Ledger.noFault_taggedMetadata (metadata : Value) (action : String) :
    NoFault (taggedMetadata metadata action) := by
  unfold taggedMetadata
  split
  · exact ok _
  · exact ok _
  · exact error rfl

end RewardLedger
