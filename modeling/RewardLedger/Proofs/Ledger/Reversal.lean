import RewardLedger.Proofs.Ledger.Posting
import RewardLedger.Proofs.Ledger.Steps

/-!
# Taking entries back

An entry is taken back on behalf of the reward that it belongs to, or by hand if it belongs to none.
In one transaction the reversal is posted and the entry becomes void (`ends_reverseEntry`), so the
books go from one state to the next without anything in between.
-/

namespace RewardLedger

variable {cfg : Config} {p : Permission} {base : Option Store} {b b' : Books} {w w' : World}

/-- The entry has been taken back by the reversal, and nothing else has happened but that identifiers
were given out. -/
structure Books.TookBack (cfg : Config) (b b' : Books) (e reversal : LedgerEntry) : Prop where
  /-- The reversal is posted and the entry is void. -/
  eq : b' = b.reversed e reversal b'.issued
  /-- The entry was there. -/
  mem : e ∈ b.entries
  /-- The entry counted. -/
  posted : e.status = .posted
  /-- The entry had not been taken back before. -/
  free : ∀ o ∈ b.entries, o.reversalOf ≠ some e.id
  /-- The reversal is made from the entry. -/
  reverses : Books.Reverses reversal e
  /-- The reversal could be posted. -/
  can : b.CanPost cfg reversal
  /-- The identifier of the reversal has been given out. -/
  le : reversal.id.value ≤ b'.issued

/-- Making an entry void keeps books proper. -/
theorem Books.Proper.voided (h : b.Proper cfg) (id : Uuid) :
    Proper cfg { b with entries := b.entries.map (.voided id) } := by
  refine ⟨h.users, ?_, h.rewards, ?_, h.rewardAmounts, ?_, h.rewardCurrencies⟩
  · intro x hx
    obtain ⟨y, hy, rfl⟩ := List.mem_map.1 hx
    rw [LedgerEntry.voided_eq]
    exact h.entries y hy
  · intro x hx
    obtain ⟨y, hy, rfl⟩ := List.mem_map.1 hx
    rw [LedgerEntry.voided_eq]
    exact h.entryAmounts y hy
  · intro x hx
    obtain ⟨y, hy, rfl⟩ := List.mem_map.1 hx
    rw [LedgerEntry.voided_eq]
    exact h.entryCurrencies y hy

/-- Taking an entry back is a step of the books, where it may be asked for. -/
theorem Books.TookBack.step {e reversal : LedgerEntry} (h : b.TookBack cfg b' e reversal)
    (hp : e.rewardId = none ∨ p.onBehalf) : b.Step cfg p b' := by
  rw [h.eq]
  exact .takeBack h.mem hp h.posted h.free h.reverses h.can h.le

/-- Taking an entry back changes neither users nor recorded requests. -/
theorem Books.TookBack.sameStanding {e reversal : LedgerEntry} (h : b.TookBack cfg b' e reversal) :
    b.SameStanding b' := by
  rw [h.eq]
  exact ⟨rfl, rfl⟩

/-- A row whose status is set stands for the entry with that status. -/
theorem LedgerEntry.IsRow.put_status {e : LedgerEntry} {columns : Fields} (h : e.IsRow columns)
    (s : EntryStatus) : { e with status := s }.IsRow (columns.put "status" (.str s.name)) where
  id := (columns.find?_put_of_ne _ (by decide)).trans h.id
  userId := (columns.find?_put_of_ne _ (by decide)).trans h.userId
  rewardId := (columns.find?_put_of_ne _ (by decide)).trans h.rewardId
  entryType := (columns.find?_put_of_ne _ (by decide)).trans h.entryType
  amount := (columns.find?_put_of_ne _ (by decide)).trans h.amount
  isFinite := h.isFinite
  currency := (columns.find?_put_of_ne _ (by decide)).trans h.currency
  status := columns.find?_put_self _ _
  reversalOf := (columns.find?_put_of_ne _ (by decide)).trans h.reversalOf
  metadata := (columns.find?_put_of_ne _ (by decide)).trans h.metadata
  isObject := h.isObject
  createdAt := (columns.find?_put_of_ne _ (by decide)).trans h.createdAt

namespace Ledger

open Op

/-- An entry that is asked for is there. -/
theorem ends_getEntry (h : w.Holds cfg base b) (id : Value) :
    (getEntry id).Ends w (fun e w' => w' = w ∧ e ∈ b.entries ∧ id = .uuid e.id)
      fun _ w' => w' = w := by
  refine ends_bind (ends_query (fun row hget => ?_) fun _ _ => rfl)
  cases row with
  | none => exact ends_refuse rfl
  | some columns =>
    obtain ⟨e, he, hrow, rfl⟩ := h.held.entries.of_get_some h.sound hget
    exact ends_ofExcept_ok (entryOf_eq hrow) ⟨rfl, he, rfl⟩

/-- An entry that belongs to a reward is taken back on behalf of that reward. -/
theorem ends_requireOwner (w : World) (id : Value) (e : LedgerEntry) (reward : Value) :
    (requireOwner id e reward).Ends w
      (fun _ w' => w' = w ∧ ∀ owner, e.rewardId = some owner → reward = .uuid owner)
      fun _ w' => w' = w := by
  unfold requireOwner
  cases howner : e.rewardId with
  | none => exact ends_pure ⟨rfl, fun _ h => nomatch h⟩
  | some owner =>
    dsimp only
    rw [Value.equalTo_uuid]
    refine ends_bind (ends_ofExcept (fun same hsame => ?_) fun _ _ => rfl)
    cases same with
    | true =>
      refine ends_pure ⟨rfl, fun o ho => ?_⟩
      cases ho
      exact Value.sameKey_uuid_iff.1 (Except.ok.inj hsame)
    | false => exact ends_refuse rfl

/-- The row of an entry is entered in the index by the entry that it takes back. -/
theorem hasKey_reversalOf {e : LedgerEntry} {columns : Fields} (h : e.IsRow columns) (id : Uuid) :
    columns.hasKey ["reversal_of_entry_id"] [.uuid id] = true ↔ e.reversalOf = some id := by
  rw [Fields.hasKey, Fields.keyIn?, List.map_singleton, Fields.get, h.reversalOf]
  cases e.reversalOf with
  | none => simp [Value.ofUuid?, Value.isNull]
  | some target =>
    have hsame : (Value.uuid target).sameKey (.uuid id) = true ↔ some target = some id := by
      rw [Value.sameKey_uuid_iff, Value.uuid.injEq, Option.some.injEq, eq_comm]
    rw [← hsame]
    simp [Value.ofUuid?, Value.isNull, Value.sameKeys]

/-- Looking for a reversal of an entry finds something if there is one. -/
theorem exists_findUnique (h : w.Holds cfg base b) (id : Uuid) :
    ∃ found, w.store.findUnique entriesTable "reversal_of_entry_id" [.uuid id] = .ok found ∧
      (found.isSome = true ↔ ∃ o ∈ b.entries, o.reversalOf = some id) := by
  have hentries := h.held.entries
  obtain ⟨t, ht, -⟩ := hentries
  have hschema := h.schema_eq entriesTable ht rfl
  obtain ⟨ix, hix, hcolumns⟩ : ∃ ix, (t.indexes.find? fun ix => ix.name =
      "reversal_of_entry_id") = some ix ∧ ix.columns = ["reversal_of_entry_id"] := by
    have hindexes : t.indexes.map (fun ix => (ix.name, ix.columns)) =
        [("reversal_of_entry_id", ["reversal_of_entry_id"])] := congrArg Schema.indexes hschema
    obtain ⟨ix, rest, hsplit, hix, hrest⟩ := List.map_eq_cons_iff.1 hindexes
    obtain ⟨hname, hcolumns⟩ := Prod.mk.inj hix
    exact ⟨ix, by rw [hsplit, List.find?_cons, hname]; rfl, hcolumns⟩
  have hplain : KeyKind.All Value.IsPlain [.uuid id] := fun v hv => by
    rw [List.mem_singleton.1 hv]
    trivial
  obtain ⟨found, hfind, hiff⟩ := h.sound.exists_findUnique ht hix hplain
  rw [hcolumns] at hiff
  refine ⟨found, hfind, hiff.trans ⟨?_, ?_⟩⟩
  · rintro ⟨row, hrow, hhas⟩
    obtain ⟨o, ho, hR⟩ := h.held.entries.exists_record ht hrow
    exact ⟨o, ho, (hasKey_reversalOf hR id).1 hhas⟩
  · rintro ⟨o, ho, hof⟩
    obtain ⟨row, hrow, hR⟩ := h.held.entries.exists_row ht ho
    exact ⟨row, hrow, (hasKey_reversalOf hR id).2 hof⟩

/-- An entry that is to be taken back has not been taken back before. -/
theorem free_of_findUnique (h : w.Holds cfg base b) {id : Uuid}
    (hfind : w.store.findUnique entriesTable "reversal_of_entry_id" [.uuid id] = .ok none) :
    ∀ o ∈ b.entries, o.reversalOf ≠ some id := by
  obtain ⟨found, hfound, hiff⟩ := exists_findUnique h id
  obtain rfl : none = found := Except.ok.inj (hfind.symm.trans hfound)
  exact fun o ho hof => Bool.false_ne_true (hiff.2 ⟨o, ho, hof⟩)

/-- Making an entry void changes its record. -/
theorem ends_makeVoid (h : w.Holds cfg base b) (id : Uuid) :
    (change (Store.update entriesTable (.uuid id) [("status", .str EntryStatus.void.name)])).Ends w
      (fun _ w' => w'.Holds cfg base { b with entries := b.entries.map (.voided id) })
      fun _ w' => w'.Holds cfg base b := by
  have hfree : ∀ ix ∈ [("reversal_of_entry_id", ["reversal_of_entry_id"])], ∀ c ∈ ix.2,
      c ∉ ["status"] := by decide
  refine (ends_updateRecord h h.held.entries rfl (by exact hfree) (f := .voided id)
    (fun e columns he hrow => ?_) (fun e he => if_neg fun heid => he (congrArg Value.uuid heid))
    (fun s hl ho => ?_) (h.proper.voided id) rfl).mono (fun _ _ hgood => hgood.1) fun _ _ hw' => hw'
  · rw [LedgerEntry.voided, if_pos (Value.uuid.inj he)]
    exact LedgerEntry.IsRow.put_status hrow .void
  · exact ⟨h.held.users.of_table?_eq (ho _ (by decide)), hl,
      h.held.rewards.of_table?_eq (ho _ (by decide)),
      h.held.requests.of_table?_eq (ho _ (by decide))⟩

/-- Taking an entry back posts its reversal and makes it void. -/
theorem ends_reverseEntry (h : w.Holds cfg base b) (id reason reward : Value) :
    (reverseEntry cfg id reason reward).Ends w
      (fun reversal w' => ∃ b', w'.Holds cfg base b' ∧ ∃ e, b.TookBack cfg b' e reversal ∧
        id = .uuid e.id ∧ ∀ owner, e.rewardId = some owner → reward = .uuid owner)
      fun _ w' => w'.Undone cfg base b := by
  unfold reverseEntry
  refine ends_bind ((ends_atomic (Q := fun reversal b' =>
    ∃ e, b.TookBack cfg b' e reversal ∧ id = .uuid e.id ∧
      ∀ owner, e.rewardId = some owner → reward = .uuid owner) h ?_).mono ?_ fun _ _ he => he)
  · -- inside the transaction: the entry is read, asked for its owner, and refused if it is void
    have henter := h.enter
    have hundone : ∀ w' : World, w' = w.enter →
        w'.Undone cfg (some (base.getD w.store)) b := fun w' hw' => by
      rw [hw']
      exact henter.undone
    refine ends_bind ((ends_getEntry henter id).mono ?_ fun _ => hundone)
    rintro e w' ⟨rfl, he, rfl⟩
    refine ends_bind ((ends_requireOwner w.enter _ e reward).mono ?_ fun _ => hundone)
    rintro _ w' ⟨rfl, howner⟩
    by_cases hvoid : e.status = .void
    · rw [if_pos hvoid]
      exact ends_bind (ends_refuse henter.undone)
    rw [if_neg hvoid]
    refine ends_bind (ends_query (fun found hfind => ?_) fun _ _ => henter.undone)
    -- what already takes the entry back would be found under its identifier
    cases found with
    | some row => exact ends_bind (ends_refuse henter.undone)
    | none =>
      have hposted : e.status = .posted := by
        cases hs : e.status with
        | posted => rfl
        | void => exact absurd hs hvoid
      refine ends_bind ((ends_createEntry (t := .reversal) henter {
        currency := .str e.currency
        rewardId := .ofUuid? e.rewardId
        reversalOf := .uuid e.id
        metadata := reversalMetadata (.uuid e.id) reason e }
        (henter.proper.entryCurrencies e he) rfl).mono ?_ fun _ _ he => he)
      -- the reversal is posted, and only then the entry becomes void
      rintro reversal w₁ ⟨b₁, hw₁, hpost, huser, htype, hamount, hcurrency, htag, hof⟩
      refine ends_bind (ends_map ((ends_makeVoid hw₁ e.id).mono ?_ fun _ _ hw₂ => ?_))
      · intro _ w₂ hw₂
        refine ends_pure ⟨_, hw₂, e, ⟨?_, he, hposted, free_of_findUnique henter hfind, ?_,
          hpost.can, hpost.le⟩, rfl, howner⟩
        · rw [hpost.eq]
          rfl
        · refine ⟨htype, (Value.uuid.inj huser).symm, htag, ?_, hcurrency, ?_⟩
          · exact (henter.proper.entryAmounts e he).eq_of_positive hamount
          · cases hrev : reversal.reversalOf with
            | none =>
              rw [hrev] at hof
              cases hof
            | some id =>
              rw [hrev] at hof
              exact congrArg some (Value.uuid.inj hof).symm
      · have hle : b.issued ≤ b₁.issued := Nat.le_trans (Nat.le_of_lt hpost.can.fresh) hpost.le
        exact ⟨hw₂.sound, hw₂.within, hw₂.declared,
          Nat.le_trans hle (Nat.le_of_eq hw₂.issued)⟩
  · -- what comes after the transaction only writes to the log
    rintro reversal w' ⟨b', hw', hQ⟩
    refine ends_bind (ends_log ?_)
    exact ends_pure ⟨b', hw'.congr rfl rfl, hQ⟩

end Ledger

end RewardLedger
