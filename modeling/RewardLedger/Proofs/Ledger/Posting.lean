import RewardLedger.Proofs.Duplicate
import RewardLedger.Proofs.Ledger.Books

/-!
# Posting entries and taking them back

What the operations of the ledger do to the books, inside a transaction or not. Adding an entry posts
it with all that it was asked to have (`ends_createEntry`); taking an entry back posts a reversal and
makes the entry void in one transaction (`ends_reverseEntry`).
-/

namespace RewardLedger

variable {cfg : Config} {p : Permission} {base : Option Store} {b b' : Books}
  {w w' : World}

/-! ## Comparisons -/

/-- An identifier can be compared with every value. -/
theorem Value.equalTo_uuid (u : Uuid) (v : Value) :
    (Value.uuid u).equalTo v = .ok ((Value.uuid u).sameKey v) := by
  obtain ⟨answer, h⟩ : ∃ answer, (Value.uuid u).equals v = some answer := by
    cases v <;> simp only [equals, scalarEquals, number?] <;> exact ⟨_, rfl⟩
  rw [equalTo, sameKey, h]
  cases answer <;> rfl

/-- Null can be compared with every value, and differs from every identifier. -/
theorem Value.equalTo_null (v : Value) :
    Value.null.equalTo v = .ok (Value.null.sameKey v) := by
  obtain ⟨answer, h⟩ : ∃ answer, Value.null.equals v = some answer := by
    cases v <;> simp only [equals, scalarEquals, number?] <;> exact ⟨_, rfl⟩
  rw [equalTo, sameKey, h]
  cases answer <;> rfl

/-- A text can be compared with every value. -/
theorem Value.equalTo_str (s : String) (v : Value) :
    (Value.str s).equalTo v = .ok ((Value.str s).sameKey v) := by
  obtain ⟨answer, h⟩ : ∃ answer, (Value.str s).equals v = some answer := by
    cases v <;> simp only [equals, scalarEquals, number?] <;> exact ⟨_, rfl⟩
  rw [equalTo, sameKey, h]
  cases answer <;> rfl

/-- An optional identifier that is null is none. -/
theorem Value.eq_none_of_null_eq {o : Option Uuid} (h : Value.null = .ofUuid? o) : o = none := by
  cases o with
  | none => rfl
  | some _ => cases h

/-! ## Changes of the store -/

/-- A world whose store follows holds the books that its rows stand for. -/
theorem World.Holds.follows (h : w.Holds cfg base b) {s : Store}
    (hs : w.store.Follows Value.IsPlain s) (hheld : b'.Held s) (hi : b'.issued = w.issued)
    (hp : b'.Proper cfg) : ({ w with store := s } : World).Holds cfg base b' where
  sound := hs.sound
  declared := h.declared.follows hs
  held := hheld
  issued := hi
  proper := hp
  within := by
    cases base with
    | none => exact hs.undo_eq_none h.within
    | some s₀ => exact hs.since s₀ h.within

/-- The declaration of a table that the ledger has. -/
theorem World.Holds.schema_eq (h : w.Holds cfg base b) (name : String) {t t₀ : Table}
    (ht : w.store.table? name = some t) (ht₀ : Store.ledger.table? name = some t₀) :
    t.schema = t₀.schema :=
  h.declared.schema_eq name ht ht₀

namespace Op

/-- Adding a row ends with the store that has it, or with the books as they were. -/
theorem ends_insert (h : w.Holds cfg base b) {name : String} {row : Fields}
    (hf : w.store.FitsTable Value.IsPlain name row) {good : Fields → World → Prop}
    {bad : Failure → World → Prop}
    (hg : ∀ t columns, w.store.table? name = some t → t.find? (row.get t.primaryKey) = none →
      t.refusal? name columns = none → columns = row.put sequenceColumn (.int w.store.nextSeq) →
      w.store.Follows Value.IsPlain (w.store.inserted name (row.get t.primaryKey) columns) →
      good columns { w with store := w.store.inserted name (row.get t.primaryKey) columns })
    (hb : ∀ e s, (Store.insert name row).run.run w.store = (.error e, s) →
      ({ w with store := s } : World).Holds cfg base b → bad e { w with store := s }) :
    (change (Store.insert name row)).Ends w good bad := by
  refine ends_change (fun columns s hrun => ?_) fun e s hrun => ?_
  · have hfollows := Store.follows_of_run_insert h.sound hf hrun
    obtain ⟨t, ht, -, hfree, hn, hcolumns, rfl⟩ := Store.of_run_insert_ok hrun
    exact hg t columns ht hfree hn hcolumns hfollows
  · have hfollows := Store.follows_of_run_insert h.sound hf hrun
    obtain ⟨htables, -, -⟩ := Store.of_run_insert_error hrun
    exact hb e s hrun (h.follows hfollows (h.held.of_tables_eq htables) h.issued h.proper)

/-- Changing columns that are in no index ends with the row changed, or with the books as they
were. -/
theorem ends_update (h : w.Holds cfg base b) (name : String) {key : Value} {changes : Fields}
    {t₀ : Table} (ht₀ : Store.ledger.table? name = some t₀)
    (hc : ∀ ix ∈ t₀.schema.indexes, ∀ c ∈ ix.2, c ∉ changes.names)
    {good : Fields → World → Prop} {bad : Failure → World → Prop}
    (hg : ∀ t row, w.store.table? name = some t → row ∈ t.rows → row.key.sameKey key = true →
      w.store.Follows Value.IsPlain (w.store.updated name t row changes) →
      good (row.columns.putAll changes) { w with store := w.store.updated name t row changes })
    (hb : ∀ e w', w'.Holds cfg base b → bad e w') :
    (change (Store.update name key changes)).Ends w good bad := by
  have hf : w.store.FitsRows Value.IsPlain name changes := h.sound.fitsRows fun t ht => by
    rw [h.schema_eq name ht ht₀]
    exact hc
  refine ends_change (fun columns s hrun => ?_) fun e s hrun => ?_
  · have hfollows := Store.follows_of_run_update h.sound hf hrun
    obtain ⟨t, row, ht, hrow, hkey, -, -, rfl, rfl⟩ := Store.of_run_update_ok hrun
    exact hg t row ht hrow hkey hfollows
  · have hfollows := Store.follows_of_run_update h.sound hf hrun
    obtain ⟨-, halike, -⟩ := Store.of_run_update_error h.sound hf hrun
    exact hb e _ (h.follows hfollows (h.held.of_alike halike) h.issued h.proper)

/-- Changing columns of the row of a record changes the record, or leaves the books as they were. -/
theorem ends_updateRecord {α : Type} [Stored α] {records : List α} (h : w.Holds cfg base b)
    (hl : w.store.Lists records) {t₀ : Table}
    (ht₀ : Store.ledger.table? (Stored.tableName α) = some t₀) {v : Value} {changes : Fields}
    (hc : ∀ ix ∈ t₀.schema.indexes, ∀ c ∈ ix.2, c ∉ changes.names) {f : α → α}
    (hf : ∀ r columns, Stored.keyOf r = v → Stored.IsRow r columns →
      Stored.IsRow (f r) (columns.putAll changes))
    (hid : ∀ r, Stored.keyOf r ≠ v → f r = r)
    (hheld : ∀ s : Store, s.Lists (records.map f) →
      (∀ name, name ≠ Stored.tableName α → s.table? name = w.store.table? name) → b'.Held s)
    (hp : b'.Proper cfg) (hi : b'.issued = b.issued) :
    (change (Store.update (Stored.tableName α) v changes)).Ends w
      (fun columns w' => w'.Holds cfg base b' ∧
        ∃ r ∈ records, Stored.keyOf r = v ∧ Stored.IsRow (f r) columns)
      fun _ w' => w'.Holds cfg base b := by
  refine ends_update h _ ht₀ hc ?_ fun _ _ h' => h'
  intro t row ht hrow hkey hfollows
  obtain rfl : row.key = v := hl.key_eq h.sound ht hrow hkey
  have hupdated : (w.store.updated _ t row changes).Lists (records.map f) :=
    hl.updated h.sound ht hrow (fun r hr hR => hf r _ hr hR) hid
  refine ⟨h.follows hfollows (hheld _ hupdated fun name hne => ?_) (hi.trans h.issued) hp, ?_⟩
  · rw [Store.table?_updated ht, if_neg hne]
  · obtain ⟨t', ht', hcolumn, -⟩ := id hl
    obtain rfl : t = t' := Option.some.inj (ht.symm.trans ht')
    obtain ⟨r, hr, hR⟩ := hl.exists_record ht hrow
    have hrkey := (Store.key_eq_keyOf (h.sound _ t ht).1 hcolumn hrow hR).symm
    exact ⟨r, hr, hrkey, hf r _ hrkey hR⟩

end Op

namespace Ledger

open Op

/-! ## Requirements -/

/-- A user that is not refused is there. -/
theorem ends_userOrRefuse (h : w.Holds cfg base b) (id : Value) (fault : Fault) :
    (do if (← query (·.get usersTable id)).isNone then refuse fault : Op Unit).Ends w
      (fun _ w' => w' = w ∧ ∃ u ∈ b.users, id = .uuid u.id)
      fun _ w' => w' = w := by
  refine ends_bind (ends_query (fun row hget => ?_) fun _ _ => rfl)
  cases row with
  | none => exact ends_refuse rfl
  | some columns =>
    obtain ⟨u, hu, -, rfl⟩ := h.held.users.of_get_some h.sound hget
    exact ends_pure ⟨rfl, u, hu, rfl⟩

/-- A user that is required is there. -/
theorem ends_requireUser (h : w.Holds cfg base b) (id : Value) :
    (requireUser id).Ends w (fun _ w' => w' = w ∧ ∃ u ∈ b.users, id = .uuid u.id)
      fun _ w' => w' = w :=
  ends_userOrRefuse h id _

/-- An entry that is to be taken back is there and counts. -/
theorem ends_requireReversible (h : w.Holds cfg base b) (id : Value) :
    (requireReversible id).Ends w
      (fun _ w' => w' = w ∧ ∃ o, id = .ofUuid? o ∧
        ∀ target, o = some target → ∃ e ∈ b.entries, e.id = target ∧ e.status = .posted)
      fun _ w' => w' = w := by
  unfold requireReversible
  cases hnull : id.isNull with
  | true =>
    have hid : id = .null := by
      cases id with
      | null => rfl
      | _ => cases hnull
    exact ends_pure ⟨rfl, none, hid, fun _ ht => nomatch ht⟩
  | false =>
    refine ends_bind (ends_query (fun row hget => ?_) fun _ _ => rfl)
    cases row with
    | none => exact ends_refuse rfl
    | some columns =>
      obtain ⟨e, he, hrow, rfl⟩ := h.held.entries.of_get_some h.sound hget
      refine ends_bind (ends_ofExcept (fun isVoid hvoid => ?_) fun _ _ => rfl)
      cases isVoid with
      | true => exact ends_refuse rfl
      | false =>
        refine ends_pure ⟨rfl, some e.id, rfl, fun target ht => ?_⟩
        cases ht
        refine ⟨e, he, rfl, ?_⟩
        -- an entry that is void would have been refused
        cases hs : e.status with
        | posted => rfl
        | void =>
          have hstatus : columns.find? "status" = some (.str EntryStatus.void.name) := by
            rw [← hs]
            exact hrow.status
          rw [Fields.columnIs, Fields.column, hstatus] at hvoid
          simp [bind, Except.bind, Value.equalTo, Value.equals, Value.scalarEquals,
            Value.number?] at hvoid

/-! ## Adding -/

end Ledger

/-- The entry has been posted, and nothing else has happened but that identifiers were given out. -/
structure Books.Posted (cfg : Config) (b b' : Books) (e : LedgerEntry) : Prop where
  /-- The entry stands behind the others. -/
  eq : b' = { b with entries := b.entries ++ [e], issued := b'.issued }
  /-- The entry could be posted. -/
  can : b.CanPost cfg e
  /-- The identifier of the entry has been given out. -/
  le : e.id.value ≤ b'.issued

/-- Posting an entry keeps books proper. -/
theorem Books.Posted.proper {e : LedgerEntry} (h : b.Posted cfg b' e) (hb : b.Proper cfg) :
    b'.Proper cfg := by
  have hle : b.issued ≤ b'.issued := Nat.le_trans (Nat.le_of_lt h.can.fresh) h.le
  have hissue := hb.issue hle
  rw [h.eq]
  exact ⟨hissue.users, forall_mem_concat hissue.entries h.le, hissue.rewards,
    forall_mem_concat hb.entryAmounts h.can.amount, hissue.rewardAmounts,
    forall_mem_concat hb.entryCurrencies h.can.currency, hissue.rewardCurrencies⟩

namespace Ledger

open Op

/-- The row of an entry that is being added. -/
def entryRow (cfg : Config) (id : Uuid) (user entryType : Value) (amount : Decimal)
    (details : EntryDetails) (metadata : Value) (now : Instant) : Fields :=
  [("id", .uuid id), ("user_id", user), ("reward_id", details.rewardId),
    ("entry_type", entryType), ("amount", .decimal amount),
    ("currency", cfg.currencyOf details.currency), ("status", .str EntryStatus.posted.name),
    ("reversal_of_entry_id", details.reversalOf), ("metadata", metadata),
    ("created_at", .instant now)]

/-- What a value gives when it is taken as an object is an object. -/
theorem isObject_of_asObject {v m : Value} (h : v.asObject = .ok m) : m.IsObject := by
  have hentries : ∀ entries, (Value.ofEntries entries).IsObject := fun entries => by
    unfold Value.ofEntries
    split
    · trivial
    · trivial
  unfold Value.asObject at h
  split at h
  · cases h
    trivial
  · cases h
    trivial
  · split at h
    · rename_i pairs _
      cases hp : Value.entriesOfPairs 0 pairs [] with
      | ok entries =>
        rw [hp] at h
        cases h
        exact hentries entries
      | error e =>
        rw [hp] at h
        cases h
    · cases h

/-- The row of an entry has keys that the table of entries can have. -/
theorem fitsTable_entryRow {s : Store} (h : s.Declared) {id : Uuid} {user entryType : Value}
    {amount : Decimal} {details : EntryDetails} {metadata : Value} {now : Instant}
    {of : Option Uuid} (hof : details.reversalOf = .ofUuid? of) :
    s.FitsTable Value.IsPlain entriesTable
      (entryRow cfg id user entryType amount details metadata now) := by
  refine h.fitsTable rfl ?_ fun ix hix c hc => ?_
  · exact Or.inr trivial
  rw [List.mem_singleton.1 hix, List.mem_singleton] at hc
  rw [hc]
  show KeyKind.OrNull _ details.reversalOf
  rw [hof]
  cases of with
  | none => exact Or.inl rfl
  | some u => exact Or.inr trivial

/-- The row of an entry stands for the entry that was asked for. -/
theorem exists_isRow_entryRow (id user : Uuid) (t : EntryType) {amount : Decimal}
    {details : EntryDetails} {metadata : Value} (now : Instant) (seq : Nat)
    (hobject : metadata.IsObject) (hfinite : amount.isFinite = true) {currency : String}
    (hcurrency : cfg.currencyOf details.currency = .str currency) {tag of : Option Uuid}
    (htag : details.rewardId = .ofUuid? tag) (hof : details.reversalOf = .ofUuid? of) :
    ∃ e : LedgerEntry, e.id = id ∧ e.IsRow ((entryRow cfg id (.uuid user) (.str t.name) amount
      details metadata now).put sequenceColumn (.int seq)) ∧ e.userId = user ∧ e.entryType = t ∧
      e.amount = amount ∧ e.currency = currency ∧ e.rewardId = tag ∧ e.reversalOf = of ∧
      e.status = .posted := by
  refine ⟨⟨id, user, tag, t, amount, currency, .posted, of, metadata, now⟩, rfl, ?_, rfl, rfl, rfl,
    rfl, rfl, rfl, rfl⟩
  rw [entryRow, hcurrency, htag, hof]
  exact ⟨rfl, rfl, rfl, rfl, rfl, hfinite, rfl, rfl, rfl, rfl, hobject, rfl⟩

/-- Adding the row of an entry posts the entry. -/
theorem ends_insertEntry (h : w.Holds cfg base b) {user : User} (huser : user ∈ b.users)
    {t : EntryType} {amount : Decimal} (hamount : cfg.money.Settled amount)
    (hfinite : amount.isFinite = true) {details : EntryDetails} {currency : String}
    (hcurrency : cfg.currencyOf details.currency = .str currency) {tag of : Option Uuid}
    (htag : details.rewardId = .ofUuid? tag) (hof : details.reversalOf = .ofUuid? of)
    (htarget : ∀ id, of = some id → ∃ e ∈ b.entries, e.id = id ∧ e.status = .posted) :
    (insertEntry cfg (.uuid user.id) (.str t.name) amount details).Ends w
      (fun stored w' => ∃ b', w'.Holds cfg base b' ∧ ∃ e, b.Posted cfg b' e ∧
        e.IsRow stored ∧ e.userId = user.id ∧ e.entryType = t ∧ e.amount = amount ∧
        e.currency = currency ∧ e.rewardId = tag ∧ e.reversalOf = of)
      fun _ w' => w'.Undone cfg base b := by
  have hissued : b.issued ≤ w.issued + 1 := h.issued ▸ Nat.le_succ _
  have hnext : ({ w with issued := w.issued + 1 } : World).Holds cfg base
      { b with issued := w.issued + 1 } := h.issue (Nat.le_succ _)
  have hundone : ∀ {w' : World}, w'.Holds cfg base { b with issued := w.issued + 1 } →
      w'.Undone cfg base b := fun hw' =>
    World.Undone.of_issue hissued hw'.undone
  unfold insertEntry
  refine ends_bind (ends_freshId ?_)
  refine ends_bind (ends_ofExcept (fun metadata hmeta => ?_) fun _ _ => hundone hnext)
  refine ends_bind (ends_readClock (fun now clock _ => ?_) fun _ => hundone hnext)
  have hread : ({ w with issued := w.issued + 1, clock } : World).Holds cfg base
      { b with issued := w.issued + 1 } := hnext.congr rfl rfl
  refine ends_onDuplicate (ends_insert hread ?_ ?_ ?_)
  · exact fitsTable_entryRow hread.declared hof
  · intro table columns ht hfree hn hcolumns hfollows
    -- the row that is added stands for an entry that could be posted
    obtain ⟨e, he, hrow, huid, htype, hamt, hcur, htg, hrev, hposted⟩ :=
      exists_isRow_entryRow ⟨w.issued + 1⟩ user.id t now w.store.nextSeq
        (isObject_of_asObject hmeta) hfinite hcurrency htag hof
    have hposts : b.Posted cfg
        { b with entries := b.entries ++ [e], issued := w.issued + 1 } e := by
      refine ⟨rfl, ⟨?_, ⟨user, huser, huid.symm⟩, hamt ▸ hamount,
        hcur ▸ Config.names_of_currencyOf hcurrency, hposted, hrev ▸ htarget⟩, ?_⟩
      · rw [he, h.issued]
        exact Nat.lt_succ_self _
      · exact Nat.le_of_eq (congrArg Uuid.value he)
    refine ⟨_, hread.follows hfollows ?_ rfl (hposts.proper h.proper), e, hposts,
      hcolumns ▸ hrow, huid, htype, hamt, hcur, htg, hrev⟩
    exact ⟨h.held.users.inserted_of_ne (by decide) _ _,
      h.held.entries.inserted (hcolumns ▸ hrow) _,
      h.held.rewards.inserted_of_ne (by decide) _ _,
      h.held.requests.inserted_of_ne (by decide) _ _⟩
  · intro e s _ hs
    have hkept := hundone (hs.congr rfl rfl)
    exact ⟨fun _ _ _ _ => ends_refuse hkept, fun _ => hkept⟩

/-- A type of entries has a name. -/
theorem typeName_name (t : EntryType) : typeName (.str t.name) = .ok t.name := by
  rw [typeName, EntryType.ofName?_name]
  rfl

/-- Adding an entry posts an entry as it was asked for. -/
theorem ends_createEntry (h : w.Holds cfg base b) {user amount : Value} {t : EntryType}
    (details : EntryDetails) {currency : String}
    (hcurrency : cfg.currencyOf details.currency = .str currency) {tag : Option Uuid}
    (htag : details.rewardId = .ofUuid? tag) :
    (createEntry cfg user (.str t.name) amount details).Ends w
      (fun e w' => ∃ b', w'.Holds cfg base b' ∧ b.Posted cfg b' e ∧
        user = .uuid e.userId ∧ e.entryType = t ∧ cfg.money.positive amount = .ok e.amount ∧
        e.currency = currency ∧ e.rewardId = tag ∧ details.reversalOf = .ofUuid? e.reversalOf)
      fun _ w' => w'.Undone cfg base b := by
  unfold createEntry
  refine ends_bind (ends_ofExcept (fun value hvalue => ?_) fun _ _ => h.undone)
  obtain ⟨hsettled, hfinite⟩ := Money.settled_of_positive hvalue
  refine ends_bind ((ends_atomic (Q := fun stored b' => ∃ e, b.Posted cfg b' e ∧
    e.IsRow stored ∧ user = .uuid e.userId ∧ e.entryType = t ∧ e.amount = value ∧
    e.currency = currency ∧ e.rewardId = tag ∧ details.reversalOf = .ofUuid? e.reversalOf)
    h ?_).mono ?_ fun _ _ he => he)
  · -- inside the transaction: the user is there, what is to be taken back can be, and the row is
    -- added
    have henter := h.enter
    refine ends_bind ((ends_requireUser henter user).mono ?_ ?_)
    · rintro _ w' ⟨rfl, u, hu, rfl⟩
      refine ends_bind ((ends_requireReversible henter _).mono ?_ ?_)
      · rintro _ w' ⟨rfl, of, hof, htarget⟩
        refine (ends_insertEntry henter hu hsettled hfinite hcurrency htag hof htarget).mono ?_
          fun _ _ he => he
        rintro stored w' ⟨b', hw', e, hposted, hrow, huid, htype, hamount, hcur, htg, hrev⟩
        exact ⟨b', hw', e, hposted, hrow, by rw [huid], htype, hamount, hcur, htg,
          by rw [hof, hrev]⟩
      · rintro _ w' rfl
        exact henter.undone
    · rintro _ w' rfl
      exact henter.undone
  · -- what comes after the transaction cannot fail any more
    rintro stored w' ⟨b', hw', e, hposted, hrow, huid, htype, hamount, hcur, htg, hrev⟩
    rw [typeName_name]
    refine ends_bind (ends_ofExcept (fun name _ => ?_) fun _ he => nomatch he)
    refine ends_bind (ends_log (ends_ofExcept_ok (entryOf_eq hrow) ?_))
    exact ⟨b', hw'.congr rfl rfl, hposted, huid, htype, hamount ▸ hvalue, hcur, htg, hrev⟩

/-- Adding a credit posts a credit. -/
theorem ends_createCredit (h : w.Holds cfg base b) {user amount : Value}
    {details : EntryDetails} {currency : String}
    (hcurrency : cfg.currencyOf details.currency = .str currency) {tag : Option Uuid}
    (htag : details.rewardId = .ofUuid? tag) :
    (createCredit cfg user amount details).Ends w
      (fun e w' => ∃ b', w'.Holds cfg base b' ∧ b.Posted cfg b' e ∧
        user = .uuid e.userId ∧ e.entryType = .credit ∧ cfg.money.positive amount = .ok e.amount ∧
        e.currency = currency ∧ e.rewardId = tag ∧ details.reversalOf = .ofUuid? e.reversalOf)
      fun _ w' => w'.Undone cfg base b :=
  ends_bind (ends_ofExcept
    (fun metadata _ => ends_createEntry h { details with metadata } hcurrency htag)
    fun _ _ => h.undone)

/-- Adding a debit posts a debit. -/
theorem ends_createDebit (h : w.Holds cfg base b) {user amount : Value}
    {details : EntryDetails} {currency : String}
    (hcurrency : cfg.currencyOf details.currency = .str currency) {tag : Option Uuid}
    (htag : details.rewardId = .ofUuid? tag) :
    (createDebit cfg user amount details).Ends w
      (fun e w' => ∃ b', w'.Holds cfg base b' ∧ b.Posted cfg b' e ∧
        user = .uuid e.userId ∧ e.entryType = .debit ∧ cfg.money.positive amount = .ok e.amount ∧
        e.currency = currency ∧ e.rewardId = tag ∧ details.reversalOf = .ofUuid? e.reversalOf)
      fun _ w' => w'.Undone cfg base b :=
  ends_bind (ends_ofExcept
    (fun metadata _ => ends_createEntry h { details with metadata } hcurrency htag)
    fun _ _ => h.undone)

end Ledger

end RewardLedger
