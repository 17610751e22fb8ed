import RewardLedger.Proofs.Ledger.Lifecycle
import RewardLedger.Proofs.Reading

/-!
# Operations that only the clock stops

Some operations fail for no other reason than that the clock cannot be read as often as they read it
(`Op.Timed`). They are put together by adding up how often they read it (`Op.timed_bind`), whatever
it is that makes a clock unfit for so many readings (`Clock.Counts`); where nothing is asked of the
readings, it is that there are none left (`Op.Takes`).

Nothing else stops the posting of an entry for a user who is there (`Ledger.takes_createEntry`), and
nothing else stops an entry from being taken back that counts and has not been taken back before
(`Ledger.takes_reverseEntry`): no key is in the way of the new row, and the row that is changed is
there.
-/

namespace RewardLedger

variable {cfg : Config} {base : Option Store} {b : Books} {w : World}

/-! ## How often a clock can be read -/

namespace Clock

/-- What makes clocks unfit for so many readings counts the readings: it does so for a clock that
cannot be read, also for more readings, and also for those after other readings. -/
structure Counts (stops : Nat → Clock → Prop) : Prop where
  /-- A clock that cannot be read is not fit for a reading. -/
  unread : ∀ {c}, c.read? = none → stops 1 c
  /-- A clock that is not fit for some readings is not fit for more. -/
  more : ∀ {c n} k, stops n c → stops (n + k) c
  /-- A clock that will not be fit for some readings is not fit for others and then these. -/
  before : ∀ {c c' ts n}, c.Reads ts c' → stops n c' → stops (ts.length + n) c

/-- The clock can be read that many times more. -/
def gives : Nat → Clock → Bool
  | 0, _ => true
  | n + 1, c =>
    match c.read? with
    | some (_, c') => gives n c'
    | none => false

/-- After some readings a clock gives those that are left. -/
theorem Reads.gives_add {c c' : Clock} {ts : List Instant} (h : c.Reads ts c') (n : Nat) :
    c.gives (ts.length + n) = c'.gives n := by
  induction h with
  | none c => rw [List.length_nil, Nat.zero_add]
  | next hread _ ih => rw [List.length_cons, Nat.add_right_comm, gives, hread, ← ih]

/-- A clock that was read can be read. -/
theorem Reads.gives {c c' : Clock} {ts : List Instant} (h : c.Reads ts c') :
    c.gives ts.length = true := h.gives_add 0

/-- A clock that gives so many readings gives some first. -/
theorem gives_of_gives_add {c : Clock} {n k : Nat} (h : c.gives (n + k) = true) :
    c.gives n = true := by
  -- by induction on the readings that come first, for every clock
  induction n generalizing c with
  | zero => rfl
  | succ n ih =>
    rw [Nat.add_right_comm, gives] at h
    rw [gives]
    cases hread : c.read? with
    | none =>
      rw [hread] at h
      exact h
    | some found =>
      rw [hread] at h
      exact ih h

/-- Readings run out as they are counted. -/
theorem counts_gives : Counts fun n c => c.gives n = false where
  unread h := by rw [gives, h]
  more k h := Bool.eq_false_iff.2 fun hmore =>
    Bool.false_ne_true (h.symm.trans (gives_of_gives_add hmore))
  before hts h := (hts.gives_add _).trans h

end Clock

namespace World

/-- Opening a transaction does not touch the clock. -/
@[simp] theorem enter_clock (w : World) : w.enter.clock = w.clock := by
  unfold enter
  split <;> rfl

/-- Closing a transaction does not touch the clock. -/
@[simp] theorem leave_clock (w w' : World) (keep : Bool) :
    (World.leave w w' keep).clock = w'.clock := by
  unfold leave
  split <;> rfl

end World

namespace Op

variable {α β : Type} {stops : Nat → Clock → Prop} {n k : Nat}

/-- The operation reads the clock that many times and ends with a good result, or the clock is not
fit for so many readings. What is good may speak of the readings. -/
def Timed (stops : Nat → Clock → Prop) (n : Nat) (op : Op α) (w : World)
    (good : α → List Instant → World → Prop) : Prop :=
  op.Ends w
    (fun a w' => ∃ ts : List Instant, ts.length = n ∧ w.clock.Reads ts w'.clock ∧ good a ts w')
    fun e _ => e = .outOfRange ∧ stops n w.clock

/-- The operation reads the clock that many times and ends with a good result, or there are not so
many readings left. -/
abbrev Takes (n : Nat) (op : Op α) (w : World) (good : α → List Instant → World → Prop) : Prop :=
  op.Timed (fun n c => c.gives n = false) n w good

variable {good : α → List Instant → World → Prop}

/-- What is good may be weakened. -/
theorem Timed.mono {op : Op α} {good' : α → List Instant → World → Prop}
    (h : op.Timed stops n w good) (hg : ∀ a ts w', good a ts w' → good' a ts w') :
    op.Timed stops n w good' :=
  Ends.mono h (fun a w' ⟨ts, hn, hts, ha⟩ => ⟨ts, hn, hts, hg a ts w' ha⟩) fun _ _ he => he

/-- Another account of a run that succeeds may be added. -/
theorem Timed.and {op : Op α} {good' : α → World → Prop} {bad : Failure → World → Prop}
    (h : op.Timed stops n w good) (h' : op.Ends w good' bad) :
    op.Timed stops n w fun a ts w' => good a ts w' ∧ good' a w' :=
  (Ends.and h h').mono (fun _ _ ⟨⟨ts, hn, hts, ha⟩, ha'⟩ => ⟨ts, hn, hts, ha, ha'⟩)
    fun _ _ ⟨he, _⟩ => he

theorem timed_pure {a : α} (h : good a [] w) : (pure a : Op α).Timed stops 0 w good :=
  ends_pure ⟨[], rfl, .none _, h⟩

/-- A function of the result reads nothing. -/
theorem timed_map {op : Op β} {f : β → α}
    (h : op.Timed stops n w fun b ts w' => good (f b) ts w') :
    (f <$> op).Timed stops n w good := ends_map h

/-- A sequence reads the clock as often as its parts do together. -/
theorem timed_bind (hs : Clock.Counts stops) {op : Op β} {f : β → Op α}
    (h : op.Timed stops n w fun b ts w' =>
      (f b).Timed stops k w' fun a ts' w'' => good a (ts ++ ts') w'') :
    (op >>= f).Timed stops (n + k) w good := by
  refine ends_bind (Ends.mono h ?_ fun e w' ⟨he, hstops⟩ => ⟨he, hs.more k hstops⟩)
  rintro b w' ⟨ts, rfl, hts, hb⟩
  refine Ends.mono hb ?_ fun e w'' ⟨he, hstops⟩ => ⟨he, hs.before hts hstops⟩
  rintro a w'' ⟨ts', rfl, hts', ha⟩
  exact ⟨ts ++ ts', List.length_append, hts.trans hts', ha⟩

/-- What reads nothing does not count in a sequence. -/
theorem timed_bind_of_ends {op : Op β} {f : β → Op α}
    (h : op.Ends w (fun b w' => w'.clock = w.clock ∧ (f b).Timed stops n w' good)
      fun _ _ => False) : (op >>= f).Timed stops n w good := by
  refine ends_bind (h.mono ?_ fun _ _ he => he.elim)
  rintro b w' ⟨hclock, hb⟩
  rw [Timed, hclock] at hb
  exact hb

/-- Reading the clock takes one reading. -/
theorem timed_readClock (hs : Clock.Counts stops) {good : Instant → List Instant → World → Prop}
    (h : ∀ t clock, w.clock.read? = some (t, clock) → good t [t] { w with clock }) :
    readClock.Timed stops 1 w good :=
  ends_readClock (fun t clock hread => ⟨[t], rfl, .next hread (.none _), h t clock hread⟩)
    fun hread => ⟨rfl, hs.unread hread⟩

/-- A transaction reads the clock as often as its body does. -/
theorem timed_transaction {op : Op α}
    (h : op.Timed stops n w.enter fun a ts w' => good a ts (World.leave w w' true)) :
    (transaction op).Timed stops n w good := by
  refine ends_transaction (Ends.mono h ?_ fun _ _ he => World.enter_clock w ▸ he)
  rintro a w' ⟨ts, hn, hts, ha⟩
  exact ⟨ts, hn, by rwa [World.leave_clock, ← World.enter_clock], ha⟩

/-! ## Changes of the store -/

/-- A row that has a plain primary key, and whose keys are free, is added. -/
theorem ends_insert_of_free (h : w.Holds cfg base b) {name : String} {row : Fields} {t : Table}
    (ht : w.store.table? name = some t) (hkey : (row.get t.primaryKey).IsPlain)
    (hf : w.store.FitsTable Value.IsPlain name row)
    (hfree : ∀ e s, (Store.insert name row).run.run w.store = (.error e, s) → e.isDuplicate = false) :
    (change (Store.insert name row)).Ends w
      (fun columns w' => w'.clock = w.clock ∧
        columns = row.put sequenceColumn (.int w.store.nextSeq)) fun _ _ => False := by
  refine ends_change (fun columns s hrun => ?_) fun e s hrun => ?_
  · obtain ⟨-, -, -, -, -, hcolumns, -⟩ := Store.of_run_insert_ok hrun
    exact ⟨rfl, hcolumns⟩
  · have hd := Store.isDuplicate_of_run_insert h.sound ht hkey hf hrun
    exact Failure.absurd_isDuplicate (hfree e s hrun) hd

/-- Columns of a record that may change, and that are in no index, are changed. -/
theorem ends_update_of_mem [Stored α] {records : List α} (h : w.Holds cfg base b)
    (hl : w.store.Lists records) {t₀ : Table}
    (ht₀ : Store.ledger.table? (Stored.tableName α) = some t₀) {r : α} (hr : r ∈ records)
    {changes : Fields} (hnames : changes.names ⊆ t₀.schema.mutableColumns)
    (hc : ∀ ix ∈ t₀.schema.indexes, ∀ c ∈ ix.2, c ∉ changes.names) :
    (change (Store.update (Stored.tableName α) (Stored.keyOf r) changes)).Ends w
      (fun _ w' => w'.clock = w.clock) fun _ _ => False := by
  obtain ⟨t, ht, hprimary, -⟩ := id hl
  have hsame : ∀ {t'}, w.store.table? (Stored.tableName α) = some t' → t = t' := fun ht' =>
    Option.some.inj (ht.symm.trans ht')
  have hschema := h.schema_eq _ ht ht₀
  have hc' : ∀ t', w.store.table? (Stored.tableName α) = some t' → ∀ ix ∈ t'.schema.indexes,
      ∀ c ∈ ix.2, c ∉ changes.names := fun t' ht' => by
    rw [h.schema_eq _ ht' ht₀]
    exact hc
  refine ends_change (fun _ _ _ => rfl) fun e s hrun => ?_
  cases Store.updateRun hrun with
  | noTable hnone => cases hnone.symm.trans ht
  | immutable ht' hnot =>
    obtain rfl := hsame ht'
    have hnone : changes.names.filter (fun c => !t.mutableColumns.contains c) = [] := by
      refine List.filter_eq_nil_iff.2 fun c hcn => ?_
      have hmem : c ∈ t.schema.mutableColumns := hschema ▸ hnames hcn
      rw [show t.mutableColumns.contains c = true from List.contains_iff_mem.2 hmem]
      decide
    rw [hnone] at hnot
    cases hnot
  | wrongKind _ hkind => cases hkind.symm.trans (Stored.hashable_keyOf r)
  | unknown ht' hfind =>
    obtain rfl := hsame ht'
    obtain ⟨row, hrow, hR⟩ := hl.exists_row ht hr
    have hne := Table.find?_none hfind row hrow
    rw [Store.key_eq_keyOf (h.sound _ t ht).1 hprimary hrow hR,
      (Stored.sameKey_iff r _).2 rfl] at hne
    cases hne
  | refused ht' hfind hn =>
    obtain rfl := hsame ht'
    -- an index refuses only what is taken, but the keys of the row stay its own
    have hrow := (Table.find?_some hfind).1
    obtain ⟨ix, -, key, pk, -, -, rfl⟩ := Table.duplicate_of_refusal? hn fun ix hix => by
      have hmem := Table.mem_schema hix
      rw [Table.schema_unindex] at hmem
      exact h.sound.fitsRows hc' _ ht _ hrow _ hmem
    cases Store.isFault_of_run_update hc' hrun

end Op

open Op

namespace Books

/-- What is to be taken back, if anything is, is an entry that counts and has not been taken back
before. -/
def Takeable (b : Books) (of : Option Uuid) : Prop :=
  ∀ id, of = some id → (∃ e ∈ b.entries, e.id = id ∧ e.status = .posted) ∧
    ∀ o ∈ b.entries, o.reversalOf ≠ some id

/-- Nothing can always be taken back. -/
theorem takeable_none (b : Books) : b.Takeable none := by
  rintro id ⟨⟩

end Books

namespace Ledger

variable {details : EntryDetails} {of : Option Uuid} {metadata : Value}

/-- Particulars that are an object are taken as they are. -/
theorem asObject_orElse (fields : Fields) :
    ((Value.object fields).orElse (.object [])).asObject = .ok (.object fields) := by
  cases fields <;> rfl

/-! ## Posting an entry -/

/-- No key is in the way of the row of an entry with a new identifier that takes nothing back, or
something that has not been taken back before. -/
theorem not_isDuplicate_of_insertEntry (h : w.Holds cfg base b) {id : Uuid}
    (hid : b.issued < id.value) (user entryType : Value) (amount : Decimal)
    (hof : details.reversalOf = .ofUuid? of) (htakeable : b.Takeable of) (metadata : Value)
    (now : Instant) {e : Failure} {s : Store}
    (hrun : (Store.insert entriesTable (entryRow cfg id user entryType amount details metadata
      now)).run.run w.store = (.error e, s)) : e.isDuplicate = false := by
  cases e with
  | duplicate table index taken =>
    obtain ⟨t, ht, row, hrow, hcase⟩ :=
      Store.of_run_insert_duplicate h.sound (fitsTable_entryRow h.declared hof) hrun
    have hschema := h.schema_eq entriesTable ht rfl
    obtain ⟨o, ho, hR⟩ := h.held.entries.exists_record ht hrow
    have hprimary : t.primaryKey = "id" := congrArg Schema.primaryKey hschema
    rcases hcase with hsame | ⟨ix, hix, own, hown, hhas⟩
    · -- the identifier is a new one, so no row has it
      rw [Store.key_eq_keyOf (h.sound _ t ht).1 hprimary hrow hR, hprimary] at hsame
      have hid' : Value.uuid id = .uuid o.id := Value.sameKey_uuid_iff.1 hsame
      rw [Value.uuid.inj hid'] at hid
      exact absurd (h.proper.entries o ho) (Nat.not_le_of_lt hid)
    · -- the only index is that of what is taken back, which the row enters only if it does so
      rw [hschema] at hix
      rw [List.mem_singleton.1 hix] at hown hhas
      cases of with
      | none =>
        have hkey : (entryRow cfg id user entryType amount details metadata now).keyIn?
            ["reversal_of_entry_id"] = none := by
          rw [entryRow, hof]
          rfl
        cases hown.symm.trans hkey
      | some target =>
        have hkey : (entryRow cfg id user entryType amount details metadata now).keyIn?
            ["reversal_of_entry_id"] = some [.uuid target] := by
          rw [entryRow, hof]
          rfl
        rw [Option.some.inj (hown.symm.trans hkey)] at hhas
        exact absurd ((hasKey_reversalOf hR target).1 hhas) ((htakeable target rfl).2 o ho)
  | _ => rfl

/-- Only the clock stops the row of an entry from being added. -/
theorem takes_insertEntry (h : w.Holds cfg base b) (user entryType : Value) (amount : Decimal)
    (hof : details.reversalOf = .ofUuid? of) (htakeable : b.Takeable of)
    (hmetadata : (details.metadata.orElse (.object [])).asObject = .ok metadata) :
    (insertEntry cfg user entryType amount details).Takes 1 w
      fun stored ts _ => ∃ id now, ∃ seq : Nat, ts = [now] ∧
        stored = (entryRow cfg id user entryType amount details metadata now).put sequenceColumn
          (.int seq) := by
  refine ends_bind (ends_freshId ?_)
  refine ends_bind (ends_ofExcept_ok hmetadata ?_)
  refine timed_bind (k := 0) Clock.counts_gives (timed_readClock Clock.counts_gives
    fun now clock _ => ?_)
  have hread : ({ w with issued := w.issued + 1, clock } : World).Holds cfg base
      { b with issued := w.issued + 1 } := (h.issue (Nat.le_succ _)).congr rfl rfl
  have hclock : ({ w with clock } : World).Holds cfg base b := h.congr rfl rfl
  obtain ⟨t, ht, hprimary, -⟩ := id h.held.entries
  have hkey : ((entryRow cfg ⟨w.issued + 1⟩ user entryType amount details metadata now).get
      t.primaryKey).IsPlain := by
    rw [hprimary]
    trivial
  have hid : b.issued < (Uuid.mk (w.issued + 1)).value := h.issued ▸ Nat.lt_succ_self _
  refine Ends.mono (ends_onDuplicate ((ends_insert_of_free hread ht hkey
    (fitsTable_entryRow h.declared hof) fun e s hrun => ?_).mono ?_ fun _ _ he => he.elim))
    (fun _ _ hgood => hgood) fun _ _ he => he
  · exact not_isDuplicate_of_insertEntry hclock hid _ _ _ hof htakeable _ _ hrun
  · rintro columns w' ⟨hw', rfl⟩
    exact ⟨[], rfl, hw' ▸ .none _, _, now, _, rfl, rfl⟩

/-- What can be taken back is not refused. -/
theorem ends_requireReversible_ok (h : w.Holds cfg base b) (htakeable : b.Takeable of) :
    (requireReversible (.ofUuid? of)).Ends w (fun _ w' => w' = w) fun _ _ => False := by
  unfold requireReversible
  cases of with
  | none => exact ends_pure rfl
  | some target =>
    obtain ⟨⟨e, he, rfl, hposted⟩, -⟩ := htakeable target rfl
    obtain ⟨columns, hget, hrow⟩ := h.held.entries.get_keyOf h.sound he
    have hrow : e.IsRow columns := hrow
    have hcounts : columns.columnIs "status" (.str EntryStatus.void.name) = .ok false := by
      rw [Fields.columnIs, Fields.column, hrow.status, hposted]
      refine (Value.equalTo_str _ _).trans (congrArg Except.ok ?_)
      rw [Value.sameKey_str]
      decide
    refine ends_bind (ends_query_ok hget ?_)
    dsimp only
    rw [hcounts]
    exact ends_pure rfl

/-- Only the clock stops an entry from being posted for a user who is there. -/
theorem takes_createEntry (h : w.Holds cfg base b) {u : User} (hu : u ∈ b.users) (t : EntryType)
    {amount : Decimal} (hamount : cfg.money.Settled amount) {currency : String}
    (hcurrency : cfg.currencyOf details.currency = .str currency) {tag : Option Uuid}
    (htag : details.rewardId = .ofUuid? tag) (hof : details.reversalOf = .ofUuid? of)
    (htakeable : b.Takeable of)
    (hmetadata : (details.metadata.orElse (.object [])).asObject = .ok metadata) :
    (createEntry cfg (.uuid u.id) (.str t.name) (.decimal amount) details).Takes 1 w
      fun e ts _ => ts = [e.createdAt] ∧ e.metadata = metadata := by
  have henter := h.enter
  obtain ⟨columns, hget, -⟩ := henter.held.users.get_keyOf henter.sound hu
  refine ends_bind (ends_ofExcept_ok hamount ?_)
  refine timed_bind (k := 0) Clock.counts_gives (timed_transaction ?_)
  refine ends_bind (ends_bind (ends_query_ok hget (ends_pure ?_)))
  rw [hof]
  refine ends_bind ((ends_requireReversible_ok henter htakeable).mono ?_ fun _ _ he => he.elim)
  rintro _ _ rfl
  refine (takes_insertEntry henter _ _ _ hof htakeable hmetadata).mono ?_
  rintro _ _ w' ⟨id, now, seq, rfl, rfl⟩
  obtain ⟨e, -, hrow, -⟩ := exists_isRow_entryRow id u.id t now seq (isObject_of_asObject hmetadata)
    (Money.settled_of_positive hamount).2 hcurrency htag hof
  rw [typeName_name]
  refine ends_bind (ends_pure (ends_bind (ends_log ?_)))
  rw [entryOf_eq hrow]
  have hnow : [now] = [e.createdAt] :=
    congrArg (fun t => [t]) (Value.instant.inj (Option.some.inj hrow.createdAt))
  exact ends_pure ⟨[], rfl, .none _, hnow, (Option.some.inj hrow.metadata).symm⟩

/-- Particulars that are an object are an object with what made the entry among them. -/
theorem taggedMetadata_object (fields : Fields) (action : String) :
    taggedMetadata (.object fields) action =
      .ok (.object (Fields.put fields "action" (.str action))) := by
  cases fields <;> rfl

section Tagged

variable {u : User} {amount : Decimal} {currency : String} {tag : Option Uuid} {fields : Fields}
  (h : w.Holds cfg base b) (hu : u ∈ b.users) (hamount : cfg.money.Settled amount)
  (hcurrency : cfg.currencyOf details.currency = .str currency)
  (htag : details.rewardId = .ofUuid? tag) (hof : details.reversalOf = .null)
  (hfields : details.metadata = .object fields)

include h hu hamount hcurrency htag hof hfields

/-- Only the clock stops an entry from being posted for a user who is there if what made it is to be
added to its particulars. -/
theorem takes_createTagged (t : EntryType) (action : String) :
    (do
      let metadata ← Op.ofExcept (taggedMetadata details.metadata action)
      createEntry cfg (.uuid u.id) (.str t.name) (.decimal amount) { details with metadata } :
        Op LedgerEntry).Takes 1 w
      fun e ts _ => ts = [e.createdAt] ∧
        e.metadata = .object (Fields.put fields "action" (.str action)) := by
  have htagged := taggedMetadata_object fields action
  rw [← hfields] at htagged
  refine ends_bind (ends_ofExcept_ok htagged ?_)
  exact takes_createEntry h hu t hamount (by exact hcurrency) (by exact htag) (by exact hof)
    b.takeable_none (asObject_orElse _)

/-- Only the clock stops a credit of a user who is there from being posted. -/
theorem takes_createCredit : (createCredit cfg (.uuid u.id) (.decimal amount) details).Takes 1 w
    fun e ts _ => ts = [e.createdAt] ∧
      e.metadata = .object (Fields.put fields "action" (.str "credit")) :=
  takes_createTagged h hu hamount hcurrency htag hof hfields .credit "credit"

/-- Only the clock stops a debit of a user who is there from being posted. -/
theorem takes_createDebit : (createDebit cfg (.uuid u.id) (.decimal amount) details).Takes 1 w
    fun e ts _ => ts = [e.createdAt] ∧
      e.metadata = .object (Fields.put fields "action" (.str "debit")) :=
  takes_createTagged h hu hamount hcurrency htag hof hfields .debit "debit"

end Tagged

/-! ## Taking an entry back -/

/-- An entry is found by its identifier. -/
theorem perform_getEntry (h : w.Holds cfg base b) {e : LedgerEntry} (he : e ∈ b.entries) :
    (getEntry (.uuid e.id)).perform w = (.ok e, w) := by
  obtain ⟨columns, hget, hrow⟩ := h.held.entries.get_keyOf h.sound he
  have hget : w.store.get entriesTable (.uuid e.id) = .ok (some columns) := hget
  rw [getEntry, perform_bind, perform_query, hget]
  dsimp only
  rw [entryOf_eq hrow, perform_ofExcept]

/-- An entry may be taken back on behalf of its reward. -/
theorem perform_requireOwner (id : Value) {e : LedgerEntry} {reward : Value}
    (howner : ∀ owner, e.rewardId = some owner → reward = .uuid owner) :
    (requireOwner id e reward).perform w = (.ok (), w) := by
  unfold requireOwner
  cases hreward : e.rewardId with
  | none => rfl
  | some owner =>
    dsimp only
    rw [howner owner hreward, Value.equalTo_uuid, Value.sameKey_uuid_iff.2 rfl]
    rfl

/-- Only the clock stops an entry from being taken back that counts and has not been taken back
before. -/
theorem takes_reverseEntry (h : w.Holds cfg base b) {e : LedgerEntry} (he : e ∈ b.entries)
    (huser : b.HasUser e.userId) (hposted : e.status = .posted)
    (hfree : ∀ o ∈ b.entries, o.reversalOf ≠ some e.id) (reason : Value) {reward : Value}
    (howner : ∀ owner, e.rewardId = some owner → reward = .uuid owner) :
    (reverseEntry cfg (.uuid e.id) reason reward).Takes 1 w fun _ _ _ => True := by
  have henter := h.enter
  obtain ⟨u, hu, huid⟩ := huser
  obtain ⟨found, hfind, hfound⟩ := exists_findUnique henter e.id
  have hnone : found.isSome = false := Bool.eq_false_iff.2 fun hsome => by
    obtain ⟨o, ho, hof⟩ := hfound.1 hsome
    exact hfree o ho hof
  have htakeable : b.Takeable (some e.id) := by
    rintro _ ⟨⟩
    exact ⟨⟨e, he, rfl, hposted⟩, hfree⟩
  let details : EntryDetails := {
    currency := .str e.currency
    rewardId := .ofUuid? e.rewardId
    reversalOf := .uuid e.id
    metadata := reversalMetadata (.uuid e.id) reason e }
  have hnamed : cfg.currencyOf details.currency = .str e.currency := h.proper.entryCurrencies e he
  have htag : details.rewardId = .ofUuid? e.rewardId := rfl
  have hof : details.reversalOf = .ofUuid? (some e.id) := rfl
  refine timed_bind (k := 0) Clock.counts_gives (timed_transaction ?_)
  refine ends_bind ?_
  rw [Ends, perform_getEntry henter he]
  refine ends_bind ?_
  rw [Ends, perform_requireOwner _ howner]
  dsimp only
  rw [if_neg (by rw [hposted]; decide)]
  refine ends_bind (ends_query_ok hfind ?_)
  rw [hnone]
  have hpost := (takes_createEntry henter hu .reversal (h.proper.entryAmounts e he) hnamed htag hof
    htakeable (asObject_orElse _)).and (ends_createEntry (t := .reversal) henter details hnamed htag)
  rw [huid] at hpost
  refine timed_bind (k := 0) Clock.counts_gives (hpost.mono ?_)
  rintro reversal _ w₁ ⟨-, b₁, hw₁, hposted, -⟩
  have he₁ : e ∈ b₁.entries := by
    rw [hposted.eq]
    exact List.mem_append_left _ he
  have hindex : ∀ ix ∈ [("reversal_of_entry_id", ["reversal_of_entry_id"])], ∀ c ∈ ix.2,
      c ∉ ["status"] := by decide
  refine timed_bind_of_ends (ends_map ((ends_update_of_mem hw₁ hw₁.held.entries rfl he₁
    (List.Subset.refl _) (by exact hindex)).mono ?_ fun _ _ he => he))
  -- what comes after the transaction does not read the clock
  intro _ _ hclock
  exact ⟨hclock, ends_pure ⟨[], rfl, .none _,
    ends_bind (ends_log (ends_pure ⟨[], rfl, .none _, trivial⟩))⟩⟩

end Ledger

end RewardLedger
