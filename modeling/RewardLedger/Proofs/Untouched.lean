import RewardLedger.Proofs.Fault
import RewardLedger.Proofs.Times

/-!
# Refusals leave the tables alone

A transaction inside another one takes nothing back, so an operation must find every reason of the
domain to refuse before it makes its first change. It spares the tables (`Op.Spares`) if a failure of
the domain leaves all rows and all indexes as they were, whether a transaction is open or not. What
only reads spares them, and so does what first spares them and then meets no fault any more
(`Op.Faultless`).

The operations on users, on the ledger and on rewards spare the tables in every store in which the
tables are declared as they should be, whatever the rows are. A credit needs more, since it adds
three rows: the identifier of its entry must be new (`World.FreshIn`).
-/

namespace RewardLedger

variable {cfg : Config}

/-! ## What is left untouched -/

namespace World

/-- The second world has the rows and indexes of the first one and would take the same changes back;
identifiers may have been given out in between. -/
structure Untouched (w w' : World) : Prop where
  /-- The tables are the same. -/
  tables : w'.store.tables = w.store.tables
  /-- The changes that an open transaction takes back are the same. -/
  undo : w'.store.undo = w.store.undo
  /-- Identifiers are given out only. -/
  issued : w.issued ≤ w'.issued

/-- If the failure belongs to the domain, the second world has the tables of the first one. -/
def Spared (w : World) (e : Failure) (w' : World) : Prop := e.isFault = true → w.Untouched w'

/-- The property rests on the tables, and giving identifiers out does not spoil it. -/
def RestsOnTables (P : World → Prop) : Prop :=
  ∀ ⦃w w' : World⦄, w'.store.tables = w.store.tables → w.issued ≤ w'.issued → P w → P w'

variable {w w' w'' : World} {e : Failure}

theorem Untouched.refl (w : World) : w.Untouched w := ⟨rfl, rfl, Nat.le_refl _⟩

theorem Untouched.trans (h : w.Untouched w') (h' : w'.Untouched w'') : w.Untouched w'' :=
  ⟨h'.tables.trans h.tables, h'.undo.trans h.undo, Nat.le_trans h.issued h'.issued⟩

/-- Reading touches nothing. -/
theorem Beside.untouched (h : w.Beside w') : w.Untouched w' :=
  ⟨by rw [h.store], by rw [h.store], h.issued⟩

/-- A transaction whose body touches nothing touches nothing. -/
theorem Untouched.leave (h : w.enter.Untouched w') (keep : Bool) :
    w.Untouched (World.leave w w' keep) := by
  cases hundo : w.store.undo with
  | some changes =>
    have hopen : w.store.inTransaction = true := Option.isSome_iff_exists.2 ⟨changes, hundo⟩
    rw [enter_of_inTransaction hopen] at h
    rw [leave_of_inTransaction hopen]
    exact h
  | none =>
    rw [enter_of_undo_none hundo] at h
    obtain ⟨htables, hempty, hissued⟩ := h
    cases keep with
    | true =>
      rw [leave_kept hundo]
      exact ⟨htables, hundo.symm, hissued⟩
    | false =>
      rw [leave_givenUp hundo]
      refine ⟨?_, hundo.symm, hissued⟩
      -- there is no change to take back
      show ((w'.store.undo.getD []).foldl Store.revert w'.store).tables = _
      rw [show w'.store.undo = some [] from hempty]
      exact htables

/-- What is spared after nothing was touched is spared. -/
theorem Spared.of_untouched (h : w.Untouched w') (hs : w'.Spared e w'') : w.Spared e w'' :=
  fun he => h.trans (hs he)

/-- What is spared inside a transaction is spared by the transaction. -/
theorem Spared.leave (h : w.enter.Spared e w') : w.Spared e (World.leave w w' false) :=
  fun he => (h he).leave false

/-- A failure outside of the domain spares nothing in particular. -/
theorem Spared.of_not_isFault (h : e.isFault = false) : w.Spared e w' :=
  fun he => absurd he (Bool.eq_false_iff.1 h)

/-- Opening a transaction does not spoil what rests on the tables. -/
theorem RestsOnTables.enter {P : World → Prop} (hP : RestsOnTables P) (h : P w) : P w.enter := by
  unfold World.enter
  split
  · exact h
  · exact hP (w := w) rfl (Nat.le_refl _) h

/-- Keeping a transaction does not spoil what rests on the tables. -/
theorem RestsOnTables.leave {P : World → Prop} (hP : RestsOnTables P) (w : World) (h : P w') :
    P (World.leave w w' true) := by
  unfold World.leave
  split
  · exact h
  · exact hP (w := w') rfl (Nat.le_refl _) h

end World

namespace Op

variable {α β : Type} {P Q : World → Prop} {op : Op β} {f : β → Op α}

/-- From worlds with the first property the operation leads to worlds with the second one, or fails
for a reason outside of the domain. -/
def Faultless (P Q : World → Prop) (op : Op α) : Prop :=
  ∀ w, P w → op.Ends w (fun _ w' => Q w') fun e _ => e.isFault = false

/-- From worlds with the first property the operation leads to worlds with the second one, or fails;
if it fails for a reason of the domain, it has left the tables alone. -/
def Spares (P Q : World → Prop) (op : Op α) : Prop :=
  ∀ w, P w → op.Ends w (fun _ w' => Q w') w.Spared

/-! ## Operations that meet no fault -/

theorem faultless_pure (a : α) : (pure a : Op α).Faultless P P := fun _ h => ends_pure h

theorem faultless_ofExcept {r : Except Failure α} (h : NoFault r) :
    (ofExcept r).Faultless P P := fun _ hw => ends_ofExcept (fun _ _ => hw) h

theorem faultless_readClock (hP : World.RestsOnTables P) : readClock.Faultless P P := fun w hw =>
  ends_readClock (fun _ _ _ => hP (w := w) rfl (Nat.le_refl _) hw) fun _ => rfl

theorem faultless_log (hP : World.RestsOnTables P) (level : LogLevel) (event : String)
    (details : Fields) : (log level event details).Faultless P P := fun w hw =>
  ends_log (hP (w := w) rfl (Nat.le_refl _) hw)

variable {R : World → Prop}

theorem faultless_bind (h : op.Faultless P Q) (hf : ∀ b, (f b).Faultless Q R) :
    (op >>= f).Faultless P R := fun w hw =>
  ends_bind ((h w hw).mono (fun b w' hw' => hf b w' hw') fun _ _ he => he)

theorem faultless_map {g : β → α} (h : op.Faultless P Q) : (g <$> op).Faultless P Q := fun w hw =>
  ends_map (h w hw)

/-- Doing something for each item meets no fault if it meets none for one. -/
theorem faultless_forM {g : β → Op PUnit} (h : ∀ b, (g b).Faultless P P) (items : List β) :
    (items.forM g).Faultless P P := by
  induction items with
  | nil => exact faultless_pure _
  | cons b rest ih => exact faultless_bind (h b) fun _ => ih

theorem faultless_transaction (hP : World.RestsOnTables P) (hQ : World.RestsOnTables Q)
    {op : Op α} (h : op.Faultless P Q) : (transaction op).Faultless P Q := fun w hw =>
  ends_transaction ((h w.enter (hP.enter hw)).mono (fun _ _ hw' => hQ.leave w hw')
    fun _ _ he => he)

/-! ## Operations that spare the tables -/

/-- What only reads spares the tables. -/
theorem Reads.spares {op : Op α} (h : op.Reads) (hP : World.RestsOnTables P) : op.Spares P P :=
  fun w hw => (h w w (.refl w)).mono
    (fun _ _ hb => hP hb.untouched.tables hb.issued hw) fun _ _ hb _ => hb.untouched

/-- After something was read, sparing the tables spares those from before. -/
theorem Reads.spares_bind (h : op.Reads) (hP : World.RestsOnTables P)
    (hf : ∀ b, (f b).Spares P Q) : (op >>= f).Spares P Q := fun w hw =>
  ends_bind ((h w w (.refl w)).mono
    (fun b w' hb => (hf b w' (hP hb.untouched.tables hb.issued hw)).mono (fun _ _ hw' => hw')
      fun _ _ hs => hs.of_untouched hb.untouched)
    fun _ _ hb _ => hb.untouched)

/-- Refusing touches nothing. -/
theorem spares_refuse (fault : Fault) : (refuse fault : Op α).Spares P Q := fun w _ =>
  ends_refuse fun _ => .refl w

/-- What meets no fault spares the tables. -/
theorem Faultless.spares {op : Op α} (h : op.Faultless P Q) : op.Spares P Q := fun w hw =>
  (h w hw).mono (fun _ _ hw' => hw') fun _ _ he => .of_not_isFault he

/-- After the tables have been spared, nothing is lost if no fault is met any more. -/
theorem Spares.bind (h : op.Spares P Q) (hf : ∀ b, (f b).Faultless Q R) : (op >>= f).Spares P R :=
  fun w hw => ends_bind ((h w hw).mono
    (fun b w' hw' => (hf b w' hw').mono (fun _ _ hw'' => hw'') fun _ _ he => .of_not_isFault he)
    fun _ _ hs => hs)

theorem Spares.map {g : β → α} (h : op.Spares P Q) : (g <$> op).Spares P Q := fun w hw =>
  ends_map (h w hw)

theorem spares_transaction (hP : World.RestsOnTables P) (hQ : World.RestsOnTables Q) {op : Op α}
    (h : op.Spares P Q) : (transaction op).Spares P Q := fun w hw =>
  ends_transaction ((h w.enter (hP.enter hw)).mono (fun _ _ hw' => hQ.leave w hw')
    fun _ _ hs => hs.leave)

/-- What is done in place of something that found a key taken must spare the tables, too. -/
theorem spares_onDuplicate (hP : World.RestsOnTables P) {op other : Op α} (h : op.Spares P Q)
    (ho : other.Spares P Q) : (onDuplicate op other).Spares P Q := fun w hw =>
  ends_onDuplicate ((h w hw).mono (fun _ _ hw' => hw') fun e w' hs => by
    refine ⟨fun table index key he => ?_, fun _ => hs⟩
    have hu : w.Untouched w' := hs (by rw [he]; rfl)
    exact (ho w' (hP hu.tables hu.issued hw)).mono (fun _ _ hw'' => hw'')
      fun _ _ hs' => hs'.of_untouched hu)

end Op

/-! ## Changes of declared tables -/

/-- The tables stay declared as they were when a row is added. -/
theorem Store.Declared.inserted {s : Store} (h : s.Declared) (name : String) (key : Value)
    (columns : Fields) : (s.inserted name key columns).Declared := by
  intro other
  rw [table?_inserted]
  split
  · rename_i ho
    rw [← h other, ho, Option.map_map]
    congr 1
    funext t
    exact Table.schema_append t _
  · exact h other

/-- The tables stay declared as they were when a row gets other columns. -/
theorem Store.Declared.updated {s : Store} (h : s.Declared) {name : String} {t : Table}
    (ht : s.table? name = some t) (row : Row) (changes : Fields) :
    (s.updated name t row changes).Declared := by
  intro other
  rw [table?_updated ht]
  split
  · rename_i ho
    rw [← h other, ho, ht]
    exact congrArg some (Table.schema_rewrite t row _)
  · exact h other

namespace World

/-- The tables of the world are declared as those of the ledger. -/
def Declared (w : World) : Prop := w.store.Declared

/-- How tables are declared rests on the tables. -/
theorem restsOnTables_declared : RestsOnTables Declared := fun w w' ht _ h name => by
  rw [← h name, Store.table?, Store.table?, ht]

end World

namespace Op

open World

/-- A row that cannot be added leaves the tables alone. -/
theorem ends_insert_spared {w : World} {name : String} {row : Fields}
    {good : Fields → World → Prop}
    (hg : ∀ t columns, w.store.table? name = some t →
      columns = row.put sequenceColumn (.int w.store.nextSeq) →
      good columns { w with store := w.store.inserted name (row.get t.primaryKey) columns }) :
    (change (Store.insert name row)).Ends w good w.Spared := by
  refine ends_change (fun columns s hrun => ?_) fun e s hrun _ => ?_
  · obtain ⟨t, ht, -, -, -, hcolumns, rfl⟩ := Store.of_run_insert_ok hrun
    exact hg t columns ht hcolumns
  · obtain ⟨htables, hundo, -⟩ := Store.of_run_insert_error hrun
    exact ⟨htables, hundo, Nat.le_refl _⟩

/-- Adding a row spares the tables. -/
theorem spares_insert (name : String) (row : Fields) :
    (change (Store.insert name row)).Spares Declared Declared := fun _ hw =>
  ends_insert_spared fun _ _ _ _ => hw.inserted _ _ _

/-- Adding a row, or refusing if a key is taken, spares the tables. -/
theorem spares_insertOrRefuse (name : String) (row : Fields) (fault : Fault) :
    (onDuplicate (change (Store.insert name row)) (refuse fault)).Spares Declared Declared :=
  spares_onDuplicate restsOnTables_declared (spares_insert name row) (spares_refuse fault)

/-- Changing columns that are in no index meets no fault. -/
theorem faultless_update {name : String} (names : List String) (key : Value) {changes : Fields}
    (hnames : changes.names = names) {t₀ : Table} (ht₀ : Store.ledger.table? name = some t₀)
    (hc : ∀ ix ∈ t₀.schema.indexes, ∀ c ∈ ix.2, c ∉ names) :
    (change (Store.update name key changes)).Faultless Declared Declared := by
  subst hnames
  intro w hw
  refine ends_change (fun columns s hrun => ?_) fun e s hrun => ?_
  · obtain ⟨t, row, ht, -, -, -, -, -, rfl⟩ := Store.of_run_update_ok hrun
    exact hw.updated ht row changes
  · refine Store.isFault_of_run_update (fun t ht => ?_) hrun
    rw [hw.schema_eq name ht ht₀]
    exact hc

end Op

open Op World

/-! ## Users -/

namespace Users

/-- Adding a user spares the tables. -/
theorem spares_create (email name : Value) : (create email name).Spares Declared Declared := by
  refine (reads_ofExcept _).spares_bind restsOnTables_declared fun normal => ?_
  refine reads_freshId.spares_bind restsOnTables_declared fun id => ?_
  refine reads_readClock.spares_bind restsOnTables_declared fun now => ?_
  refine (spares_insertOrRefuse _ _ _).bind fun stored => ?_
  exact faultless_bind (faultless_log restsOnTables_declared _ _ _) fun _ =>
    faultless_ofExcept (noFault_toExcept _)

/-- Giving a user another name spares the tables. -/
theorem spares_rename (id name : Value) : (rename id name).Spares Declared Declared := by
  refine spares_transaction restsOnTables_declared restsOnTables_declared ?_
  refine (reads_map (reads_get id)).spares_bind restsOnTables_declared fun _ => ?_
  exact (faultless_bind (faultless_update ["name"] _ rfl rfl (by decide)) fun _ =>
    faultless_ofExcept (noFault_toExcept _)).spares

end Users

/-! ## The ledger -/

namespace Ledger

/-- The type of an entry meets no fault. -/
theorem noFault_typeName (v : Value) : NoFault (typeName v) := by
  unfold typeName
  split
  · split
    · exact .ok _
    · exact .error rfl
  · exact .error rfl

/-- Adding the row of an entry spares the tables. -/
theorem spares_insertEntry (user entryType : Value) (amount : Decimal) (details : EntryDetails) :
    (insertEntry cfg user entryType amount details).Spares Declared Declared := by
  refine reads_freshId.spares_bind restsOnTables_declared fun id => ?_
  refine (reads_ofExcept _).spares_bind restsOnTables_declared fun metadata => ?_
  exact reads_readClock.spares_bind restsOnTables_declared fun now => spares_insertOrRefuse _ _ _

/-- Adding an entry spares the tables. -/
theorem spares_createEntry (user entryType amount : Value) (details : EntryDetails) :
    (createEntry cfg user entryType amount details).Spares Declared Declared := by
  refine (reads_ofExcept _).spares_bind restsOnTables_declared fun value => ?_
  refine Spares.bind (spares_transaction restsOnTables_declared restsOnTables_declared ?_) fun stored => ?_
  · refine (reads_requireUser user).spares_bind restsOnTables_declared fun _ => ?_
    exact (reads_requireReversible _).spares_bind restsOnTables_declared fun _ =>
      spares_insertEntry _ _ _ _
  · refine faultless_bind (faultless_ofExcept (noFault_typeName _)) fun _ => ?_
    exact faultless_bind (faultless_log restsOnTables_declared _ _ _) fun _ =>
      faultless_ofExcept (noFault_toExcept _)

theorem spares_createCredit (user amount : Value) (details : EntryDetails) :
    (createCredit cfg user amount details).Spares Declared Declared :=
  (reads_ofExcept _).spares_bind restsOnTables_declared fun _ => spares_createEntry _ _ _ _

theorem spares_createDebit (user amount : Value) (details : EntryDetails) :
    (createDebit cfg user amount details).Spares Declared Declared :=
  (reads_ofExcept _).spares_bind restsOnTables_declared fun _ => spares_createEntry _ _ _ _

/-- Taking an entry back spares the tables: when the reversal stands, making the entry void meets no
fault. -/
theorem spares_reverseEntry (id reason reward : Value) :
    (reverseEntry cfg id reason reward).Spares Declared Declared := by
  refine Spares.bind (spares_transaction restsOnTables_declared restsOnTables_declared ?_) fun reversal =>
    faultless_bind (faultless_log restsOnTables_declared _ _ _) fun _ => faultless_pure _
  refine (reads_getEntry id).spares_bind restsOnTables_declared fun entry => ?_
  refine (reads_requireOwner id entry reward).spares_bind restsOnTables_declared fun _ => ?_
  by_cases hvoid : entry.status = .void
  · rw [if_pos hvoid]
    exact fun w _ => ends_bind (ends_refuse fun _ => .refl w)
  rw [if_neg hvoid]
  refine (reads_query _).spares_bind restsOnTables_declared fun found => ?_
  cases found with
  | some _ => exact fun w _ => ends_bind (ends_refuse fun _ => .refl w)
  | none =>
    refine (spares_createEntry _ _ _ _).bind fun reversal => ?_
    exact faultless_bind (faultless_map (faultless_update ["status"] _ rfl rfl (by decide))) fun _ =>
      faultless_pure _

end Ledger

/-! ## Recorded requests -/

/-- Recording a request spares the tables. -/
theorem Requests.spares_record (key fingerprint response : Value) :
    (record cfg key fingerprint response).Spares Declared Declared := by
  refine reads_readClock.spares_bind restsOnTables_declared fun now => ?_
  cases now.later? cfg.retention with
  | none => exact fun w _ => ends_throw (.of_not_isFault rfl)
  | some expiry =>
    exact (spares_insert _ _).bind fun _ => faultless_ofExcept (noFault_toExcept _)

/-! ## Moving rewards on -/

namespace Rewards

/-- Confirming a reward spares the tables. -/
theorem spares_confirm (id : Value) : (confirm id).Spares Declared Declared := by
  refine Spares.bind (spares_transaction restsOnTables_declared restsOnTables_declared ?_) fun row =>
    faultless_bind (faultless_log restsOnTables_declared _ _ _) fun _ =>
      faultless_ofExcept (noFault_toExcept _)
  refine (reads_get id).spares_bind restsOnTables_declared fun reward => ?_
  refine (reads_requireTransition _ _).spares_bind restsOnTables_declared fun _ => ?_
  exact reads_readClock.spares_bind restsOnTables_declared fun now =>
    (faultless_update ["status", "confirmed_at"] _ rfl rfl (by decide)).spares

/-- Paying a reward out spares the tables: when the debit stands, moving the reward meets no fault. -/
theorem spares_pay (id : Value) : (pay cfg id).Spares Declared Declared := by
  refine Spares.bind (spares_transaction restsOnTables_declared restsOnTables_declared ?_) fun paid => ?_
  · refine (reads_get id).spares_bind restsOnTables_declared fun reward => ?_
    refine (reads_requireTransition _ _).spares_bind restsOnTables_declared fun _ => ?_
    refine reads_readClock.spares_bind restsOnTables_declared fun now => ?_
    refine (Ledger.spares_createDebit _ _ _).bind fun entry => ?_
    exact faultless_bind (faultless_update ["status", "paid_at"] _ rfl rfl (by decide)) fun _ =>
      faultless_pure _
  · exact faultless_bind (faultless_log restsOnTables_declared _ _ _) fun _ =>
      faultless_bind (faultless_ofExcept (noFault_toExcept _)) fun _ => faultless_pure _

/-- Taking a reward back spares the tables: when its credit is taken back, moving the reward meets no
fault. -/
theorem spares_reverse (id reason : Value) : (reverse cfg id reason).Spares Declared Declared := by
  refine Spares.bind (spares_transaction restsOnTables_declared restsOnTables_declared ?_) fun taken => ?_
  · refine (reads_get id).spares_bind restsOnTables_declared fun reward => ?_
    refine (reads_requireTransition _ _).spares_bind restsOnTables_declared fun _ => ?_
    refine (reads_oldestCredit id).spares_bind restsOnTables_declared fun credit => ?_
    cases credit with
    | none => exact spares_refuse _
    | some credit =>
      refine (Ledger.spares_reverseEntry _ _ _).bind fun reversal => ?_
      refine faultless_bind (faultless_readClock restsOnTables_declared) fun now => ?_
      exact faultless_bind (faultless_update ["status", "reversed_at", "reversal_reason"] _ rfl rfl
        (by decide)) fun _ => faultless_pure _
  · exact faultless_bind (faultless_log restsOnTables_declared _ _ _) fun _ =>
      faultless_bind (faultless_ofExcept (noFault_toExcept _)) fun _ => faultless_pure _

/-- Taking an entry back, with its reward if it credits one, spares the tables. -/
theorem spares_reverseEntry (id reason : Value) : (reverseEntry cfg id reason).Spares Declared Declared := by
  refine spares_transaction restsOnTables_declared restsOnTables_declared ?_
  refine (Ledger.reads_getEntry id).spares_bind restsOnTables_declared fun entry => ?_
  refine (reads_rewardCreditedBy entry id).spares_bind restsOnTables_declared fun reward => ?_
  cases reward with
  | some reward => exact (spares_reverse _ _).bind fun _ => faultless_pure _
  | none => exact Ledger.spares_reverseEntry _ _ _

end Rewards

/-! ## Crediting rewards -/

namespace World

/-- No row of the table has an identifier that is still to be given out. -/
def FreshIn (name : String) (w : World) : Prop :=
  ∀ t, w.store.table? name = some t → ∀ n, w.issued < n → t.find? (.uuid ⟨n⟩) = none

/-- Which identifiers are in use rests on the tables. -/
theorem restsOnTables_freshIn (name : String) : RestsOnTables (FreshIn name) :=
  fun w w' ht hi h t htable n hn => by
    rw [Store.table?, ht] at htable
    exact h t htable n (Nat.lt_of_le_of_lt hi hn)

/-- The tables are declared as they should be, and entries get new identifiers. -/
structure Creditable (w : World) : Prop where
  /-- The tables are declared as those of the ledger. -/
  declared : w.Declared
  /-- No entry has an identifier that is still to be given out. -/
  fresh : w.FreshIn entriesTable

/-- Where the rows stand for records with identifiers that have been given out, those still to be given
out are free. -/
theorem freshIn_of_lists {α : Type} [Stored α] {records : List α} {w : World}
    (h : w.store.Lists records) (hs : w.store.Sound Value.IsPlain)
    (hid : ∀ r ∈ records, ∀ id, Stored.keyOf r = .uuid id → id.value ≤ w.issued) :
    w.FreshIn (Stored.tableName α) := by
  intro t ht n hn
  refine Option.eq_none_iff_forall_ne_some.2 fun row hfind => ?_
  obtain ⟨hrow, hsame⟩ := Table.find?_some hfind
  obtain ⟨r, hr, -, -, hkey⟩ := exists_mem_of_forall₂ (h.forall₂_mem hs ht) hrow
  rw [hkey, Stored.sameKey_iff] at hsame
  exact absurd (hid r hr ⟨n⟩ hsame.symm) (Nat.not_le.2 hn)

/-- A world that holds books adds entries with new identifiers. -/
theorem Holds.creditable {base : Option Store} {b : Books} {w : World} (h : w.Holds cfg base b) :
    w.Creditable where
  declared := h.declared
  fresh := freshIn_of_lists h.held.entries h.sound fun e he id hid => by
    rw [← Value.uuid.inj hid]
    exact h.issued ▸ h.proper.entries e he

/-- A credit can be carried out: its key and the identifiers to come are free, and the user to be
credited is there. -/
structure Payable (user key : Value) (w : World) : Prop extends Creditable w where
  /-- There is a user with the identifier. -/
  user : ∃ row, w.store.get usersTable user = .ok (some row)
  /-- No request was recorded under the key. -/
  free : w.store.get requestsTable key = .ok none

/-- A request with the key can be recorded. -/
structure Recordable (key : Value) (w : World) : Prop where
  /-- The tables are declared as those of the ledger. -/
  declared : w.Declared
  /-- No request was recorded under the key. -/
  free : w.store.get requestsTable key = .ok none

end World

/-- The row with a primary key depends on its table only. -/
theorem Store.get_congr {s s' : Store} {name : String} (h : s'.table? name = s.table? name)
    (key : Value) : s'.get name key = s.get name key := by
  rw [get, get, table, table, h]

/-- A row that is added to another table does not matter. -/
theorem Store.get_inserted_of_ne (s : Store) {name other : String} (h : other ≠ name)
    (key : Value) (columns : Fields) (v : Value) :
    (s.inserted name key columns).get other v = s.get other v :=
  get_congr (by rw [table?_inserted, if_neg h]) v

namespace World

theorem restsOnTables_creditable : RestsOnTables Creditable := fun _ _ ht hi h =>
  ⟨restsOnTables_declared ht hi h.declared, restsOnTables_freshIn _ ht hi h.fresh⟩

theorem restsOnTables_payable (user key : Value) : RestsOnTables (Payable user key) :=
  fun w w' ht hi h => by
    have hsame : ∀ name key, w'.store.get name key = w.store.get name key := fun name key =>
      Store.get_congr (by rw [Store.table?, Store.table?, ht]) key
    exact ⟨restsOnTables_creditable ht hi h.toCreditable, by rw [hsame]; exact h.user,
      by rw [hsame]; exact h.free⟩

theorem restsOnTables_recordable (key : Value) : RestsOnTables (Recordable key) :=
  fun w w' ht hi h => by
    have hsame : w'.store.get requestsTable key = w.store.get requestsTable key :=
      Store.get_congr (by rw [Store.table?, Store.table?, ht]) key
    exact ⟨restsOnTables_declared ht hi h.declared, by rw [hsame]; exact h.free⟩

end World

namespace Ledger

variable {user key : Value}

/-- Adding the row of an entry with a new identifier that takes nothing back meets no fault. -/
theorem isFault_of_insertEntry {w : World} (hw : w.Creditable) {row : Fields} {n : Nat}
    (hn : w.issued < n) (hid : row.get "id" = .uuid ⟨n⟩)
    (hnull : row.get "reversal_of_entry_id" = .null) {e : Failure} {s : Store}
    (hrun : (Store.insert entriesTable row).run.run w.store = (.error e, s)) : e.isFault = false := by
  refine Store.isFault_of_run_insert (fun t ht => ?_) hrun
  have hschema := hw.declared.schema_eq entriesTable ht rfl
  rw [show t.primaryKey = "id" from congrArg Schema.primaryKey hschema, hid]
  refine ⟨hw.fresh t ht n hn, fun ix hix own hown => ?_⟩
  -- an entry that takes nothing back has no key in the index
  have hcolumns := Table.mem_schema hix
  rw [hschema] at hcolumns
  have hcolumns : ix.columns = ["reversal_of_entry_id"] :=
    congrArg Prod.snd (List.mem_singleton.1 hcolumns)
  rw [Index.keyOf?_eq, hcolumns, Fields.keyIn?_put_of_notMem (by decide), Fields.keyIn?,
    List.map_singleton, hnull] at hown
  cases hown

/-- When a credit can be carried out, adding the row of its entry meets no fault, and the request can
still be recorded. -/
theorem faultless_insertEntry (entryType : Value) (amount : Decimal) {details : EntryDetails}
    (hnull : details.reversalOf = .null) :
    (insertEntry cfg user entryType amount details).Faultless (Payable user key)
      (Recordable key) := by
  intro w hw
  refine ends_bind (ends_freshId ?_)
  refine ends_bind (ends_ofExcept (fun metadata _ => ?_) (noFault_asObject _))
  refine ends_bind (ends_readClock (fun now clock _ => ?_) fun _ => rfl)
  refine ends_onDuplicate (ends_change (fun columns s hrun => ?_) fun e s hrun => ?_)
  · obtain ⟨t, ht, -, -, -, -, rfl⟩ := Store.of_run_insert_ok hrun
    exact ⟨hw.declared.inserted _ _ _,
      (Store.get_inserted_of_ne _ (by decide) _ _ _).trans hw.free⟩
  · have hfault := isFault_of_insertEntry hw.toCreditable (Nat.lt_succ_self _) rfl
      (by exact hnull) hrun
    refine ⟨fun table index taken he => ?_, fun _ => hfault⟩
    rw [he] at hfault
    cases hfault

/-- When a credit can be carried out, adding its entry meets no fault. -/
theorem faultless_createEntry (entryType : Value) {amount : Decimal}
    (hsettled : cfg.money.Settled amount) {details : EntryDetails}
    (hnull : details.reversalOf = .null) :
    (createEntry cfg user entryType (.decimal amount) details).Faultless (Payable user key)
      (Recordable key) := by
  have hamount : NoFault (cfg.money.positive (.decimal amount)) := by
    rw [show cfg.money.positive (.decimal amount) = .ok amount from hsettled]
    exact .ok _
  refine faultless_bind (faultless_ofExcept hamount) fun value => ?_
  refine faultless_bind (Q := Recordable key) (faultless_transaction
    (restsOnTables_payable user key) (restsOnTables_recordable key) ?_) fun stored => ?_
  · have huser : (requireUser user).Faultless (Payable user key) (Payable user key) := fun w hw => by
      obtain ⟨row, hrow⟩ := hw.user
      exact ends_bind (ends_query_ok hrow (ends_pure hw))
    refine faultless_bind huser fun _ => ?_
    rw [hnull]
    exact faultless_bind (faultless_pure ()) fun _ => faultless_insertEntry _ _ hnull
  · refine faultless_bind (faultless_ofExcept (noFault_typeName _)) fun _ => ?_
    exact faultless_bind (faultless_log (restsOnTables_recordable key) _ _ _) fun _ =>
      faultless_ofExcept (noFault_toExcept _)

end Ledger

namespace Requests

/-- Adding the row of a request with a free key meets no fault. -/
theorem isFault_of_insertRecord {key : Value} {w : World} (hw : w.Recordable key) {row : Fields}
    (hkey : row.get "key" = key) {e : Failure} {s : Store}
    (hrun : (Store.insert requestsTable row).run.run w.store = (.error e, s)) : e.isFault = false := by
  refine Store.isFault_of_run_insert (fun t ht => ?_) hrun
  have hschema := hw.declared.schema_eq requestsTable ht rfl
  constructor
  · have hfree := hw.free
    rw [Store.get, Store.table, ht] at hfree
    rw [show t.primaryKey = "key" from congrArg Schema.primaryKey hschema, hkey]
    cases hfind : t.find? key with
    | none => rfl
    | some row =>
      simp only [hfind, bind, Except.bind] at hfree
      split at hfree <;> cases hfree
  · intro ix hix
    have hcolumns := Table.mem_schema hix
    rw [hschema] at hcolumns
    cases hcolumns

/-- Recording a request under a free key meets no fault. -/
theorem faultless_record (key fingerprint response : Value) :
    (record cfg key fingerprint response).Faultless (Recordable key) fun _ => True := by
  refine faultless_bind (faultless_readClock (restsOnTables_recordable key)) fun now => ?_
  cases now.later? cfg.retention with
  | none => exact fun w _ => ends_throw rfl
  | some expiry =>
    refine faultless_bind (Q := fun _ => True) (fun w hw => ?_) fun _ =>
      faultless_ofExcept (noFault_toExcept _)
    exact ends_change (fun _ _ _ => trivial) fun e s hrun => isFault_of_insertRecord hw rfl hrun

end Requests

namespace Rewards

/-- A party that is required is there. -/
theorem ends_requireParty_found (role : String) (id : Value) (w : World) :
    (requireParty role id).Ends w
      (fun _ w' => w' = w ∧ ∃ row, w.store.get usersTable id = .ok (some row))
      fun _ w' => w' = w := by
  refine ends_bind (ends_query (fun found hfound => ?_) fun _ _ => rfl)
  cases found with
  | none => exact ends_refuse rfl
  | some row => exact ends_pure ⟨rfl, row, hfound⟩

/-- A request that is not known has a free key. -/
theorem ends_check_free (key fingerprint : Value) (w : World) :
    (Requests.check key fingerprint).Ends w
      (fun standing w' => w.Beside w' ∧
        (standing = .fresh → w'.store.get requestsTable key = .ok none))
      fun _ w' => w.Beside w' := by
  refine ends_bind (ends_query (fun found hfound => ?_) fun _ _ => .refl w)
  cases found with
  | none => exact ends_pure ⟨.refl w, fun _ => hfound⟩
  | some row =>
    refine ends_bind (ends_ofExcept (fun same _ => ?_) fun _ _ => .refl w)
    cases same with
    | true => exact ends_bind (ends_ofExcept (fun _ _ => ends_pure ⟨.refl w, nofun⟩) fun _ _ => .refl w)
    | false => exact ends_bind (ends_log (ends_refuse ⟨rfl, Nat.le_refl _, [], .none _⟩))

/-- Adding the row of a reward spares the tables, and what can be credited can be so afterwards. -/
theorem spares_insertReward (request : CreditRequest) (user key : Value) :
    (insertReward request).Spares (Payable user key) (Payable user key) := by
  refine reads_freshId.spares_bind (restsOnTables_payable _ _) fun id => ?_
  refine reads_readClock.spares_bind (restsOnTables_payable _ _) fun now => ?_
  intro w hw
  refine ends_insert_spared fun t columns ht _ => ?_
  obtain ⟨row, hrow⟩ := hw.user
  refine ⟨⟨hw.declared.inserted _ _ _, fun t' ht' => hw.fresh t' ?_⟩,
    ⟨row, (Store.get_inserted_of_ne _ (by decide) _ _ _).trans hrow⟩,
    (Store.get_inserted_of_ne _ (by decide) _ _ _).trans hw.free⟩
  rw [← ht']
  exact ((Store.table?_inserted _ _ _ _ _).trans (if_neg (by decide))).symm

/-- What is left of a credit once the row of its reward has been added: its entry and the record of the
request are added. -/
def finishCredit (cfg : Config) (request : CreditRequest) (row : Fields) : Op CreditResult := do
  let entry ← Ledger.createCredit cfg request.referrer (.decimal request.amount) {
    currency := request.currency
    rewardId := row.get "id"
    metadata := .object [
      ("reward_type", .str "referral"),
      ("referred_user_id", .str request.referred.plainText)] }
  let reward ← Op.ofExcept (rewardOf row)
  let result : CreditResult := { reward, entry, replayed := false }
  let response ← Op.ofExcept result.json
  discard <| Requests.record cfg request.key (.str request.fingerprint) response
  pure result

/-- A credit requires its parties, adds the row of its reward and finishes. -/
theorem creditFresh_eq (request : CreditRequest) : creditFresh cfg request = (do
    requireParty "Referrer" request.referrer
    requireParty "Referred user" request.referred
    finishCredit cfg request (← insertReward request)) := rfl

/-- Once the row of the reward stands, a credit meets no fault any more. -/
theorem faultless_finishCredit {request : CreditRequest}
    (hsettled : cfg.money.Settled request.amount) (row : Fields) :
    (finishCredit cfg request row).Faultless (Payable request.referrer request.key)
      fun _ => True := by
  refine faultless_bind (Q := Recordable request.key) ?_ fun entry => ?_
  · exact faultless_bind (faultless_ofExcept (Ledger.noFault_taggedMetadata _ _)) fun metadata =>
      Ledger.faultless_createEntry _ hsettled rfl
  · refine faultless_bind (faultless_ofExcept (noFault_toExcept _)) fun reward => ?_
    refine faultless_bind (faultless_ofExcept (noFault_creditResult_json _)) fun response => ?_
    exact faultless_bind (faultless_map (Requests.faultless_record _ _ _)) fun _ => faultless_pure _

/-- A credit with a free key spares the tables: once the row of the reward stands, no fault is met any
more. -/
theorem ends_creditFresh_spared {request : CreditRequest}
    (hsettled : cfg.money.Settled request.amount) {w : World} (hw : w.Creditable)
    (hfree : w.store.get requestsTable request.key = .ok none) :
    (creditFresh cfg request).Ends w (fun _ _ => True) w.Spared := by
  have hrefused : ∀ (e : Failure) (w' : World), w' = w → w.Spared e w' := by
    rintro e _ rfl
    exact fun _ => .refl _
  rw [creditFresh_eq]
  refine ends_bind ((ends_requireParty_found _ _ w).mono ?_ hrefused)
  rintro _ _ ⟨rfl, row, hrow⟩
  refine ends_bind ((ends_requireParty_found _ _ _).mono ?_ hrefused)
  rintro _ _ ⟨rfl, -⟩
  exact Spares.bind (spares_insertReward request request.referrer request.key)
    (faultless_finishCredit hsettled) _ ⟨hw, ⟨_, hrow⟩, hfree⟩

/-- Carrying a request out, or answering it as before, spares the tables. -/
theorem spares_creditOnce {request : CreditRequest} (hsettled : cfg.money.Settled request.amount) :
    (creditOnce cfg request).Spares Creditable fun _ => True := by
  have hrests : RestsOnTables fun _ => True := fun _ _ _ _ _ => trivial
  refine Spares.bind (spares_transaction restsOnTables_creditable hrests ?_) fun result => ?_
  · intro w hw
    refine ends_bind ((ends_check_free _ _ w).mono ?_ fun _ _ hb _ => hb.untouched)
    rintro standing w' ⟨hb, hfree⟩
    have hw' : w'.Creditable := restsOnTables_creditable hb.untouched.tables hb.issued hw
    cases standing with
    | fresh =>
      exact (ends_creditFresh_spared hsettled hw' (hfree rfl)).mono (fun _ _ _ => trivial)
        fun _ _ hs => hs.of_untouched hb.untouched
    | answered response =>
      exact (((reads_replay request response).spares hrests) w' trivial).mono (fun _ _ _ => trivial)
        fun _ _ hs => hs.of_untouched hb.untouched
  · cases result.replayed with
    | true => exact faultless_pure _
    | false => exact faultless_bind (faultless_log hrests _ _ _) fun _ => faultless_pure _

/-- Crediting a reward spares the tables. -/
theorem spares_credit (referrer referred amount key currency metadata : Value) :
    (credit cfg referrer referred amount key currency metadata).Spares Creditable
      fun _ => True := by
  intro w hw
  refine ends_bind (ends_ofExcept (fun request hrequest => ?_) fun _ _ _ => .refl w)
  obtain ⟨value, found, hash, hvalue, -, -, rfl⟩ := exists_of_checkRequest hrequest
  have honce : (creditOnce cfg ⟨referrer, referred, value, cfg.currencyOf currency, key, hash,
      found⟩).Spares Creditable fun _ => True :=
    spares_creditOnce (Money.settled_of_positive hvalue).1
  refine spares_onDuplicate restsOnTables_creditable honce ?_ w hw
  exact (reads_log _ _ _).spares_bind restsOnTables_creditable fun _ => honce

end Rewards

end RewardLedger
