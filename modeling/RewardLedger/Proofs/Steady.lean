import RewardLedger.Proofs.Rule.ReadBack
import RewardLedger.Proofs.Rule.Script
import RewardLedger.Proofs.Rule.Untouched
import RewardLedger.Proofs.WellKept

/-!
# Operations keep the world well kept

Whatever arguments an operation gets, and whether it succeeds or fails, it leads from a well-kept
world to a well-kept one (`Op.Steady`), with every property of the store that lasts. Each operation is
put together from readings, changes of mutable columns and rows that are added. What is to be an index
key has been looked up before the row is added, so it is a key: the entry that is to be taken back
(`Ledger.fails_requireReversible`) and the key of a request (`Requests.fails_check`).

An operation concerns few tables. The property need not last when other tables are changed, so each of
those keeps its rows (`Call.alike_of_passed`).

Only calls of the store itself can leave anything else behind, so every world that a script of other
calls leads through is well kept (`Step.exists_wellKept_of_worldsOfAll`).
-/

namespace RewardLedger

variable {cfg : Config}

/-! ## Steady operations -/

namespace Op

variable {α β : Type} {passed : List String}

/-- The operation keeps a world well kept, and with it every property of the store that lasts. It does
nothing to the tables that are passed by, so these need not last. -/
def Steady (op : Op α) (passed : List String := []) : Prop :=
  ∀ Q, Store.Lasting Q passed → ∀ base, op.Keeps (World.WellKept Q base)

/-- What only reads is steady. -/
theorem Reads.steady {op : Op α} (h : op.Reads) : op.Steady passed := fun Q _ base =>
  h.keeps fun _ _ hb hw => World.restsOnStore_wellKept Q base hb.store hb.issued hw

theorem steady_throw (e : Failure) : (throw e : Op α).Steady passed := fun _ _ _ => keeps_throw e

theorem steady_bind {op : Op β} {f : β → Op α} (h : op.Steady passed)
    (hf : ∀ b, (f b).Steady passed) : (op >>= f).Steady passed := fun Q hQ base =>
  keeps_bind (h Q hQ base) fun b => hf b Q hQ base

/-- What comes after something that always fails, leaving the world alone, does not matter. -/
theorem steady_bind_of_fails {op : Op β} {f : β → Op α}
    (h : ∀ w, op.Ends w (fun _ _ => False) fun _ w' => w' = w) : (op >>= f).Steady passed :=
  fun _ _ _ w hw => ends_bind ((h w).mono (fun _ _ hok => hok.elim) fun _ _ hw' => hw' ▸ hw)

/-- What comes after a computation that does not look at the world may rest on its result. -/
theorem steady_ofExcept_bind {r : Except Failure β} {f : β → Op α}
    (hf : ∀ b, r = .ok b → (f b).Steady passed) : (ofExcept r >>= f).Steady passed :=
  fun Q hQ base w hw => ends_bind (ends_ofExcept (fun b hb => hf b hb Q hQ base w hw) fun _ _ => hw)

theorem steady_map {op : Op β} {f : β → α} (h : op.Steady passed) : (f <$> op).Steady passed :=
  fun Q hQ base => keeps_map (h Q hQ base)

theorem steady_tryCatch {op : Op α} {handler : Failure → Op α} (h : op.Steady passed)
    (hh : ∀ e, (handler e).Steady passed) : (tryCatch op handler).Steady passed := fun Q hQ base =>
  keeps_tryCatch (h Q hQ base) fun e => hh e Q hQ base

theorem steady_onDuplicate {op other : Op α} (h : op.Steady passed) (ho : other.Steady passed) :
    (onDuplicate op other).Steady passed := fun Q hQ base =>
  keeps_onDuplicate (h Q hQ base) (ho Q hQ base)

theorem steady_mapM {f : β → Op α} (h : ∀ b, (f b).Steady passed) (items : List β) :
    (items.mapM f).Steady passed := fun Q hQ base => keeps_mapM (fun b => h b Q hQ base) items

theorem steady_forM {f : β → Op PUnit} (h : ∀ b, (f b).Steady passed) (items : List β) :
    (items.forM f).Steady passed := fun Q hQ base => keeps_forM (fun b => h b Q hQ base) items

/-- A transaction is steady if its body is. -/
theorem steady_transaction {op : Op α} (h : op.Steady passed) : (transaction op).Steady passed :=
  fun Q hQ _ w hw => ends_transaction ((h Q hQ _ w.enter (hw.enter hQ)).mono
    (fun _ _ hw' => hw.leave hQ hw' true) fun _ _ hw' => hw.leave hQ hw' false)

/-- Adding a row is steady if it is one that the services add and its index columns are keys or
null. -/
theorem steady_insert {name : String} (hname : name ∉ passed) {row : Fields}
    (hrow : row.Added name) {t₀ : Table} (ht₀ : Store.ledger.table? name = some t₀)
    (hix : ∀ ix ∈ t₀.schema.indexes, row.FitsKey Value.IsKey ix.2) :
    (change (Store.insert name row)).Steady passed := fun _ hQ _ =>
  keeps_insert hQ hname hrow ht₀ hix

/-- Changing columns that are in no index is steady. -/
theorem steady_update {name : String} (hname : name ∉ passed) (key : Value) {changes : Fields}
    (hchanges : changes.Changed name) {t₀ : Table} (ht₀ : Store.ledger.table? name = some t₀)
    (hc : ∀ ix ∈ t₀.schema.indexes, ∀ c ∈ ix.2, c ∉ changes.names) :
    (change (Store.update name key changes)).Steady passed := fun _ hQ _ =>
  keeps_update hQ hname key hchanges ht₀ hc

end Op

/-- A row with an identifier is one that the services add to a table other than that of rules. -/
theorem Fields.added_of_id {table : String} (hne : table ≠ rulesTable) {columns : Fields} {u : Uuid}
    (h : columns.get "id" = .uuid u) : columns.Added table :=
  ⟨fun _ => ⟨u, h⟩, fun heq => absurd heq hne⟩

/-- The columns that change are not those of a rule. -/
theorem Fields.changed_of_ne {table : String} (hne : table ≠ rulesTable) (changes : Fields) :
    changes.Changed table := fun heq => absurd heq hne

/-- A row fits an index on one column if that column is a key or null. -/
theorem Fields.fitsKey_of_single {K : Value → Prop} {index column : String} {row : Fields}
    (h : KeyKind.OrNull K (row.get column)) :
    ∀ ix ∈ [(index, [column])], row.FitsKey K ix.2 := by
  intro ix hix c hc
  rw [List.mem_singleton.1 hix] at hc
  rw [List.mem_singleton.1 hc]
  exact h

/-- Nothing is found under what can be no key; the question itself fails. -/
theorem Store.get_error_of_not_orNull {v : Value} (h : ¬KeyKind.OrNull Value.IsKey v) (s : Store)
    (name : String) : ∃ e, s.get name v = .error e := by
  have hhashable : v.hashable = false := by
    cases hv : v.hashable with
    | false => rfl
    | true =>
      refine absurd ?_ h
      cases v with
      | null => exact .inl rfl
      | _ => exact .inr ⟨hv, rfl⟩
  rw [Store.get, Store.table, hhashable]
  cases s.table? name with
  | none => exact ⟨_, rfl⟩
  | some t => exact ⟨_, rfl⟩

open Op

variable {passed : List String}

/-- What comes after rows have been selected may rest on how the services keep rows. -/
theorem Op.steady_select_bind {α : Type} {name : String} {keep : Fields → Except Failure Bool}
    {f : List Fields → Op α}
    (hf : ∀ rows, (∀ columns ∈ rows, ∃ row : Row, row.Kept name ∧ row.columns = columns) →
      (f rows).Steady passed) : (query (·.select name keep) >>= f).Steady passed := by
  intro Q hQ base w hw
  refine ends_bind (ends_query (fun rows hrows => hf rows (fun columns hmem => ?_) Q hQ base w hw)
    fun _ _ => hw)
  obtain ⟨t, ht, hselected⟩ := hw.sound.of_select hrows
  obtain ⟨row, hrow, hcolumns⟩ := hselected columns hmem
  exact ⟨row, hw.kept name t ht row hrow, hcolumns⟩

/-! ## Users -/

namespace Users

theorem steady_create (h : usersTable ∉ passed) (email name : Value) :
    (create email name).Steady passed := by
  refine steady_ofExcept_bind fun normal hnormal => ?_
  obtain ⟨s, rfl⟩ := exists_of_normalEmail hnormal
  refine steady_bind reads_freshId.steady fun id => steady_bind reads_readClock.steady fun now => ?_
  have hinsert : (change (Store.insert usersTable [("id", .uuid id), ("email", .str s),
      ("name", name), ("created_at", .instant now)])).Steady passed :=
    steady_insert h (Fields.added_of_id (by decide) rfl) rfl
      (Fields.fitsKey_of_single (.inr ⟨rfl, rfl⟩))
  refine steady_bind (steady_onDuplicate hinsert (reads_refuse _).steady) fun stored => ?_
  exact steady_bind (reads_log _ _ _).steady fun _ => (reads_ofExcept _).steady

theorem steady_rename (h : usersTable ∉ passed) (id name : Value) :
    (rename id name).Steady passed := by
  refine steady_transaction (steady_bind (reads_map (reads_get id)).steady fun _ => ?_)
  have hupdate : (change (Store.update usersTable id [("name", name)])).Steady passed :=
    steady_update h id (Fields.changed_of_ne (by decide) _) rfl
      (by simp [Table.schema, Fields.names])
  exact steady_bind hupdate fun _ => (reads_ofExcept _).steady

end Users

/-! ## The ledger -/

namespace Ledger

/-- An entry that is to be taken back is looked up first, so what can be no key is not found. -/
theorem fails_requireReversible {id : Value} (h : ¬KeyKind.OrNull Value.IsKey id) (w : World) :
    (requireReversible id).Ends w (fun _ _ => False) fun _ w' => w' = w := by
  have hnull : id.isNull = false := by
    cases id with
    | null => exact absurd (.inl rfl) h
    | _ => rfl
  unfold requireReversible
  rw [hnull]
  obtain ⟨e, he⟩ := Store.get_error_of_not_orNull h w.store entriesTable
  refine ends_bind (ends_query (fun _ hfound => ?_) fun _ _ => rfl)
  rw [he] at hfound
  cases hfound

/-- Adding the row of an entry is steady if what it takes back is a key or null. -/
theorem steady_insertEntry (he : entriesTable ∉ passed) (user entryType : Value)
    (amount : Decimal) {details : EntryDetails} (h : KeyKind.OrNull Value.IsKey details.reversalOf) :
    (insertEntry cfg user entryType amount details).Steady passed := by
  refine steady_bind reads_freshId.steady fun id =>
    steady_bind (reads_ofExcept _).steady fun metadata =>
      steady_bind reads_readClock.steady fun now => ?_
  refine steady_onDuplicate ?_ (reads_refuse _).steady
  exact steady_insert he (Fields.added_of_id (by decide) rfl) rfl (Fields.fitsKey_of_single h)

theorem steady_createEntry (he : entriesTable ∉ passed) (user entryType amount : Value)
    (details : EntryDetails) :
    (createEntry cfg user entryType amount details).Steady passed := by
  refine steady_bind (reads_ofExcept _).steady fun value => ?_
  refine steady_bind (steady_transaction ?_) fun stored => ?_
  · refine steady_bind (reads_requireUser user).steady fun _ => ?_
    -- what can be no key is not found, so no row with it is added
    by_cases hkey : KeyKind.OrNull Value.IsKey details.reversalOf
    · exact steady_bind (reads_requireReversible _).steady fun _ => steady_insertEntry he _ _ _ hkey
    · exact steady_bind_of_fails (fails_requireReversible hkey)
  · exact steady_bind (reads_ofExcept _).steady fun _ =>
      steady_bind (reads_log _ _ _).steady fun _ => (reads_ofExcept _).steady

theorem steady_createCredit (he : entriesTable ∉ passed) (user amount : Value)
    (details : EntryDetails) :
    (createCredit cfg user amount details).Steady passed :=
  steady_bind (reads_ofExcept _).steady fun _ => steady_createEntry he _ _ _ _

theorem steady_createDebit (he : entriesTable ∉ passed) (user amount : Value)
    (details : EntryDetails) :
    (createDebit cfg user amount details).Steady passed :=
  steady_bind (reads_ofExcept _).steady fun _ => steady_createEntry he _ _ _ _

theorem steady_reverseEntry (he : entriesTable ∉ passed) (id reason reward : Value) :
    (reverseEntry cfg id reason reward).Steady passed := by
  refine steady_bind (steady_transaction ?_) fun reversal =>
    steady_bind (reads_log _ _ _).steady fun _ => (reads_pure _).steady
  refine steady_bind (reads_getEntry id).steady fun entry =>
    steady_bind (reads_requireOwner id entry reward).steady fun _ => ?_
  by_cases hvoid : entry.status = .void
  · rw [if_pos hvoid]
    exact steady_bind_of_fails fun _ => ends_refuse rfl
  rw [if_neg hvoid]
  refine steady_bind (reads_query _).steady fun found => ?_
  cases found with
  | some _ => exact steady_bind_of_fails fun _ => ends_refuse rfl
  | none =>
    refine steady_bind (steady_createEntry he _ _ _ _) fun reversal => ?_
    have hvoided : (change (Store.update entriesTable id
        [("status", .str EntryStatus.void.name)])).Steady passed :=
      steady_update he id (Fields.changed_of_ne (by decide) _) rfl
        (by simp [Table.schema, Fields.names])
    exact steady_bind (steady_map hvoided) fun _ => (reads_pure _).steady

end Ledger

/-! ## Recorded requests -/

namespace Requests

/-- A key is looked up first, so what can be no key is not found. -/
theorem fails_check {key : Value} (h : ¬KeyKind.OrNull Value.IsKey key) (fingerprint : Value)
    (w : World) : (check key fingerprint).Ends w (fun _ _ => False) fun _ w' => w' = w := by
  obtain ⟨e, he⟩ := Store.get_error_of_not_orNull h w.store requestsTable
  refine ends_bind (ends_query (fun _ hfound => ?_) fun _ _ => rfl)
  rw [he] at hfound
  cases hfound

theorem steady_record (h : requestsTable ∉ passed) (key fingerprint response : Value) :
    (record cfg key fingerprint response).Steady passed := by
  refine steady_bind reads_readClock.steady fun now => ?_
  cases now.later? cfg.retention with
  | none => exact steady_throw _
  | some expiry =>
    refine steady_bind ?_ fun _ => (reads_ofExcept _).steady
    refine steady_insert h ⟨fun hne => absurd rfl hne, fun heq => absurd heq (by decide)⟩ rfl ?_
    exact fun _ hix => absurd hix List.not_mem_nil

end Requests

/-! ## Rewards -/

namespace Rewards

/-- The tables that credits add rows to are not passed by. -/
structure PassedByCredits (passed : List String) : Prop where
  /-- Rewards are added. -/
  rewards : rewardsTable ∉ passed
  /-- Their credits are added. -/
  entries : entriesTable ∉ passed
  /-- The requests are recorded. -/
  requests : requestsTable ∉ passed

/-- If no table is passed by, none of these is. -/
theorem passedByCredits_nil : PassedByCredits [] :=
  ⟨List.not_mem_nil, List.not_mem_nil, List.not_mem_nil⟩

/-- Adding the row of a reward is steady if the key of the request is a key or null. -/
theorem steady_insertReward (hr : rewardsTable ∉ passed) {request : CreditRequest}
    (h : KeyKind.OrNull Value.IsKey request.key) : (insertReward request).Steady passed :=
  steady_bind reads_freshId.steady fun _ => steady_bind reads_readClock.steady fun _ =>
    steady_insert hr (Fields.added_of_id (by decide) rfl) rfl (Fields.fitsKey_of_single h)

theorem steady_creditFresh (hp : PassedByCredits passed) {request : CreditRequest}
    (h : KeyKind.OrNull Value.IsKey request.key) : (creditFresh cfg request).Steady passed := by
  refine steady_bind (reads_requireParty _ _).steady fun _ =>
    steady_bind (reads_requireParty _ _).steady fun _ => ?_
  refine steady_bind (steady_insertReward hp.rewards h) fun row =>
    steady_bind (Ledger.steady_createCredit hp.entries _ _ _) fun entry => ?_
  refine steady_bind (reads_ofExcept _).steady fun reward =>
    steady_bind (reads_ofExcept _).steady fun response => ?_
  exact steady_bind (steady_map (Requests.steady_record hp.requests _ _ _)) fun _ =>
    (reads_pure _).steady

/-- Carrying a request out, or answering it as before, is steady. -/
theorem steady_answer (hp : PassedByCredits passed) (request : CreditRequest) :
    (do
      match ← Requests.check request.key (.str request.fingerprint) with
      | .answered response => replay request response
      | .fresh => creditFresh cfg request : Op CreditResult).Steady passed := by
  -- what can be no key is not found, so nothing is recorded under it
  by_cases hkey : KeyKind.OrNull Value.IsKey request.key
  · refine steady_bind (Requests.reads_check _ _).steady fun standing => ?_
    cases standing with
    | fresh => exact steady_creditFresh hp hkey
    | answered response => exact (reads_replay request response).steady
  · exact steady_bind_of_fails (Requests.fails_check hkey _)

theorem steady_creditOnce (hp : PassedByCredits passed) (request : CreditRequest) :
    (creditOnce cfg request).Steady passed := by
  refine steady_bind (steady_transaction (steady_answer hp request)) fun result => ?_
  cases result.replayed with
  | true => exact (reads_pure _).steady
  | false => exact steady_bind (reads_log _ _ _).steady fun _ => (reads_pure _).steady

theorem steady_credit (hp : PassedByCredits passed)
    (referrer referred amount key currency metadata : Value) :
    (credit cfg referrer referred amount key currency metadata).Steady passed := by
  refine steady_bind (reads_ofExcept _).steady fun request => ?_
  exact steady_onDuplicate (steady_creditOnce hp request)
    (steady_bind (reads_log _ _ _).steady fun _ => steady_creditOnce hp request)

/-- Changing columns of a reward that are in no index is steady. -/
theorem steady_updateReward (hr : rewardsTable ∉ passed) (id : Value) {changes : Fields}
    (hc : "idempotency_key" ∉ changes.names) :
    (change (Store.update rewardsTable id changes)).Steady passed := by
  refine steady_update hr id (Fields.changed_of_ne (by decide) _) rfl ?_
  intro ix hix c hcolumn
  rw [List.mem_singleton.1 (show ix ∈ [("idempotency_key", ["idempotency_key"])] from hix)]
    at hcolumn
  rwa [List.mem_singleton.1 hcolumn]

theorem steady_confirm (hr : rewardsTable ∉ passed) (id : Value) :
    (confirm id).Steady passed := by
  refine steady_bind (steady_transaction ?_) fun row =>
    steady_bind (reads_log _ _ _).steady fun _ => (reads_ofExcept _).steady
  refine steady_bind (reads_get id).steady fun reward =>
    steady_bind (reads_requireTransition _ _).steady fun _ => ?_
  exact steady_bind reads_readClock.steady fun _ =>
    steady_updateReward hr _ (by simp [Fields.names])

theorem steady_pay (hr : rewardsTable ∉ passed) (he : entriesTable ∉ passed) (id : Value) :
    (pay cfg id).Steady passed := by
  refine steady_bind (steady_transaction ?_) fun paid => ?_
  · refine steady_bind (reads_get id).steady fun reward =>
      steady_bind (reads_requireTransition _ _).steady fun _ => ?_
    refine steady_bind reads_readClock.steady fun now =>
      steady_bind (Ledger.steady_createDebit he _ _ _) fun entry => ?_
    exact steady_bind (steady_updateReward hr _ (by simp [Fields.names])) fun _ =>
      (reads_pure _).steady
  · exact steady_bind (reads_log _ _ _).steady fun _ =>
      steady_bind (reads_ofExcept _).steady fun _ => (reads_pure _).steady

theorem steady_reverse (hr : rewardsTable ∉ passed) (he : entriesTable ∉ passed)
    (id reason : Value) : (reverse cfg id reason).Steady passed := by
  refine steady_bind (steady_transaction ?_) fun taken => ?_
  · refine steady_bind (reads_get id).steady fun reward =>
      steady_bind (reads_requireTransition _ _).steady fun _ => ?_
    refine steady_bind (reads_oldestCredit id).steady fun credit => ?_
    cases credit with
    | none => exact (reads_refuse _).steady
    | some credit =>
      refine steady_bind (Ledger.steady_reverseEntry he _ _ _) fun reversal =>
        steady_bind reads_readClock.steady fun now => ?_
      exact steady_bind (steady_updateReward hr _ (by simp [Fields.names])) fun _ =>
        (reads_pure _).steady
  · exact steady_bind (reads_log _ _ _).steady fun _ =>
      steady_bind (reads_ofExcept _).steady fun _ => (reads_pure _).steady

theorem steady_reverseEntry (hr : rewardsTable ∉ passed) (he : entriesTable ∉ passed)
    (id reason : Value) : (reverseEntry cfg id reason).Steady passed := by
  refine steady_transaction (steady_bind (Ledger.reads_getEntry id).steady fun entry => ?_)
  refine steady_bind (reads_rewardCreditedBy entry id).steady fun reward => ?_
  cases reward with
  | some reward => exact steady_bind (steady_reverse hr he _ _) fun _ => (reads_pure _).steady
  | none => exact Ledger.steady_reverseEntry he _ _ _

end Rewards

/-! ## Rules -/

namespace RuleBook

/-- Changing whether a rule is active is steady. -/
theorem steady_activate (h : rulesTable ∉ passed) (id active : Value) :
    (change (Store.update rulesTable id [("is_active", active)])).Steady passed :=
  steady_update h id (fun _ => ⟨active, rfl⟩) rfl (by simp [Table.schema, Fields.names])

theorem steady_deactivateAll (h : rulesTable ∉ passed) (rows : List Fields) :
    (deactivateAll rows).Steady passed := by
  refine steady_forM (fun row => ?_) rows
  refine steady_bind (reads_ofExcept _).steady fun active => ?_
  cases active with
  | true => exact steady_bind (reads_ofExcept _).steady fun _ => steady_map (steady_activate h _ _)
  | false => exact (reads_pure _).steady

/-- Versions that are kept have numbers. -/
theorem exists_version {rows : List Fields}
    (hrows : ∀ columns ∈ rows, ∃ row : Row, row.Kept rulesTable ∧ row.columns = columns) :
    ∀ columns ∈ rows, ∃ n : Nat, columns.find? "version" = some (.int n) := by
  intro columns hmem
  obtain ⟨row, hrow, rfl⟩ := hrows columns hmem
  obtain ⟨r, -, hr⟩ := hrow.rule rfl
  exact ⟨r.version, hr.version⟩

/-- The number of the next version after versions that are kept is a number of a version. -/
theorem exists_of_nextVersion {rows : List Fields} {version : Value}
    (hrows : ∀ columns ∈ rows, ∃ row : Row, row.Kept rulesTable ∧ row.columns = columns)
    (h : nextVersion rows = .ok version) : ∃ n : Nat, version = .int n := by
  have hversions := exists_version hrows
  obtain ⟨n, rfl, hbelow⟩ := lt_of_nextVersion (fun columns hmem => by
    obtain ⟨n, hn⟩ := hversions columns hmem
    exact ⟨n, hn⟩) h
  cases rows with
  | nil =>
    cases h
    exact ⟨1, rfl⟩
  | cons first rest =>
    -- the number is above that of the first version, and so no negative one
    obtain ⟨k, hk⟩ := hversions first List.mem_cons_self
    obtain ⟨v, hv, hlt⟩ := hbelow first List.mem_cons_self
    rw [hk] at hv
    cases hv
    exact ⟨n.toNat, by rw [Int.toNat_of_nonneg (by omega)]⟩

theorem steady_create (h : rulesTable ∉ passed)
    (name conditions actions metadata description active : Value) :
    (create name conditions actions metadata description active).Steady passed := by
  unfold create
  cases hname : isName name with
  | false => exact steady_bind_of_fails fun _ => ends_throw rfl
  | true =>
    obtain ⟨s, rfl⟩ := exists_of_isName hname
    refine steady_ofExcept_bind fun condition hcondition =>
      steady_ofExcept_bind fun actions hactions => ?_
    refine steady_bind (steady_transaction ?_) fun stored =>
      steady_bind (reads_log _ _ _).steady fun _ => (reads_ofExcept _).steady
    refine steady_select_bind fun previous hprevious => ?_
    refine steady_ofExcept_bind fun version hversion => ?_
    obtain ⟨n, rfl⟩ := exists_of_nextVersion hprevious hversion
    refine steady_bind (steady_deactivateAll h previous) fun _ =>
      steady_bind reads_freshId.steady fun id => ?_
    refine steady_ofExcept_bind fun metadata hmetadata =>
      steady_bind reads_readClock.steady fun now => ?_
    refine steady_bind ?_ fun _ => (reads_pure _).steady
    refine steady_insert h ⟨fun _ => ⟨id, rfl⟩, fun _ => ?_⟩ rfl ?_
    · exact ⟨⟨id, s, n, condition, actions, active, description, metadata, now, 0⟩,
        ⟨hname, (Action.of_readList hactions).1⟩, .of_read hcondition,
        Action.Proper.of_readList hactions, Value.asObject_of_asObject hmetadata, rfl⟩
    · -- the name and the number are keys
      intro ix hix c hc
      rw [List.mem_singleton.1 (show ix ∈ [("name_version", ["name", "version"])] from hix)] at hc
      rcases List.mem_cons.1 hc with rfl | hc
      · exact .inr ⟨rfl, rfl⟩
      · rw [List.mem_singleton.1 hc]
        exact .inr ⟨rfl, rfl⟩

theorem steady_setActive (h : rulesTable ∉ passed) (row : Fields) (active : Value) :
    (setActive row active).Steady passed := by
  -- what is done to the rule itself, with or without others that are switched off before
  have hrest : ∀ id : Value, (do
      let updated ← change (Store.update rulesTable id [("is_active", active)])
      log .info "rule_activation_changed" [("rule_id", .str id.plainText), ("is_active", active)]
      Op.ofExcept (Rule.ofRow updated) : Op Rule).Steady passed := fun id =>
    steady_bind (steady_activate h id active) fun _ => steady_bind (reads_log _ _ _).steady fun _ =>
      (reads_ofExcept _).steady
  refine steady_bind (reads_ofExcept _).steady fun id => ?_
  cases active.truthy with
  | false => exact hrest id
  | true =>
    refine steady_bind (reads_ofExcept _).steady fun name =>
      steady_bind (reads_query _).steady fun others => ?_
    refine steady_bind (steady_forM (fun other => ?_) others) fun _ => hrest id
    refine steady_bind (reads_ofExcept _).steady fun otherId =>
      steady_bind (reads_ofExcept _).steady fun same => ?_
    cases same with
    | true => exact (reads_pure _).steady
    | false => exact steady_map (steady_activate h _ _)

theorem steady_update (h : rulesTable ∉ passed) (id : Value) (changes : Changes) :
    (update id changes).Steady passed := by
  refine steady_transaction (steady_bind (reads_row id).steady fun current => ?_)
  cases changes.concernContent with
  | false =>
    cases changes.active.isNull with
    | true => exact (reads_ofExcept _).steady
    | false => exact steady_setActive h _ _
  | true =>
    -- each part is given or taken from the row, and neither looks at the world
    cases changes.name.truthy <;> cases changes.conditions <;> cases changes.actions
    all_goals
      refine steady_bind (by first | exact (reads_pure _).steady | exact (reads_ofExcept _).steady)
        fun name => ?_
      refine steady_bind (by first | exact (reads_pure _).steady | exact (reads_ofExcept _).steady)
        fun conds => ?_
      refine steady_bind (by first | exact (reads_pure _).steady | exact (reads_ofExcept _).steady)
        fun actions => ?_
      exact steady_bind (reads_ofExcept _).steady fun _ =>
        steady_bind (reads_ofExcept _).steady fun _ => steady_create h _ _ _ _ _ _

theorem steady_deactivate (h : rulesTable ∉ passed) (id : Value) :
    (deactivate id).Steady passed :=
  steady_transaction (steady_bind (reads_row id).steady fun current =>
    steady_setActive h current _)

end RuleBook

/-! ## Carrying actions out -/

namespace Dispatch

theorem steady_run (hp : Rewards.PassedByCredits passed) (handlers : Handlers)
    (actions : List TriggeredAction) (context : DispatchContext) :
    (run cfg handlers actions context).Steady passed := fun Q hQ base =>
  keeps_run (keeps_log (World.restsOnStore_wellKept Q base))
    (fun _ _ _ _ => Rewards.steady_credit hp _ _ _ _ _ _ Q hQ base) handlers actions

end Dispatch

/-! ## Demonstration data -/

theorem Seed.steady_user (hu : usersTable ∉ passed) (email name : String) :
    (user email name).Steady passed := by
  refine steady_tryCatch (Users.reads_getByEmail _).steady fun e => ?_
  split
  · exact Users.steady_create hu _ _
  · exact steady_throw _

theorem Seed.steady_run (hu : usersTable ∉ passed) (hr : rulesTable ∉ passed) :
    Seed.run.Steady passed := by
  have huser : ∀ u : String × String, (user u.1 u.2).Steady passed := fun u =>
    steady_user hu u.1 u.2
  have hrule : rule.Steady passed := by
    refine steady_bind (RuleBook.reads_latest? _).steady fun found => ?_
    cases found with
    | some found => exact (reads_pure _).steady
    | none => exact RuleBook.steady_create hr _ _ _ _ _ _
  exact steady_bind (steady_mapM huser _) fun users => steady_bind hrule fun rule =>
    steady_bind (reads_log _ _ _).steady fun _ => (reads_pure _).steady

/-! ## Calls -/

namespace Call

/-- The call is one of the services, not of the store itself, unless it only looks something up. -/
def OfServices : Call → Prop
  | store call => (Call.store call).IsReading
  | _ => True

/-- The tables that a call of the services may change. -/
def writes : Call → List String
  | createUser .. | renameUser .. => [usersTable]
  | createEntry .. | createCredit .. | createDebit .. | reverseEntry .. => [entriesTable]
  | recordRequest .. => [requestsTable]
  | confirmReward .. => [rewardsTable]
  | payReward .. | reverseReward .. | reverseRewardEntry .. => [rewardsTable, entriesTable]
  | creditReward .. | dispatchEvent .. | dispatchActions .. =>
    [rewardsTable, entriesTable, requestsTable]
  | createRule .. | updateRule .. | deactivateRule .. => [rulesTable]
  | seed => [usersTable, rulesTable]
  | _ => []

theorem steady_written {α : Type} {write : α → Except Failure Value} {op : Op α}
    (h : op.Steady passed) : (written write op).Steady passed :=
  steady_bind h fun _ => (reads_ofExcept _).steady

theorem steady_dispatch (hp : Rewards.PassedByCredits passed) (actions : List TriggeredAction)
    (context : DispatchContext) : (dispatch cfg actions context).Steady passed :=
  fun Q hQ base w hw => steady_bind (Dispatch.steady_run hp w.handlers actions context)
    (fun _ => steady_bind (reads_ofExcept _).steady fun _ => (reads_pure _).steady) Q hQ base w hw

/-- What credits write to is not passed by. -/
theorem passedByCredits
    (h : ∀ name ∈ [rewardsTable, entriesTable, requestsTable], name ∉ passed) :
    Rewards.PassedByCredits passed :=
  ⟨h _ (by simp), h _ (by simp), h _ (by simp)⟩

/-- Whatever call of the services is made with whatever arguments, it keeps the world well kept, and
passes by the tables that it does not write to. -/
theorem steady {call : Call} (h : call.OfServices) (hp : ∀ name ∈ call.writes, name ∉ passed) :
    (call.perform cfg).Steady passed := by
  by_cases hreading : call.IsReading
  · exact (reads hreading).steady
  -- a call that may write is as steady as the service that it calls, for the tables of that service
  cases call with
  | createUser email name => exact steady_map (Users.steady_create (hp _ (by simp [writes])) _ _)
  | renameUser id name => exact steady_map (Users.steady_rename (hp _ (by simp [writes])) _ _)
  | createEntry user entryType amount details =>
    exact steady_written (Ledger.steady_createEntry (hp _ (by simp [writes])) _ _ _ _)
  | createCredit user amount details =>
    exact steady_written (Ledger.steady_createCredit (hp _ (by simp [writes])) _ _ _)
  | createDebit user amount details =>
    exact steady_written (Ledger.steady_createDebit (hp _ (by simp [writes])) _ _ _)
  | reverseEntry id reason reward =>
    exact steady_written (Ledger.steady_reverseEntry (hp _ (by simp [writes])) _ _ _)
  | recordRequest key hash response =>
    exact steady_written (Requests.steady_record (hp _ (by simp [writes])) _ _ _)
  | creditReward referrer referred amount key currency metadata =>
    exact steady_written (Rewards.steady_credit (passedByCredits hp) _ _ _ _ _ _)
  | confirmReward id =>
    exact steady_written (Rewards.steady_confirm (hp _ (by simp [writes])) _)
  | payReward id =>
    exact steady_written
      (Rewards.steady_pay (hp _ (by simp [writes])) (hp _ (by simp [writes])) _)
  | reverseReward id reason =>
    exact steady_written
      (Rewards.steady_reverse (hp _ (by simp [writes])) (hp _ (by simp [writes])) _ _)
  | reverseRewardEntry id reason =>
    exact steady_written
      (Rewards.steady_reverseEntry (hp _ (by simp [writes])) (hp _ (by simp [writes])) _ _)
  | createRule name conditions actions metadata description active =>
    exact steady_written (RuleBook.steady_create (hp _ (by simp [writes])) _ _ _ _ _ _)
  | updateRule id changes =>
    exact steady_written (RuleBook.steady_update (hp _ (by simp [writes])) _ _)
  | deactivateRule id =>
    exact steady_written (RuleBook.steady_deactivate (hp _ (by simp [writes])) _)
  | dispatchEvent event context =>
    exact steady_bind (RuleEngine.reads_evaluate event).steady fun _ =>
      steady_dispatch (passedByCredits hp) _ _
  | dispatchActions actions context => exact steady_dispatch (passedByCredits hp) _ _
  | registerHandler type handler =>
    exact fun Q _ base w hw => World.restsOnStore_wellKept Q base (w := w) rfl (Nat.le_refl _) hw
  | replaceHandlers handlers =>
    exact fun Q _ base w hw => World.restsOnStore_wellKept Q base (w := w) rfl (Nat.le_refl _) hw
  | setClock now step =>
    exact fun Q _ base w hw => World.restsOnStore_wellKept Q base (w := w) rfl (Nat.le_refl _) hw
  | seed =>
    exact steady_bind (Seed.steady_run (hp _ (by simp [writes])) (hp _ (by simp [writes])))
      fun _ => steady_bind (reads_ofExcept _).steady fun _ => (reads_pure _).steady
  | store call => exact (hreading h).elim
  | _ => exact (hreading trivial).elim

/-- A call of the services leads from a well-kept world to a well-kept one. -/
theorem wellKept_perform {call : Call} (h : call.OfServices) {Q : Store → Prop}
    (hQ : Store.Lasting Q) {base : Option Store} {w : World} (hw : w.WellKept Q base) :
    ((call.perform cfg).perform w).2.WellKept Q base :=
  (steady h (fun _ _ => List.not_mem_nil) Q hQ base w hw).perform_snd

end Call

/-- While a table is passed by, its rows stay alike. -/
theorem Store.lasting_alike (s₀ : Store) (name : String) :
    Lasting (fun s => Option.Rel Table.Alike (s.table? name) (s₀.table? name)) [name] where
  of_alike := by
    intro s s' ha h
    have hn := ha name
    generalize s'.table? name = t', s.table? name = t, s₀.table? name = t₀ at hn h ⊢
    cases hn with
    | none => exact h
    | some hab =>
      cases h with
      | some hbc => exact .some (hab.trans hbc)
  inserted := by
    intro s other t row hother _ _ h
    rw [List.mem_singleton] at hother
    rwa [table?_inserted, if_neg (Ne.symm hother)]
  updated := by
    intro s other t row changes hother ht _ _ _ h
    rw [List.mem_singleton] at hother
    rwa [table?_updated ht, if_neg (Ne.symm hother)]

/-- What passes a table by leaves its rows alike, whether it succeeds or fails. -/
theorem Op.Steady.ends_alike {α : Type} {op : Op α} {name : String} (h : op.Steady [name])
    {base : Option Store} {w : World} (hw : w.WellKept (fun _ => True) base) :
    op.Ends w
      (fun _ w' => Option.Rel Table.Alike (w'.store.table? name) (w.store.table? name))
      fun _ w' => Option.Rel Table.Alike (w'.store.table? name) (w.store.table? name) := by
  have hlast : w.WellKept
      (fun s => Option.Rel Table.Alike (s.table? name) (w.store.table? name)) base :=
    ⟨hw.sound, hw.declared, hw.kept, Store.Alike.refl w.store name, hw.inside⟩
  exact (h _ (Store.lasting_alike w.store name) base w hlast).mono
    (fun _ _ hw' => hw'.lasting) fun _ _ hw' => hw'.lasting

/-- A call of the services leaves the rows of a table alike that it does not write to. -/
theorem Call.alike_of_passed {call : Call} (h : call.OfServices) {name : String}
    (hname : name ∉ call.writes) {base : Option Store} {w : World}
    (hw : w.WellKept (fun _ => True) base) :
    Option.Rel Table.Alike (((call.perform cfg).perform w).2.store.table? name)
      (w.store.table? name) := by
  have hsteady : (call.perform cfg).Steady [name] := Call.steady h fun other hother hmem =>
    hname (List.mem_singleton.1 hmem ▸ hother)
  exact (hsteady.ends_alike hw).perform_snd

/-! ## Scripts -/

namespace Step

variable {Q : Store → Prop}

/-- Calls of the services preserve that the world is well kept; there is nothing that they move on. -/
theorem preserved_wellKept (hQ : Store.Lasting Q) :
    Preserved (Call.perform cfg) Call.OfServices (fun _ _ : Unit => True)
      fun base _ w => w.WellKept Q base where
  refl _ := trivial
  trans _ _ := trivial
  call hcall h := ⟨(), trivial, Call.wellKept_perform hcall hQ h⟩
  enter h := h.enter hQ
  leave h _ h' keep := ⟨(), trivial, h.leave hQ h' keep⟩

/-- The worlds that a script of calls of the services leads through are well kept. -/
theorem exists_wellKept_of_worldsOfAll (hQ : Store.Lasting Q) {steps : List (Step Call)}
    {base : Option Store} {w : World} (hcalls : CallsOf Call.OfServices steps)
    (h : w.WellKept Q base) :
    ∀ w' ∈ worldsOfAll (Call.perform cfg) steps w, ∃ base, w'.WellKept Q base := by
  intro w' hmem
  obtain ⟨base', -, h'⟩ := (preserved_wellKept hQ).exists_of_worldsOfAll (a := ()) hcalls h w' hmem
  exact ⟨base', h'⟩

end Step

/-- A new world is well kept. -/
theorem World.IsNew.wellKept {w : World} (h : w.IsNew) :
    w.WellKept (fun _ => True) none := by
  have hrows : ∀ name t, Store.ledger.table? name = some t → t.Sound Value.IsKey ∧ t.rows = [] := by
    intro name t ht
    obtain ⟨d, hd, rfl⟩ := Option.map_eq_some_iff.1 ht
    exact sound_ledger d (List.mem_of_find?_eq_some hd)
  obtain ⟨hstore, -⟩ := h
  refine ⟨fun name t ht => ?_, fun name => by rw [hstore], fun name t ht row hrow => ?_, trivial, ?_⟩
  · rw [hstore] at ht
    obtain ⟨hsound, hempty⟩ := hrows name t ht
    refine ⟨hsound, fun r hr => ?_⟩
    rw [hempty] at hr
    cases hr
  · rw [hstore] at ht
    rw [(hrows name t ht).2] at hrow
    cases hrow
  · rw [hstore]
    rfl

end RewardLedger
