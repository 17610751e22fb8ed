import RewardLedger.Proofs.AppendOnly
import RewardLedger.Proofs.Store.Stamps

/-!
# When entries are made

An entry carries the time that was read when its row was added, and no operation changes it. So
whatever an operation does, the times of the rows that it leaves are those from before and readings
that the clock has given while it ran, in that order (`Op.Timely`). Each operation is put together
from readings of the world, changes of other tables or of other columns, and `Ledger.insertEntry`,
which is the only one that adds a row to the ledger.

In a run the times of the entries are therefore among the readings of the turns that add entries
(`World.Holds.exists_readings`), and if these never go back, the times of the entries ascend.
-/

namespace RewardLedger

variable {cfg : Config}

/-! ## Operations and times -/

namespace World

variable {past : List Instant} {c : Clock} {w w' : World}

/-- The clock has given readings since it was as it was then, and the times of the rows of the ledger
are among the past ones and these. -/
def Timed (past : List Instant) (c : Clock) (w : World) : Prop :=
  ∃ ts, c.Reads ts w.clock ∧ w.store.Stamped (past ++ ts)

/-- Reading the world changes no time. -/
theorem Timed.beside (h : w.Timed past c) (hb : w.Beside w') : w'.Timed past c := by
  obtain ⟨ts, hts, hstamped⟩ := h
  obtain ⟨ts', hts'⟩ := hb.clock
  rw [← hb.store] at hstamped
  refine ⟨ts ++ ts', hts.trans hts', ?_⟩
  rw [← List.append_assoc]
  exact hstamped.later ts'

/-- Opening a transaction changes no time. -/
theorem Timed.enter (h : w.Timed past c) : w.enter.Timed past c := by
  obtain ⟨ts, hts, hstamped⟩ := h
  unfold World.enter
  split
  · exact ⟨ts, hts, hstamped⟩
  · exact ⟨ts, hts, hstamped.opened⟩

/-- Closing a transaction changes no time, but takes rows away at most. -/
theorem Timed.leave (h : w.Timed past c) (outer : World) (keep : Bool) :
    (World.leave outer w keep).Timed past c := by
  obtain ⟨ts, hts, hstamped⟩ := h
  unfold World.leave
  split
  · exact ⟨ts, hts, hstamped⟩
  · cases keep with
    | true => exact ⟨ts, hts, hstamped.committed⟩
    | false => exact ⟨ts, hts, hstamped.rolledBack⟩

end World

namespace Op

variable {α β : Type}

/-- The times of the rows that the operation leaves are those from before and readings of the clock
while it runs, in that order, whether it succeeds or fails. -/
def Timely (op : Op α) : Prop := ∀ past c, op.Keeps (World.Timed past c)

/-- What only reads changes no time. -/
theorem Reads.timely {op : Op α} (h : op.Reads) : op.Timely := fun _ _ =>
  h.keeps fun _ _ hb hw => hw.beside hb

theorem timely_bind {op : Op β} {f : β → Op α} (h : op.Timely) (hf : ∀ b, (f b).Timely) :
    (op >>= f).Timely := fun past c => keeps_bind (h past c) fun b => hf b past c

theorem timely_map {op : Op β} {f : β → α} (h : op.Timely) : (f <$> op).Timely := fun past c =>
  keeps_map (h past c)

theorem timely_tryCatch {op : Op α} {handler : Failure → Op α} (h : op.Timely)
    (hh : ∀ e, (handler e).Timely) : (tryCatch op handler).Timely := fun past c =>
  keeps_tryCatch (h past c) fun e => hh e past c

theorem timely_onDuplicate {op other : Op α} (h : op.Timely) (ho : other.Timely) :
    (onDuplicate op other).Timely := fun past c => keeps_onDuplicate (h past c) (ho past c)

theorem timely_mapM {f : β → Op α} (h : ∀ b, (f b).Timely) (items : List β) :
    (items.mapM f).Timely := fun past c => keeps_mapM (fun b => h b past c) items

theorem timely_forM {f : β → Op PUnit} (h : ∀ b, (f b).Timely) (items : List β) :
    (items.forM f).Timely := fun past c => keeps_forM (fun b => h b past c) items

/-- A transaction changes the times as its body does, or takes rows away. -/
theorem timely_transaction {op : Op α} (h : op.Timely) : (transaction op).Timely := fun past c w hw =>
  ends_transaction ((h past c _ hw.enter).mono (fun _ _ hw' => hw'.leave w true)
    fun _ _ hw' => hw'.leave w false)

/-- A row that is added to another table changes no time. -/
theorem timely_insert {name : String} (hname : entriesTable ≠ name) (row : Fields) :
    (change (Store.insert name row)).Timely := fun _ _ _ ⟨ts, hts, hstamped⟩ =>
  ends_change (fun _ _ hrun => ⟨ts, hts, hstamped.insert_of_ne hname hrun⟩)
    fun _ _ hrun => ⟨ts, hts, hstamped.insert_of_ne hname hrun⟩

/-- Other columns of a row change no time. -/
theorem timely_update (name : String) (key : Value) {changes : Fields}
    (hchanges : "created_at" ∉ changes.names) : (change (Store.update name key changes)).Timely :=
  fun _ _ _ ⟨ts, hts, hstamped⟩ =>
    ends_change (fun _ _ hrun => ⟨ts, hts, hstamped.update hchanges hrun⟩)
      fun _ _ hrun => ⟨ts, hts, hstamped.update hchanges hrun⟩

end Op

open Op

/-! ## Users -/

namespace Users

theorem timely_create (email name : Value) : (create email name).Timely := by
  refine timely_bind (reads_ofExcept _).timely fun normal => ?_
  refine timely_bind reads_freshId.timely fun id => timely_bind reads_readClock.timely fun now => ?_
  refine timely_bind (timely_onDuplicate (timely_insert (by decide) _) (reads_refuse _).timely)
    fun stored => ?_
  exact timely_bind (reads_log _ _ _).timely fun _ => (reads_ofExcept _).timely

theorem timely_rename (id name : Value) : (rename id name).Timely := by
  refine timely_transaction (timely_bind (timely_map (reads_get id).timely) fun _ => ?_)
  exact timely_bind (timely_update _ _ (by simp [Fields.names])) fun _ =>
    (reads_ofExcept _).timely

end Users

/-! ## The ledger -/

namespace Ledger

theorem reads_requireReversible (id : Value) : (requireReversible id).Reads := by
  unfold requireReversible
  cases id.isNull with
  | true => exact reads_pure _
  | false =>
    refine reads_bind (reads_query _) fun entry => ?_
    cases entry with
    | none => exact reads_refuse _
    | some entry =>
      refine reads_bind (reads_ofExcept _) fun void => ?_
      cases void with
      | true => exact reads_refuse _
      | false => exact reads_pure _

/-- The row of an entry carries the time that was read last. -/
theorem timely_insertEntry (user entryType : Value) (amount : Decimal) (details : EntryDetails) :
    (insertEntry cfg user entryType amount details).Timely := by
  refine timely_bind reads_freshId.timely fun id =>
    timely_bind (reads_ofExcept _).timely fun metadata => ?_
  rintro past c w ⟨ts, hts, hstamped⟩
  refine ends_bind (ends_readClock (fun now clock hread => ?_) fun _ => ⟨ts, hts, hstamped⟩)
  have hclock : c.Reads (ts ++ [now]) clock := hts.trans (.next hread (.none _))
  refine ends_onDuplicate (ends_change (fun _ s hrun => ?_) fun e s hrun => ?_)
  · exact ⟨_, hclock, (List.append_assoc past ts _) ▸ hstamped.insert_entry rfl hrun⟩
  · have hafter : World.Timed past c { w with clock, store := s } :=
      ⟨_, hclock, (List.append_assoc past ts _) ▸ hstamped.insert_entry rfl hrun⟩
    exact ⟨fun _ _ _ _ => ends_refuse hafter, fun _ => hafter⟩

theorem timely_createEntry (user entryType amount : Value) (details : EntryDetails) :
    (createEntry cfg user entryType amount details).Timely := by
  refine timely_bind (reads_ofExcept _).timely fun value => ?_
  refine timely_bind (timely_transaction ?_) fun stored => ?_
  · exact timely_bind (reads_requireUser user).timely fun _ =>
      timely_bind (reads_requireReversible _).timely fun _ => timely_insertEntry _ _ _ _
  · exact timely_bind (reads_ofExcept _).timely fun _ =>
      timely_bind (reads_log _ _ _).timely fun _ => (reads_ofExcept _).timely

theorem timely_createCredit (user amount : Value) (details : EntryDetails) :
    (createCredit cfg user amount details).Timely :=
  timely_bind (reads_ofExcept _).timely fun _ => timely_createEntry _ _ _ _

theorem timely_createDebit (user amount : Value) (details : EntryDetails) :
    (createDebit cfg user amount details).Timely :=
  timely_bind (reads_ofExcept _).timely fun _ => timely_createEntry _ _ _ _

theorem reads_requireOwner (id : Value) (entry : LedgerEntry) (reward : Value) :
    (requireOwner id entry reward).Reads := by
  unfold requireOwner
  cases entry.rewardId with
  | none => exact reads_pure _
  | some owner =>
    refine reads_bind (reads_ofExcept _) fun same => ?_
    cases same with
    | true => exact reads_pure _
    | false => exact reads_refuse _

theorem timely_reverseEntry (id reason reward : Value) :
    (reverseEntry cfg id reason reward).Timely := by
  refine timely_bind (timely_transaction ?_) fun reversal =>
    timely_bind (reads_log _ _ _).timely fun _ => (reads_pure _).timely
  refine timely_bind (reads_getEntry id).timely fun entry => ?_
  refine timely_bind (reads_requireOwner id entry reward).timely fun _ => ?_
  by_cases hvoid : entry.status = .void
  · rw [if_pos hvoid]
    exact fun _ _ _ hw => ends_bind (ends_refuse hw)
  rw [if_neg hvoid]
  refine timely_bind (reads_query _).timely fun found => ?_
  cases found with
  | some _ => exact fun _ _ _ hw => ends_bind (ends_refuse hw)
  | none =>
    refine timely_bind (timely_createEntry _ _ _ _) fun reversal => ?_
    exact timely_bind (timely_map (timely_update _ _ (by simp [Fields.names]))) fun _ =>
      (reads_pure _).timely

end Ledger

/-! ## Recorded requests -/

theorem Requests.timely_record (key fingerprint response : Value) :
    (record cfg key fingerprint response).Timely := by
  refine timely_bind reads_readClock.timely fun now => ?_
  cases now.later? cfg.retention with
  | none => exact fun _ _ => keeps_throw _
  | some expiry =>
    exact timely_bind (timely_insert (by decide) _) fun _ => (reads_ofExcept _).timely

/-! ## Rewards -/

namespace Rewards

theorem reads_replay (request : CreditRequest) (response : Value) :
    (replay request response).Reads :=
  reads_bind (reads_ofExcept _) fun _ => reads_bind (reads_log _ _ _) fun _ => reads_pure _

theorem reads_requireParty (role : String) (id : Value) : (requireParty role id).Reads := by
  refine reads_bind (reads_query _) fun row => ?_
  cases row with
  | none => exact reads_refuse _
  | some _ => exact reads_pure _

theorem timely_insertReward (request : CreditRequest) : (insertReward request).Timely :=
  timely_bind reads_freshId.timely fun _ => timely_bind reads_readClock.timely fun _ =>
    timely_insert (by decide) _

theorem timely_creditFresh (request : CreditRequest) : (creditFresh cfg request).Timely := by
  refine timely_bind (reads_requireParty _ _).timely fun _ =>
    timely_bind (reads_requireParty _ _).timely fun _ => ?_
  refine timely_bind (timely_insertReward request) fun row =>
    timely_bind (Ledger.timely_createCredit _ _ _) fun entry => ?_
  refine timely_bind (reads_ofExcept _).timely fun reward =>
    timely_bind (reads_ofExcept _).timely fun response => ?_
  exact timely_bind (timely_map (Requests.timely_record _ _ _)) fun _ => (reads_pure _).timely

theorem timely_creditOnce (request : CreditRequest) : (creditOnce cfg request).Timely := by
  refine timely_bind (timely_transaction ?_) fun result => ?_
  · refine timely_bind (Requests.reads_check _ _).timely fun standing => ?_
    cases standing with
    | fresh => exact timely_creditFresh request
    | answered response => exact (reads_replay request response).timely
  · cases result.replayed with
    | true => exact (reads_pure _).timely
    | false => exact timely_bind (reads_log _ _ _).timely fun _ => (reads_pure _).timely

theorem timely_credit (referrer referred amount key currency metadata : Value) :
    (credit cfg referrer referred amount key currency metadata).Timely := by
  refine timely_bind (reads_ofExcept _).timely fun request => ?_
  exact timely_onDuplicate (timely_creditOnce request)
    (timely_bind (reads_log _ _ _).timely fun _ => timely_creditOnce request)

theorem reads_requireTransition (reward : Reward) (target : RewardStatus) :
    (requireTransition reward target).Reads := by
  unfold requireTransition
  cases reward.status.canMove target with
  | true => exact reads_pure _
  | false => exact reads_refuse _

theorem timely_confirm (id : Value) : (confirm id).Timely := by
  refine timely_bind (timely_transaction ?_) fun row =>
    timely_bind (reads_log _ _ _).timely fun _ => (reads_ofExcept _).timely
  refine timely_bind (reads_get id).timely fun reward =>
    timely_bind (reads_requireTransition _ _).timely fun _ => ?_
  exact timely_bind reads_readClock.timely fun _ => timely_update _ _ (by simp [Fields.names])

theorem timely_pay (id : Value) : (pay cfg id).Timely := by
  refine timely_bind (timely_transaction ?_) fun paid => ?_
  · refine timely_bind (reads_get id).timely fun reward =>
      timely_bind (reads_requireTransition _ _).timely fun _ => ?_
    refine timely_bind reads_readClock.timely fun now =>
      timely_bind (Ledger.timely_createDebit _ _ _) fun entry => ?_
    exact timely_bind (timely_update _ _ (by simp [Fields.names])) fun _ => (reads_pure _).timely
  · exact timely_bind (reads_log _ _ _).timely fun _ =>
      timely_bind (reads_ofExcept _).timely fun _ => (reads_pure _).timely

theorem timely_reverse (id reason : Value) : (reverse cfg id reason).Timely := by
  refine timely_bind (timely_transaction ?_) fun taken => ?_
  · refine timely_bind (reads_get id).timely fun reward =>
      timely_bind (reads_requireTransition _ _).timely fun _ => ?_
    refine timely_bind (reads_oldestCredit id).timely fun credit => ?_
    cases credit with
    | none => exact (reads_refuse _).timely
    | some credit =>
      refine timely_bind (Ledger.timely_reverseEntry _ _ _) fun reversal =>
        timely_bind reads_readClock.timely fun now => ?_
      exact timely_bind (timely_update _ _ (by simp [Fields.names])) fun _ =>
        (reads_pure _).timely
  · exact timely_bind (reads_log _ _ _).timely fun _ =>
      timely_bind (reads_ofExcept _).timely fun _ => (reads_pure _).timely

theorem reads_rewardCreditedBy (entry : LedgerEntry) (id : Value) :
    (rewardCreditedBy entry id).Reads := by
  unfold rewardCreditedBy
  cases entry.rewardId with
  | none => exact reads_pure _
  | some reward =>
    refine reads_bind (reads_oldestCredit _) fun credit => ?_
    cases credit with
    | none => exact reads_pure _
    | some credit =>
      refine reads_bind (reads_ofExcept _) fun same => ?_
      cases same with
      | true => exact reads_pure _
      | false => exact reads_pure _

theorem timely_reverseEntry (id reason : Value) : (reverseEntry cfg id reason).Timely := by
  refine timely_transaction (timely_bind (Ledger.reads_getEntry id).timely fun entry => ?_)
  refine timely_bind (reads_rewardCreditedBy entry id).timely fun reward => ?_
  cases reward with
  | some reward => exact timely_bind (timely_reverse _ _) fun _ => (reads_pure _).timely
  | none => exact Ledger.timely_reverseEntry _ _ _

end Rewards

/-! ## Rules -/

namespace RuleBook

theorem timely_activate (id active : Value) :
    (change (Store.update rulesTable id [("is_active", active)])).Timely :=
  timely_update _ _ (by simp [Fields.names])

theorem timely_deactivateAll (rows : List Fields) : (deactivateAll rows).Timely := by
  refine timely_forM (fun row => ?_) rows
  refine timely_bind (reads_ofExcept _).timely fun active => ?_
  cases active with
  | true => exact timely_bind (reads_ofExcept _).timely fun _ => timely_map (timely_activate _ _)
  | false => exact (reads_pure _).timely

theorem timely_create (name conditions actions metadata description active : Value) :
    (create name conditions actions metadata description active).Timely := by
  unfold create
  cases isName name with
  | false => exact fun past c w hw => ends_bind (ends_throw hw)
  | true =>
    refine timely_bind (reads_ofExcept _).timely fun condition =>
      timely_bind (reads_ofExcept _).timely fun actions => ?_
    refine timely_bind (timely_transaction ?_) fun stored =>
      timely_bind (reads_log _ _ _).timely fun _ => (reads_ofExcept _).timely
    refine timely_bind (reads_query _).timely fun previous =>
      timely_bind (reads_ofExcept _).timely fun version =>
        timely_bind (timely_deactivateAll previous) fun _ => ?_
    refine timely_bind reads_freshId.timely fun id =>
      timely_bind (reads_ofExcept _).timely fun metadata =>
        timely_bind reads_readClock.timely fun now => ?_
    exact timely_bind (timely_insert (by decide) _) fun _ => (reads_pure _).timely

theorem timely_setActive (row : Fields) (active : Value) : (setActive row active).Timely := by
  have hrest : ∀ id : Value, (do
      let updated ← change (Store.update rulesTable id [("is_active", active)])
      log .info "rule_activation_changed" [("rule_id", .str id.plainText), ("is_active", active)]
      Op.ofExcept (Rule.ofRow updated) : Op Rule).Timely := fun id =>
    timely_bind (timely_activate id active) fun _ => timely_bind (reads_log _ _ _).timely fun _ =>
      (reads_ofExcept _).timely
  refine timely_bind (reads_ofExcept _).timely fun id => ?_
  cases active.truthy with
  | false => exact hrest id
  | true =>
    refine timely_bind (reads_ofExcept _).timely fun name =>
      timely_bind (reads_query _).timely fun others => ?_
    refine timely_bind (timely_forM (fun other => ?_) others) fun _ => hrest id
    refine timely_bind (reads_ofExcept _).timely fun otherId =>
      timely_bind (reads_ofExcept _).timely fun same => ?_
    cases same with
    | true => exact (reads_pure _).timely
    | false => exact timely_map (timely_activate _ _)

theorem timely_update (id : Value) (changes : Changes) : (update id changes).Timely := by
  refine timely_transaction (timely_bind (reads_row id).timely fun current => ?_)
  cases changes.concernContent with
  | false =>
    cases changes.active.isNull with
    | true => exact (reads_ofExcept _).timely
    | false => exact timely_setActive _ _
  | true =>
    -- each part is given or taken from the row, and neither looks at the world
    cases changes.name.truthy <;> cases changes.conditions <;> cases changes.actions
    all_goals
      refine timely_bind (by first | exact (reads_pure _).timely | exact (reads_ofExcept _).timely)
        fun name => ?_
      refine timely_bind (by first | exact (reads_pure _).timely | exact (reads_ofExcept _).timely)
        fun conds => ?_
      refine timely_bind (by first | exact (reads_pure _).timely | exact (reads_ofExcept _).timely)
        fun actions => ?_
      exact timely_bind (reads_ofExcept _).timely fun _ =>
        timely_bind (reads_ofExcept _).timely fun _ => timely_create _ _ _ _ _ _

theorem timely_deactivate (id : Value) : (deactivate id).Timely :=
  timely_transaction (timely_bind (reads_row id).timely fun current => timely_setActive current _)

end RuleBook

/-! ## Carrying actions out -/

namespace Dispatch

theorem timely_run (handlers : Handlers) (actions : List TriggeredAction)
    (context : DispatchContext) : (run cfg handlers actions context).Timely := fun past c =>
  keeps_run (fun _ _ _ => (reads_log _ _ _).timely past c)
    (fun _ _ _ _ => Rewards.timely_credit _ _ _ _ _ _ past c) handlers actions

end Dispatch

/-! ## Demonstration data -/

theorem Seed.timely_run : Seed.run.Timely := by
  have huser : ∀ u : String × String, (user u.1 u.2).Timely := by
    rintro ⟨email, name⟩
    refine timely_tryCatch (Users.reads_getByEmail _).timely fun e => ?_
    split
    · exact Users.timely_create _ _
    · exact fun _ _ => keeps_throw _
  have hrule : rule.Timely := by
    refine timely_bind (RuleBook.reads_latest? _).timely fun found => ?_
    cases found with
    | some found => exact (reads_pure _).timely
    | none => exact RuleBook.timely_create _ _ _ _ _ _
  exact timely_bind (timely_mapM huser _) fun users => timely_bind hrule fun rule =>
    timely_bind (reads_log _ _ _).timely fun _ => (reads_pure _).timely

/-! ## Calls -/

namespace Call

variable {α : Type}

theorem timely_written {write : α → Except Failure Value} {op : Op α} (h : op.Timely) :
    (written write op).Timely := timely_bind h fun _ => (reads_ofExcept _).timely

theorem timely_dispatch (actions : List TriggeredAction) (context : DispatchContext) :
    (dispatch cfg actions context).Timely := fun past c w hw =>
  timely_bind (Dispatch.timely_run w.handlers actions context)
    (fun _ => timely_bind (reads_ofExcept _).timely fun _ => (reads_pure _).timely) past c w hw

/-- The call sets the clock. -/
def SetsClock : Call → Prop
  | setClock .. => True
  | _ => False

/-- Whatever call may be made, unless it sets the clock, the times of the entries are those from
before and readings of the clock. -/
theorem timely {p : Permission} {call : Call} (h : call.Allowed p) (hclock : ¬call.SetsClock) :
    (call.perform cfg).Timely := by
  by_cases hreading : call.IsReading
  · exact (reads hreading).timely
  -- each service adds entries at most with the times at which it reads the clock
  cases call with
  | createUser email name => exact timely_map (Users.timely_create _ _)
  | renameUser id name => exact timely_map (Users.timely_rename _ _)
  | createEntry user entryType amount details =>
    exact timely_written (Ledger.timely_createEntry _ _ _ _)
  | createCredit user amount details => exact timely_written (Ledger.timely_createCredit _ _ _)
  | createDebit user amount details => exact timely_written (Ledger.timely_createDebit _ _ _)
  | reverseEntry id reason reward => exact timely_written (Ledger.timely_reverseEntry _ _ _)
  | recordRequest key hash response => exact timely_written (Requests.timely_record _ _ _)
  | creditReward referrer referred amount key currency metadata =>
    exact timely_written (Rewards.timely_credit _ _ _ _ _ _)
  | confirmReward id => exact timely_written (Rewards.timely_confirm _)
  | payReward id => exact timely_written (Rewards.timely_pay _)
  | reverseReward id reason => exact timely_written (Rewards.timely_reverse _ _)
  | reverseRewardEntry id reason => exact timely_written (Rewards.timely_reverseEntry _ _)
  | createRule name conditions actions metadata description active =>
    exact timely_written (RuleBook.timely_create _ _ _ _ _ _)
  | updateRule id changes => exact timely_written (RuleBook.timely_update _ _)
  | deactivateRule id => exact timely_written (RuleBook.timely_deactivate _)
  | dispatchEvent event context =>
    exact timely_bind (RuleEngine.reads_evaluate event).timely fun _ => timely_dispatch _ _
  | dispatchActions actions context => exact timely_dispatch _ _
  | registerHandler type handler => exact fun _ _ _ hw => hw
  | replaceHandlers handlers => exact fun _ _ _ hw => hw
  | setClock now step => exact (hclock trivial).elim
  | seed =>
    exact timely_bind Seed.timely_run fun _ => timely_bind (reads_ofExcept _).timely fun _ =>
      (reads_pure _).timely
  | store call => exact (hreading h).elim
  | _ => exact (hreading trivial).elim

end Call

/-! ## Runs -/

namespace Store

variable {s : Store} {es : List LedgerEntry}

/-- The times of the rows are those of the entries. -/
theorem Lists.times (h : s.Lists es) :
    s.stamps.map Prod.snd = (es.map LedgerEntry.createdAt).map .instant := by
  obtain ⟨t, ht, -, hrows⟩ := h
  have htable : s.table? entriesTable = some t := ht
  rw [stamps, htable, Option.map_some, Option.getD_some, Table.stamps, List.map_map, List.map_map]
  clear ht htable
  generalize t.rows = rows at hrows
  induction hrows with
  | nil => rfl
  | @cons row e _ _ he _ ih =>
    rw [List.map_cons, List.map_cons, ih]
    refine congrArg (· :: _) ?_
    have hrow : LedgerEntry.IsRow e row.columns := he
    rw [Function.comp_apply, Function.comp_apply, Fields.get, hrow.createdAt]
    rfl

/-- In a sound store outside of a transaction the times of the entries are what the rows carry. -/
theorem Lists.stamped {K : Value → Prop} (h : s.Lists es) (hs : s.Sound K) (hundo : s.undo = none) :
    s.Stamped (es.map LedgerEntry.createdAt) := by
  have ⟨t, ht, _, _⟩ := h
  have htable : s.table? entriesTable = some t := ht
  obtain ⟨hsound, hnext⟩ := hs _ t htable
  have hseqs : s.stamps.map Prod.fst = t.rows.map Row.seq := by
    rw [stamps, htable, Option.map_some, Option.getD_some, Table.stamps, List.map_map]
    rfl
  constructor
  · rw [hseqs]
    exact List.pairwise_map.2 (hsound.rowsSound.seqs.imp Nat.ne_of_lt)
  · intro x hx
    have hmem : x.1 ∈ t.rows.map Row.seq := hseqs ▸ List.mem_map_of_mem hx
    obtain ⟨r, hr, hseq⟩ := List.mem_map.1 hmem
    exact hseq ▸ hnext r hr
  · rw [h.times]
  · intro seq previous hmem
    rw [hundo] at hmem
    exact absurd hmem List.not_mem_nil

end Store

namespace World

variable {p : Permission} {b b' : Books} {w : World}

/-- The number of rows of the ledger is that of the entries. -/
theorem Holds.count_entries (h : w.Holds cfg none b) :
    w.store.count entriesTable = .ok b.entries.length := by
  obtain ⟨t, ht, -, hrows⟩ := h.held.entries
  have htable : w.store.table? entriesTable = some t := ht
  rw [Store.count, Store.table, htable]
  exact congrArg Except.ok hrows.length_eq

/-- After a turn that does not set the clock, the times of the entries are those from before and
readings of the clock of the turn, in that order. -/
theorem Holds.times_after (h : w.Holds cfg none b) {t : Turn} (ht : t.call.Allowed p)
    (hclock : ¬t.call.SetsClock) (h' : (w.after cfg t).Holds cfg none b') :
    ∃ ts, t.clock.Reads ts (w.after cfg t).clock ∧
      (b'.entries.map LedgerEntry.createdAt).Sublist
        (b.entries.map LedgerEntry.createdAt ++ ts) := by
  have htimed : World.Timed (b.entries.map LedgerEntry.createdAt) t.clock
      { w with clock := t.clock } := by
    refine ⟨[], .none _, ?_⟩
    rw [List.append_nil]
    exact h.held.entries.stamped h.sound h.within
  obtain ⟨ts, hts, hstamped⟩ := (Call.timely ht hclock _ _ _ htimed).perform_snd
  refine ⟨ts, hts, ?_⟩
  have htimes : ((w.after cfg t).store.stamps.map Prod.snd).Sublist _ := hstamped.times
  rw [h'.held.entries.times, List.sublist_map_iff] at htimes
  obtain ⟨times, hsub, heq⟩ := htimes
  rwa [List.map_injective_iff.2 (fun _ _ h => Value.instant.inj h) heq]

/-- The readings of the clock in the turns that add entries. -/
inductive Readings (cfg : Config) : World → List Turn → List Instant → Prop where
  /-- There are no turns. -/
  | none (w : World) : Readings cfg w [] []
  /-- The first turn adds no entry. -/
  | idle {w : World} {t : Turn} {rest : List Turn} {times : List Instant}
    (hcount : (w.after cfg t).store.count entriesTable = w.store.count entriesTable)
    (hrest : Readings cfg (w.after cfg t) rest times) : Readings cfg w (t :: rest) times
  /-- The first turn adds entries. -/
  | reads {w : World} {t : Turn} {rest : List Turn} {ts times : List Instant}
    (hcount : (w.after cfg t).store.count entriesTable ≠ w.store.count entriesTable)
    (hreads : t.clock.Reads ts (w.after cfg t).clock)
    (hrest : Readings cfg (w.after cfg t) rest times) : Readings cfg w (t :: rest) (ts ++ times)

/-- In the turns that add entries no reading of the clock is before an earlier one, as far as they can
be compared. -/
def ClockAscends (cfg : Config) (w : World) (turns : List Turn) : Prop :=
  ∀ times, w.Readings cfg turns times →
    times.Pairwise fun s t => s.comparable t = true → s.notAfter t = true

/-- In a run the times of the entries that are added are readings of the clock in the turns that add
entries, in the same order. -/
theorem Holds.exists_readings (h : w.Holds cfg none b) {turns : List Turn}
    (hturns : ∀ t ∈ turns, t.call.Allowed p) (h' : (w.run cfg turns).Holds cfg none b') :
    ∃ times, w.Readings cfg turns times ∧
      (b'.entries.map LedgerEntry.createdAt).Sublist
        (b.entries.map LedgerEntry.createdAt ++ times) := by
  induction turns generalizing w b with
  | nil =>
    refine ⟨[], .none w, ?_⟩
    rw [h.entries_unique h', List.append_nil]
  | cons t rest ih =>
    obtain ⟨b₁, -, hw₁, hwritten⟩ := h.written (hturns t List.mem_cons_self)
    obtain ⟨times, hrest, hsub⟩ := ih hw₁ (fun t' ht' => hturns t' (List.mem_cons_of_mem _ ht')) h'
    have hcontinues := hwritten.continues h.nodup_entry_ids
    by_cases hcount : (w.after cfg t).store.count entriesTable = w.store.count entriesTable
    · -- no entry was added, so the times are the same
      have hprefix := hcontinues.map_prefix fun _ _ hages => (hages.user_and_time).2
      rw [hw₁.count_entries, h.count_entries, Except.ok.injEq] at hcount
      have hsame := hprefix.eq_of_length (by rw [List.length_map, List.length_map, hcount])
      refine ⟨times, .idle ?_ hrest, hsame ▸ hsub⟩
      rw [hw₁.count_entries, h.count_entries, hcount]
    · have hclock : ¬t.call.SetsClock := fun hsets => hcount (by
        obtain ⟨clock, call⟩ := t
        cases call <;> first | rfl | exact hsets.elim)
      obtain ⟨ts, hts, hsub'⟩ := h.times_after (hturns t List.mem_cons_self) hclock hw₁
      refine ⟨ts ++ times, .reads hcount hts hrest, ?_⟩
      rw [← List.append_assoc]
      exact hsub.trans (hsub'.append (.refl _))

/-- If the clock never goes back in a run from a new world, no entry was made before one that was
added earlier, as far as their times can be compared. -/
theorem ClockAscends.entries {turns : List Turn} (h : w.ClockAscends cfg turns) (hw : w.IsNew)
    (hturns : ∀ t ∈ turns, t.call.Allowed p) (hb : (w.run cfg turns).Holds cfg none b) :
    b.entries.Pairwise fun e e' => e.createdAt.comparable e'.createdAt = true →
      e.createdAt.notAfter e'.createdAt = true := by
  obtain ⟨times, htimes, hsub⟩ := hw.holds.exists_readings hturns hb
  exact List.pairwise_map.1 ((h times htimes).sublist hsub)

/-- A clock that stands still never goes back. -/
theorem clockAscends_of_standing {turns : List Turn} {now : Instant}
    (h : ∀ t ∈ turns, t.clock.planned = [] ∧ t.clock.step = 0 ∧ t.clock.now = now) :
    w.ClockAscends cfg turns := by
  intro times htimes
  have hall : ∀ x ∈ times, x = now := by
    induction htimes with
    | none _ => exact fun x hx => absurd hx List.not_mem_nil
    | idle _ _ ih => exact ih fun t ht => h t (List.mem_cons_of_mem _ ht)
    | reads _ hreads _ ih =>
      intro x hx
      obtain ⟨hplanned, hstep, hnow⟩ := h _ List.mem_cons_self
      rcases List.mem_append.1 hx with hx | hx
      · rw [hreads.eq_now hplanned hstep x hx, hnow]
      · exact ih (fun t ht => h t (List.mem_cons_of_mem _ ht)) x hx
  refine List.pairwise_of_forall_mem_list fun s hs t ht _ => ?_
  rw [hall s hs, hall t ht]
  exact Instant.notAfter_refl now

end World

end RewardLedger
