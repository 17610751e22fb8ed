import RewardLedger.Call
import RewardLedger.Proofs.Ledger.Crediting
import RewardLedger.Proofs.Ledger.Lifecycle
import RewardLedger.Proofs.Ledger.Users
import RewardLedger.Proofs.Rule.Book

/-!
# Runs

A run is any number of calls, one after the other, each with the clock that is read while it is
performed; a call that fails is part of the run like any other. Which calls may be made is a matter
of permission (`Call.Allowed`), which also asks that arguments are of their declared types where a
value of another type could be stored.

Every allowed call does one step of the books or several that only add entries, whether it succeeds or
fails (`Call.acts`), so after every run from the empty store the store holds books that steps lead to
(`World.exists_steps_of_run`).
-/

namespace RewardLedger

variable {cfg : Config} {p : Permission}

open Op

/-! ## Carrying actions out -/

namespace Dispatch

section Keeps

variable {P : World → Prop} {context : DispatchContext}

/-- Recording that an action failed only writes to the log. -/
theorem keeps_recordFailure (hlog : ∀ level event details, (log level event details).Keeps P)
    (t : TriggeredAction) (e : Failure) : (recordFailure context t e).Keeps P := by
  unfold recordFailure
  split
  · exact keeps_bind (hlog _ _ _) fun _ => keeps_pure _
  · exact keeps_throw _

/-- Whatever handler carries an action out, it keeps what crediting rewards of the parties keeps. -/
theorem keeps_handle (hcredit : ∀ amount key currency metadata,
      (Rewards.credit cfg context.referrer context.referred amount (.str key) currency
        metadata).Keeps P)
    (t : TriggeredAction) (handler : Handler) : (handle cfg context t handler).Keeps P := by
  cases handler with
  | creditReward =>
    refine keeps_map ?_
    unfold creditReward
    cases Fields.find? t.action.params "amount" with
    | none => exact keeps_refuse _
    | some amount => exact hcredit _ _ _ _
  | answers result => exact keeps_pure _
  | refuses kind message =>
    cases kind with
    | invalidTransition => exact keeps_throw _
    | _ => exact keeps_refuse _

/-- Carrying an action out keeps what crediting rewards of the parties and writing to the log keep. -/
theorem keeps_carryOut (hlog : ∀ level event details, (log level event details).Keeps P)
    (hcredit : ∀ amount key currency metadata,
      (Rewards.credit cfg context.referrer context.referred amount (.str key) currency
        metadata).Keeps P)
    (handlers : Handlers) (t : TriggeredAction) : (carryOut cfg handlers context t).Keeps P := by
  unfold carryOut
  cases handlers.find? t.action.type with
  | none => exact keeps_pure _
  | some handler =>
    exact keeps_tryCatch (keeps_map (keeps_handle hcredit t handler)) (keeps_recordFailure hlog t)

/-- Carrying actions out keeps what crediting rewards of the parties and writing to the log keep. -/
theorem keeps_run (hlog : ∀ level event details, (log level event details).Keeps P)
    (hcredit : ∀ amount key currency metadata,
      (Rewards.credit cfg context.referrer context.referred amount (.str key) currency
        metadata).Keeps P)
    (handlers : Handlers) (actions : List TriggeredAction) :
    (run cfg handlers actions context).Keeps P :=
  keeps_mapM (fun t => keeps_map (keeps_carryOut hlog hcredit handlers t)) actions

end Keeps

/-- Recording that an action failed adds no entry. -/
theorem grows_recordFailure (context : DispatchContext) (t : TriggeredAction) (e : Failure) :
    (recordFailure context t e).Grows cfg p := fun b =>
  keeps_recordFailure (keeps_log (World.restsOnStore_grown cfg p b)) t e

/-- Carrying an action out adds an entry at most. -/
theorem grows_carryOut (handlers : Handlers) (context : DispatchContext) (t : TriggeredAction) :
    (carryOut cfg handlers context t).Grows cfg p := fun b =>
  keeps_carryOut (keeps_log (World.restsOnStore_grown cfg p b))
    (fun _ _ _ _ => Rewards.grows_credit _ _ _ _ _ _ b) handlers t

/-- Carrying actions out adds entries step by step. -/
theorem grows_run (handlers : Handlers) (actions : List TriggeredAction)
    (context : DispatchContext) : (run cfg handlers actions context).Grows cfg p := fun b =>
  keeps_mapM (fun t => keeps_map (grows_carryOut handlers context t b)) actions

end Dispatch

/-- Carrying actions out and telling what became of them adds entries step by step. -/
theorem Call.grows_dispatch (actions : List TriggeredAction) (context : DispatchContext) :
    (dispatch cfg actions context).Grows cfg p := by
  rintro b w hw
  exact keeps_bind (Dispatch.grows_run w.handlers actions context b)
    (fun outcomes => keeps_bind (keeps_ofExcept _) fun _ => keeps_pure _) w hw

/-! ## Demonstration data -/

/-- Adding a user adds no entry. -/
theorem Users.grows_create (email : Value) (name : Option String) :
    (create email (.ofText? name)).Grows cfg p := by
  refine grows_of_ends fun b w hw => (ends_create hw email name).mono ?_ fun _ _ hundone => hundone
  rintro _ w' ⟨u, n, hid, hn, hw'⟩
  exact ⟨_, .single ((Books.Step.addUser hid hn).grow rfl), hw'⟩

/-- Looking a user up or adding one adds no entry. -/
theorem Seed.grows_user (email name : String) : (user email name).Grows cfg p := by
  intro b
  refine keeps_tryCatch ((Users.reads_getByEmail _).aside.grows b) fun e => ?_
  split
  · exact Users.grows_create _ (some name) b
  · exact keeps_throw _

/-- Adding the demonstration data adds no entry. -/
theorem Seed.grows_run : Seed.run.Grows cfg p := by
  intro b
  have huser : ∀ u : String × String, (user u.1 u.2).Grows cfg p := fun u => grows_user u.1 u.2
  have hrule : rule.Grows cfg p := by
    intro b
    refine keeps_bind ((RuleBook.reads_latest? _).aside.grows b) fun found => ?_
    cases found with
    | some found => exact keeps_pure _
    | none => exact (RuleBook.aside_create _ _ _ _ _ _).grows b
  refine keeps_bind (keeps_mapM (fun u => huser u b) _) fun users =>
    keeps_bind (hrule b) fun rule => ?_
  exact keeps_bind (keeps_log (World.restsOnStore_grown cfg p b) _ _ _) fun _ => keeps_pure _

/-! ## Calls -/

/-- The value is a text or null. -/
def Value.IsText? (v : Value) : Prop := ∃ s, v = .ofText? s

/-- The entry may be posted by hand. -/
structure Ledger.EntryDetails.Allowed (p : Permission) (t : EntryType) (details : EntryDetails) :
    Prop where
  /-- The currency is a text or null. -/
  currency : details.currency.IsText?
  /-- Entries of the type may be posted, with that reward and that entry to take back. -/
  posts : ∃ tag of, details.rewardId = .ofUuid? tag ∧ details.reversalOf = .ofUuid? of ∧
    p.posts t tag of

/-- The call only looks something up in the store. -/
def StoreCall.IsReading : StoreCall → Prop
  | insert .. | update .. => False
  | _ => True

/-- The call only looks something up. -/
def Call.IsReading : Call → Prop
  | createUser .. | renameUser .. | createEntry .. | createCredit .. | createDebit .. |
    reverseEntry .. | recordRequest .. | creditReward .. | confirmReward .. | payReward .. |
    reverseReward .. | reverseRewardEntry .. | createRule .. | updateRule .. | deactivateRule .. |
    dispatchEvent .. | dispatchActions .. | registerHandler .. | replaceHandlers .. |
    setClock .. | seed => False
  | store call => call.IsReading
  | _ => True

/-- The call may be made. -/
def Call.Allowed (p : Permission) : Call → Prop
  | createUser _ name | renameUser _ name => name.IsText?
  | createEntry _ entryType _ details => ∃ t : EntryType, entryType = .str t.name ∧
    details.Allowed p t
  | createCredit _ _ details => details.Allowed p .credit
  | createDebit _ _ details => details.Allowed p .debit
  | reverseEntry _ _ reward => reward = .null ∨ p.onBehalf
  | recordRequest key hash response => p.records ∧ (∃ k, key = .str k) ∧ (∃ h, hash = .str h) ∧
    ∃ answer, response = .object answer
  | creditReward _ _ _ key _ _ => ∃ k, key = .str k
  | reverseReward _ reason | reverseRewardEntry _ reason => reason.IsText?
  | store call => call.IsReading
  | _ => True

/-- The call posts an entry by hand. -/
def Call.PostsByHand : Call → Prop
  | createEntry .. | createCredit .. | createDebit .. => True
  | _ => False

/-- An entry that may be posted may be posted where more is permitted. -/
theorem Ledger.EntryDetails.Allowed.mono {p' : Permission} {t : EntryType} {details : EntryDetails}
    (h : details.Allowed p t) (hposts : ∀ t tag of, p.posts t tag of → p'.posts t tag of) :
    details.Allowed p' t := by
  obtain ⟨tag, of, htag, hof, hp⟩ := h.posts
  exact ⟨h.currency, tag, of, htag, hof, hposts t tag of hp⟩

/-- A call that may be made may be made where more is permitted; what may be posted matters only if
it posts an entry by hand. -/
theorem Call.Allowed.mono {p' : Permission} {call : Call} (h : call.Allowed p)
    (hposts : call.PostsByHand → ∀ t tag of, p.posts t tag of → p'.posts t tag of)
    (hbehalf : p.onBehalf → p'.onBehalf) (hrecords : p.records → p'.records) :
    call.Allowed p' := by
  cases call with
  | createEntry _ _ _ _ =>
    obtain ⟨t, ht, hdetails⟩ := h
    exact ⟨t, ht, hdetails.mono (hposts trivial)⟩
  | createCredit _ _ _ | createDebit _ _ _ =>
    exact Ledger.EntryDetails.Allowed.mono h (hposts trivial)
  | reverseEntry _ _ _ => exact Or.imp_right hbehalf h
  | recordRequest _ _ _ => exact ⟨hrecords h.1, h.2⟩
  | _ => exact h

/-- A text or null names a currency. -/
theorem Config.exists_currencyOf (cfg : Config) {v : Value} (h : v.IsText?) :
    ∃ s, cfg.currencyOf v = .str s := by
  obtain ⟨o, rfl⟩ := h
  unfold currencyOf Value.orElse
  cases o with
  | none => exact ⟨cfg.currency, rfl⟩
  | some s =>
    split
    · exact ⟨s, rfl⟩
    · exact ⟨cfg.currency, rfl⟩

/-- Different optional identifiers are different values. -/
theorem Value.ofUuid?_injective {o o' : Option Uuid} (h : Value.ofUuid? o = .ofUuid? o') :
    o = o' := by
  cases o <;> cases o' <;> cases h <;> rfl

namespace Ledger

/-- Adding an entry that may be posted is a step of the books. -/
theorem acts_createEntry {t : EntryType} (details : EntryDetails) (h : details.Allowed p t)
    (user amount : Value) : (createEntry cfg user (.str t.name) amount details).Acts cfg p := by
  obtain ⟨currency, hcurrency⟩ := cfg.exists_currencyOf h.currency
  obtain ⟨tag, of, htag, hof, hposts⟩ := h.posts
  refine acts_of_ends fun b w hw =>
    (ends_createEntry hw details hcurrency htag).mono ?_ fun _ _ hundone => hundone
  rintro e w' ⟨b', hw', hposted, -, htype, -, -, hetag, heof⟩
  have hpost : p.posts e.entryType e.rewardId e.reversalOf := by
    rw [htype, hetag, Value.ofUuid?_injective (heof.symm.trans hof)]
    exact hposts
  have hstep := Books.Step.post hpost hposted.can hposted.le
  rw [← hposted.eq] at hstep
  exact ⟨b', hstep, hw'⟩

/-- Adding a credit that may be posted is a step of the books. -/
theorem acts_createCredit {details : EntryDetails} (h : details.Allowed p .credit)
    (user amount : Value) : (createCredit cfg user amount details).Acts cfg p := fun b w hw =>
  ends_bind (ends_ofExcept (fun metadata _ =>
    acts_createEntry { details with metadata } ⟨h.currency, h.posts⟩ user amount b w hw)
    fun _ _ => ⟨b, .several .refl, hw⟩)

/-- Adding a debit that may be posted is a step of the books. -/
theorem acts_createDebit {details : EntryDetails} (h : details.Allowed p .debit)
    (user amount : Value) : (createDebit cfg user amount details).Acts cfg p := fun b w hw =>
  ends_bind (ends_ofExcept (fun metadata _ =>
    acts_createEntry { details with metadata } ⟨h.currency, h.posts⟩ user amount b w hw)
    fun _ _ => ⟨b, .several .refl, hw⟩)

/-- Taking an entry back is a step of the books where it may be asked for. -/
theorem stepsInPlace_reverseEntry (id reason reward : Value) (h : reward = .null ∨ p.onBehalf) :
    (reverseEntry cfg id reason reward).StepsInPlace cfg p := by
  intro b w hw
  refine (ends_reverseEntry hw id reason reward).mono ?_ fun _ _ hundone => hundone
  rintro reversal w' ⟨b', hw', e, htook, -, howner⟩
  refine ⟨b', htook.step ?_, htook.sameStanding, hw'⟩
  rcases h with rfl | h
  · cases hreward : e.rewardId with
    | none => exact .inl rfl
    | some owner => cases howner owner hreward
  · exact .inr h

end Ledger

/-- Recording a request by hand is a step of the books where it may be asked for. -/
theorem Requests.acts_record (hp : p.records) (key hash : String) (answer : Fields) :
    (record cfg (.str key) (.str hash) (.object answer)).Acts cfg p := by
  refine acts_of_ends fun b w hw =>
    (ends_record hw key hash answer).mono ?_ fun _ _ hbad => hbad.1.undone
  rintro _ w' ⟨q, hw', hkey, -, -, hfree⟩
  refine ⟨_, .record hp fun q' hq' => ?_, hw'⟩
  rw [hkey]
  exact hfree q' hq'

namespace Call

variable {α : Type}

/-- Writing the results of an operation only reads if the operation does. -/
theorem reads_listed {write : α → Except Failure Value} {op : Op (List α)} (h : op.Reads) :
    (listed write op).Reads :=
  reads_bind h fun _ => reads_bind (reads_ofExcept _) fun _ => reads_pure _

/-- Writing the result of an operation only reads if the operation does. -/
theorem reads_written {write : α → Except Failure Value} {op : Op α} (h : op.Reads) :
    (written write op).Reads :=
  reads_bind h fun _ => reads_ofExcept _

/-- Writing the result of an operation, if there is one, only reads if the operation does. -/
theorem reads_writtenIfAny {write : α → Except Failure Value} {op : Op (Option α)} (h : op.Reads) :
    (writtenIfAny write op).Reads := by
  refine reads_bind h fun found => ?_
  cases found with
  | none => exact reads_pure _
  | some a => exact reads_ofExcept _

/-- Looking something up in the store only reads. -/
theorem reads_storeCall {call : StoreCall} (h : call.IsReading) : call.perform.Reads := by
  cases call with
  | insert | update => exact h.elim
  | inTransaction => exact fun w w' hw => hw
  | _ => exact reads_map (reads_query _)

/-- The balance of a user in two parts may be asked for in any run. -/
theorem reads_foldParts (user : Value) (first : Int) : (foldParts cfg user first).Reads := by
  refine reads_bind (Ledger.reads_entriesForUser user) fun entries => ?_
  exact reads_bind (reads_ofExcept _) fun _ => reads_bind (reads_ofExcept _) fun _ =>
    reads_bind (reads_ofExcept _) fun _ => reads_pure _

/-- A call that only looks something up only reads. -/
theorem reads {call : Call} (h : call.IsReading) : (call.perform cfg).Reads := by
  cases call with
  | getUser id => exact reads_map (Users.reads_get id)
  | getUserByEmail email => exact reads_map (Users.reads_getByEmail email)
  | hasUser id => exact reads_map (Users.reads_has id)
  | listUsers => exact reads_map Users.reads_all
  | getEntry id => exact reads_written (Ledger.reads_getEntry id)
  | entriesForUser user => exact reads_listed (Ledger.reads_entriesForUser user)
  | entriesForReward reward => exact reads_listed (Ledger.reads_entriesForReward reward)
  | calculateBalance user currency => exact reads_map (Ledger.reads_calculateBalance user currency)
  | getBalance user currency => exact reads_map (Ledger.reads_getBalance user currency)
  | listByUser user cursor limit => exact reads_written (Ledger.reads_listByUser user cursor limit)
  | foldInParts user first => exact reads_foldParts user first
  | fingerprint referrer referred amount currency => exact reads_map (reads_ofExcept _)
  | checkRequest key hash => exact reads_map (Requests.reads_check key hash)
  | getRequest key => exact reads_writtenIfAny (Requests.reads_get? key)
  | expiredRequests now => exact reads_listed (Requests.reads_expired now)
  | getReward id => exact reads_written (Rewards.reads_get id)
  | listRewards status limit => exact reads_listed (Rewards.reads_all status limit)
  | rewardEntries id => exact reads_listed (Rewards.reads_entriesFor id)
  | oldestCredit id => exact reads_writtenIfAny (Rewards.reads_oldestCredit id)
  | getRule id => exact reads_written (RuleBook.reads_get id)
  | listRules => exact reads_listed RuleBook.reads_all
  | activeRules => exact reads_listed RuleBook.reads_active
  | latestRules => exact reads_listed RuleBook.reads_latestPerName
  | latestRule name => exact reads_writtenIfAny (RuleBook.reads_latest? name)
  | evaluateEvent event => exact reads_map (RuleEngine.reads_evaluate event)
  | explainEvent event => exact reads_map (RuleEngine.reads_explain event)
  | store call => exact reads_storeCall h
  | _ => exact h.elim

/-- Every call that may be made does to the books what one call may do. -/
theorem acts {call : Call} (h : call.Allowed p) : (call.perform cfg).Acts cfg p := by
  by_cases hreading : call.IsReading
  · exact (reads hreading).acts
  -- a call that may be made has arguments of the kinds for which its service is known to act
  cases call with
  | createUser email name =>
    obtain ⟨o, rfl⟩ := h
    exact acts_map (Users.grows_create email o).acts
  | renameUser id name =>
    obtain ⟨o, rfl⟩ := h
    exact acts_map (acts_of_ends fun b w hw => Users.ends_rename hw id o)
  | createEntry user entryType amount details =>
    obtain ⟨t, rfl, h⟩ := h
    exact acts_written (Ledger.acts_createEntry details h user amount)
  | createCredit user amount details => exact acts_written (Ledger.acts_createCredit h user amount)
  | createDebit user amount details => exact acts_written (Ledger.acts_createDebit h user amount)
  | reverseEntry id reason reward =>
    exact acts_written (Ledger.stepsInPlace_reverseEntry id reason reward h).acts
  | recordRequest key hash response =>
    obtain ⟨hp, ⟨k, rfl⟩, ⟨hash, rfl⟩, answer, rfl⟩ := h
    exact acts_written (Requests.acts_record hp k hash answer)
  | creditReward referrer referred amount key currency metadata =>
    obtain ⟨k, rfl⟩ := h
    exact acts_written (Rewards.grows_credit _ _ _ _ _ _).acts
  | confirmReward id => exact acts_written (StepsInPlace.acts fun b w hw => Rewards.ends_confirm hw id)
  | payReward id => exact acts_written (StepsInPlace.acts fun b w hw => Rewards.ends_pay hw id)
  | reverseReward id reason =>
    obtain ⟨o, rfl⟩ := h
    exact acts_written (StepsInPlace.acts fun b w hw => Rewards.ends_reverse hw id o)
  | reverseRewardEntry id reason =>
    obtain ⟨o, rfl⟩ := h
    exact acts_written (StepsInPlace.acts fun b w hw => Rewards.ends_reverseEntry hw id o)
  | createRule name conditions actions metadata description active =>
    exact acts_written (RuleBook.aside_create _ _ _ _ _ _).acts
  | updateRule id changes => exact acts_written (RuleBook.aside_update id changes).acts
  | deactivateRule id => exact acts_written (RuleBook.aside_deactivate id).acts
  | dispatchEvent event context =>
    refine Grows.acts fun b =>
      keeps_bind ((RuleEngine.reads_evaluate event).aside.grows b) fun actions =>
        grows_dispatch actions context b
  | dispatchActions actions context => exact (grows_dispatch actions context).acts
  | registerHandler type handler =>
    exact fun b w hw => ⟨b, .several .refl, hw.congr rfl rfl⟩
  | replaceHandlers handlers =>
    exact fun b w hw => ⟨b, .several .refl, hw.congr rfl rfl⟩
  | setClock now step =>
    exact fun b w hw => ⟨b, .several .refl, hw.congr rfl rfl⟩
  | seed =>
    exact Grows.acts fun b => keeps_bind (Seed.grows_run b) fun _ => keeps_bind (keeps_ofExcept _)
      fun _ => keeps_pure _
  | store call => exact (hreading h).elim
  | _ => exact (hreading trivial).elim

/-- Every call that may be made moves the books along by steps. -/
theorem moves {call : Call} (h : call.Allowed p) : (call.perform cfg).Moves cfg p := (acts h).moves

end Call

/-! ## Runs -/

/-- The ledger is kept in rupees with two places, as it is when nothing else is set. -/
def Config.rupees : Config :=
  { money := .standard, currency := "INR", pageMax := 100, retention := 86400000000 }

/-- A call, and the clock that is read while it is performed. -/
structure Turn where
  /-- The clock. -/
  clock : Clock
  /-- The call. -/
  call : Call
  deriving Repr

namespace World

/-- The world after a turn, whatever the call comes to. -/
def after (cfg : Config) (w : World) (t : Turn) : World :=
  ((t.call.perform cfg).perform { w with clock := t.clock }).2

/-- The world after several turns. -/
def run (cfg : Config) (w : World) (turns : List Turn) : World := turns.foldl (after cfg) w

/-- Nothing is stored yet, and no identifiers have been given out. -/
structure IsNew (w : World) : Prop where
  /-- The store has the empty tables of the ledger. -/
  store : w.store = Store.ledger
  /-- No identifiers have been given out. -/
  issued : w.issued = 0

/-- The world with the empty tables of the ledger and that clock. -/
def fresh (clock : Clock) : World := { store := Store.ledger, clock }

/-- The world with the empty tables of the ledger is a new one. -/
theorem isNew_fresh (clock : Clock) : (fresh clock).IsNew := ⟨rfl, rfl⟩

/-- The tables of the ledger are empty and declared as they should be. -/
theorem sound_ledger {K : Value → Prop} : ∀ t ∈ Store.ledger.tables, t.2.Sound K ∧ t.2.rows = [] := by
  intro t ht
  simp only [Store.ledger, List.mem_cons, List.not_mem_nil, or_false] at ht
  rcases ht with rfl | rfl | rfl | rfl | rfl
  all_goals
    refine ⟨Table.sound_of_empty ⟨by decide, by decide, by decide, by decide⟩ rfl ?_, rfl⟩
    intro ix hix
    simp only [List.mem_cons, List.not_mem_nil, or_false] at hix
  all_goals rw [hix]

/-- A new world holds no records. -/
theorem IsNew.holds {w : World} (h : w.IsNew) : w.Holds cfg none {} where
  sound := by
    rw [h.store]
    intro name t ht
    obtain ⟨entry, hfind, rfl⟩ := Option.map_eq_some_iff.1 ht
    obtain ⟨hsound, hrows⟩ := sound_ledger entry (List.mem_of_find?_eq_some hfind)
    refine ⟨hsound, fun r hr => ?_⟩
    rw [hrows] at hr
    cases hr
  declared := by
    rw [h.store]
    exact fun _ => rfl
  held := by
    rw [h.store]
    exact ⟨⟨_, rfl, rfl, .nil⟩, ⟨_, rfl, rfl, .nil⟩, ⟨_, rfl, rfl, .nil⟩, ⟨_, rfl, rfl, .nil⟩⟩
  issued := h.issued.symm
  proper := by
    constructor
    all_goals exact fun _ hmem => nomatch hmem
  within := by
    rw [h.store]
    rfl

/-- A turn that may be taken does to the books what one call may do. -/
theorem Holds.after {w : World} {b : Books} (h : w.Holds cfg none b) {t : Turn}
    (ht : t.call.Allowed p) : (w.after cfg t).Reached cfg (Books.Effect cfg p) b := by
  have hclock : ({ w with clock := t.clock } : World).Holds cfg none b := h.congr rfl rfl
  exact (Call.acts ht b _ hclock).perform_snd

/-- Turns that may be taken move the books along by steps. -/
theorem Holds.run {w : World} {b : Books} (h : w.Holds cfg none b) {turns : List Turn}
    (hturns : ∀ t ∈ turns, t.call.Allowed p) :
    (w.run cfg turns).Reached cfg (Books.Steps cfg p) b := by
  induction turns generalizing w b with
  | nil => exact ⟨b, .refl, h⟩
  | cons t rest ih =>
    obtain ⟨b₁, hb₁, hw₁⟩ := h.after (hturns t List.mem_cons_self)
    obtain ⟨b', hb', hw'⟩ := ih hw₁ fun t' ht' => hturns t' (List.mem_cons_of_mem _ ht')
    exact ⟨b', hb₁.steps.trans hb', hw'⟩

/-- After every run from a new world the store holds books that steps lead to. -/
theorem exists_steps_of_run {w : World} (hw : w.IsNew) {turns : List Turn}
    (hturns : ∀ t ∈ turns, t.call.Allowed p) :
    ∃ b, Books.Steps cfg p {} b ∧ (w.run cfg turns).Holds cfg none b :=
  hw.holds.run hturns

end World

end RewardLedger
