import RewardLedger.Proofs.Ledger.ByAge
import RewardLedger.Proofs.Ledger.Timed
import RewardLedger.Proofs.Ledger.WellFormed

/-!
# What a move of a reward comes to

A reward is moved when it is confirmed, paid out or taken back. What a move comes to can be told
beforehand, from the books and from how often the clock can be read (`Books.foresee`): why it is
refused, or else which state the reward takes on, which entry becomes void and which entries are
posted. The state of the reward, its oldest credit and whether that credit still counts are all that
decides. A move ends as foreseen, and changes nothing else (`World.Holds.ends_move`).
-/

namespace RewardLedger

variable {cfg : Config} {p : Permission} {base : Option Store} {b b' : Books} {r : Reward}
  {w w' : World}

/-! ## Moves -/

/-- What can be done to a reward. -/
inductive RewardMove where
  /-- The reward is confirmed. -/
  | confirm
  /-- The reward is paid out. -/
  | pay
  /-- The reward is taken back, perhaps for a reason. -/
  | reverse (reason : Option String)
  deriving DecidableEq, Repr

namespace RewardMove

/-- The state that the reward takes on. -/
def target : RewardMove → RewardStatus
  | confirm => .confirmed
  | pay => .paid
  | reverse _ => .reversed

/-- How often the clock is read. -/
def readings : RewardMove → Nat
  | confirm => 1
  | pay => 2
  | reverse _ => 2

/-- Move the reward with the identifier. -/
def perform (cfg : Config) (id : Uuid) : RewardMove → Op Unit
  | confirm => discard <| Rewards.confirm (.uuid id)
  | pay => discard <| Rewards.pay cfg (.uuid id)
  | reverse reason => discard <| Rewards.reverse cfg (.uuid id) (.ofText? reason)

end RewardMove

/-! ## What is foreseen -/

/-- What an entry is for rewards and balances: all but its identifier, its time and its particulars. -/
structure LedgerEntry.Outline where
  /-- The user. -/
  userId : Uuid
  /-- The reward that it belongs to. -/
  rewardId : Option Uuid
  /-- The currency. -/
  currency : String
  /-- What it does to the balance. -/
  posting : Posting
  deriving DecidableEq, Repr

/-- What the entry is for rewards and balances. -/
def LedgerEntry.outline (e : LedgerEntry) : Outline :=
  ⟨e.userId, e.rewardId, e.currency, e.posting⟩

/-- What a move changes. -/
structure Impact where
  /-- The reward that is moved. -/
  reward : Uuid
  /-- The state that the reward takes on, if it is changed. -/
  status : Option RewardStatus := none
  /-- The entry that becomes void. -/
  voids : Option Uuid := none
  /-- The entries that are posted. -/
  posts : List LedgerEntry.Outline := []
  deriving DecidableEq, Repr

/-- The entry after the change. -/
def Impact.apply (i : Impact) (e : LedgerEntry) : LedgerEntry :=
  i.voids.elim e (LedgerEntry.voided · e)

/-- A change that makes no entry void leaves entries as they are. -/
theorem Impact.apply_of_none {i : Impact} (h : i.voids = none) : i.apply = id :=
  funext fun e => by
    rw [apply, h]
    rfl

/-- A change that makes an entry void makes that one void. -/
theorem Impact.apply_of_some {i : Impact} {id : Uuid} (h : i.voids = some id) :
    i.apply = LedgerEntry.voided id :=
  funext fun e => by
    rw [apply, h]
    rfl

namespace Books

/-- The credit that is taken back with a reward: its oldest one, if that counts and has not been taken
back before. -/
def creditToTakeBack (b : Books) (id : Uuid) : Except Failure LedgerEntry := do
  match ← b.oldestCredit id with
  | none => throw (.fault (.noCreditEntry (.uuid id)))
  | some credit =>
    if credit.status = .void then throw (.fault (.alreadyVoid (.uuid credit.id)))
    else if b.entries.any fun o => o.reversalOf = some credit.id then
      throw (.fault (.alreadyReversed (.uuid credit.id)))
    else pure credit

/-- What is taken back with a reward is its oldest credit, which counts and has not been taken back
before. -/
theorem of_creditToTakeBack {id : Uuid} {credit : LedgerEntry}
    (h : b.creditToTakeBack id = .ok credit) :
    b.oldestCredit id = .ok (some credit) ∧ credit.status = .posted ∧
      ∀ o ∈ b.entries, o.reversalOf ≠ some credit.id := by
  obtain ⟨found, hfound, h⟩ := exists_of_bind_eq_ok h
  cases found with
  | none => cases h
  | some c =>
    dsimp only at h
    split at h
    · cases h
    split at h
    · cases h
    rename_i hvoid hfree
    cases h
    refine ⟨hfound, ?_, fun o ho hof => hfree (List.any_eq_true.2 ⟨o, ho, decide_eq_true hof⟩)⟩
    cases hs : credit.status with
    | posted => rfl
    | void => exact absurd hs hvoid

/-- What a move of the reward changes, or why it is refused. -/
def verdict (b : Books) (r : Reward) (m : RewardMove) : Except Failure Impact :=
  if r.status.canMove m.target then
    match m with
    | .confirm => pure { reward := r.id, status := some .confirmed }
    | .pay => pure {
        reward := r.id
        status := some .paid
        posts := [⟨r.referrerId, some r.id, r.currency, ⟨.debit, .posted, r.amount⟩⟩] }
    | .reverse _ => do
      let credit ← b.creditToTakeBack r.id
      pure {
        reward := r.id
        status := some .reversed
        voids := some credit.id
        posts := [{ credit.outline with posting := ⟨.reversal, .posted, credit.amount⟩ }] }
  else throw (.fault (.invalidTransition r.status m.target))

/-- What a move of the reward changes if the clock can be read, or why it fails. -/
def foresee (b : Books) (r : Reward) (m : RewardMove) (clock : Clock) : Except Failure Impact := do
  let impact ← b.verdict r m
  if clock.gives m.readings then pure impact else throw .outOfRange

/-- The change has happened, and nothing else but that identifiers were given out. -/
structure Undergoes (b : Books) (i : Impact) (b' : Books) : Prop where
  /-- The reward has taken on its new state. -/
  rewards : ∃ f : Reward → Reward, (∀ r, (f r).id = r.id ∧ (f r).status = i.status.getD r.status) ∧
    b'.rewards = b.rewards.map (.changed i.reward f)
  /-- The entry is void, and the new entries stand behind the others. -/
  entries : ∃ new : List LedgerEntry,
    b'.entries = b.entries.map i.apply ++ new ∧
      new.map LedgerEntry.outline = i.posts ∧
      ∀ e ∈ new, b.issued < e.id.value ∧ ∀ id, e.reversalOf = some id → i.voids = some id
  /-- The entry that is void belongs to the reward. -/
  voided : ∀ id, i.voids = some id → ∃ e ∈ b.entries, e.id = id ∧ e.rewardId = some i.reward
  /-- The new entries belong to the reward. -/
  tagged : ∀ o ∈ i.posts, o.rewardId = some i.reward

end Books

/-! ## Moves that are not refused -/

namespace Rewards

open Op

/-- A reward is found by its identifier. -/
theorem perform_get (h : w.Holds cfg base b) (hr : r ∈ b.rewards) :
    (get (.uuid r.id)).perform w = (.ok r, w) := by
  obtain ⟨columns, hget, hrow⟩ := h.held.rewards.get_keyOf h.sound hr
  have hget : w.store.get rewardsTable (.uuid r.id) = .ok (some columns) := hget
  rw [get, perform_bind, perform_query, hget]
  dsimp only
  rw [rewardOf_eq hrow, perform_ofExcept]

/-- What moves a reward that can move is carried out. -/
theorem ends_movable_ok {α : Type} {target : RewardStatus} {op : Reward → Op α}
    {good : α → World → Prop} {bad : Failure → World → Prop} (h : w.Holds cfg base b)
    (hr : r ∈ b.rewards) (hmove : r.status.canMove target = true) (hop : (op r).Ends w good bad) :
    (do
      let r ← get (.uuid r.id)
      requireTransition r target
      op r).Ends w good bad := by
  refine ends_bind ?_
  rw [Ends, perform_get h hr]
  dsimp only
  rw [requireTransition, hmove]
  exact hop

/-- The row of a reward that is there is changed. -/
theorem takes_updateReward (h : w.Holds cfg base b) (hr : r ∈ b.rewards) {changes : Fields}
    (hnames : changes.names ⊆ Reward.changing) {f : Reward → Reward}
    (hf : ∀ (r : Reward) columns, r.IsRow columns → (f r).IsRow (columns.putAll changes))
    (hproper : (b.withReward r.id f).Proper cfg) :
    (change (Store.update rewardsTable (.uuid r.id) changes)).Takes 0 w
      fun columns _ w' => w'.Holds cfg base (b.withReward r.id f) ∧ ∃ r : Reward, r.IsRow columns := by
  have hindex : ∀ ix ∈ [("idempotency_key", ["idempotency_key"])], ∀ c ∈ ix.2,
      c ∉ changes.names := fun ix hix c hc hcn => by
    rw [List.mem_singleton.1 hix, List.mem_singleton] at hc
    have hchanging := hnames hcn
    rw [hc] at hchanging
    exact absurd hchanging (by decide)
  refine ((ends_update_of_mem h h.held.rewards rfl hr hnames (by exact hindex)).and
    (ends_updateReward h r.id hnames hf hproper)).mono ?_ fun _ _ he => he.1.elim
  rintro columns w' ⟨hclock, hw', r', -, -, hrow⟩
  exact ⟨[], rfl, hclock ▸ .none _, hw', f r', hrow⟩

/-- Only the clock stops a reward from being confirmed that can be. -/
theorem takes_confirm (h : w.Holds cfg base b) (hr : r ∈ b.rewards)
    (hmove : r.status.canMove .confirmed = true) :
    (confirm (.uuid r.id)).Takes 1 w fun _ _ w' =>
      ∃ b', b.Step cfg p b' ∧ b.Undergoes { reward := r.id, status := some .confirmed } b' ∧
        w'.Holds cfg base b' := by
  have henter := h.enter
  refine timed_bind (k := 0) Clock.counts_gives (timed_transaction ?_)
  refine ends_movable_ok henter hr hmove ?_
  refine timed_bind (k := 0) Clock.counts_gives (timed_readClock Clock.counts_gives
    fun now clock _ => ?_)
  have hread : ({ w.enter with clock } : World).Holds cfg (some (base.getD w.store)) b :=
    henter.congr rfl rfl
  have hnames : ["status", "confirmed_at"] ⊆ Reward.changing := by decide
  refine (takes_updateReward hread hr (by exact hnames) (fun _ _ hrow => hrow.confirmed now)
    (h.proper.withReward (fun _ => rfl) (fun _ => rfl) fun _ => rfl)).mono ?_
  rintro columns _ w' ⟨hw', r', hrow⟩
  refine ends_bind (ends_log (ends_ofExcept_ok (rewardOf_eq hrow) ⟨[], rfl, .none _, _,
    .confirm hr hmove, ?_, (h.leave hw').congr rfl rfl⟩))
  exact {
    rewards := ⟨fun r => { r with status := .confirmed, confirmedAt := some now },
      fun _ => ⟨rfl, rfl⟩, rfl⟩
    entries := ⟨[], by rw [Impact.apply_of_none rfl, List.map_id, List.append_nil]; rfl, rfl,
      fun _ he => absurd he List.not_mem_nil⟩
    voided := by rintro _ ⟨⟩
    tagged := fun _ ho => absurd ho List.not_mem_nil }

/-- Only the clock stops a reward from being paid out that can be. -/
theorem takes_pay (h : w.Holds cfg base b) (hr : r ∈ b.rewards) (huser : b.HasUser r.referrerId)
    (hmove : r.status.canMove .paid = true) :
    (pay cfg (.uuid r.id)).Takes 2 w fun _ _ w' =>
      ∃ b', b.Step cfg p b' ∧ b.Undergoes {
          reward := r.id
          status := some .paid
          posts := [⟨r.referrerId, some r.id, r.currency, ⟨.debit, .posted, r.amount⟩⟩] } b' ∧
        w'.Holds cfg base b' := by
  have henter := h.enter
  obtain ⟨u, hu, huid⟩ := huser
  refine timed_bind (k := 0) Clock.counts_gives (timed_transaction ?_)
  refine ends_movable_ok henter hr hmove ?_
  refine timed_bind (k := 1) Clock.counts_gives (timed_readClock Clock.counts_gives
    fun now clock _ => ?_)
  have hread : ({ w.enter with clock } : World).Holds cfg (some (base.getD w.store)) b :=
    henter.congr rfl rfl
  -- the first reading is the time of the payout, the second one is that of the debit
  let details : Ledger.EntryDetails := {
    currency := .str r.currency
    rewardId := .uuid r.id
    metadata := .object [("payout", .bool true), ("paid_at", .str now.isoText)] }
  have hnamed : cfg.currencyOf details.currency = .str r.currency := h.proper.rewardCurrencies r hr
  have htag : details.rewardId = .ofUuid? (some r.id) := rfl
  have hdebit := (Ledger.takes_createDebit hread hu (h.proper.rewardAmounts r hr) hnamed htag rfl
    rfl).and (Ledger.ends_createDebit hread hnamed htag)
  rw [huid] at hdebit
  refine timed_bind (k := 0) Clock.counts_gives (hdebit.mono ?_)
  rintro e _ w₁ ⟨-, b₁, hw₁, hposted, huser, htype, hpositive, hcurrency, htagged, hof⟩
  -- nothing but an entry was added, so the reward is there to be changed
  have hr₁ : r ∈ b₁.rewards := by
    rw [hposted.eq]
    exact hr
  have hnames : ["status", "paid_at"] ⊆ Reward.changing := by decide
  refine timed_bind (k := 0) Clock.counts_gives ((takes_updateReward hw₁ hr₁ (by exact hnames)
    (fun _ _ hrow => hrow.paid now)
    (hw₁.proper.withReward (fun _ => rfl) (fun _ => rfl) fun _ => rfl)).mono ?_)
  rintro columns _ w' ⟨hw', r', hrow⟩
  have hamount : e.amount = r.amount := (h.proper.rewardAmounts r hr).eq_of_positive hpositive
  have hnothing : e.reversalOf = none := Value.eq_none_of_null_eq hof
  have huid : e.userId = r.referrerId := (Value.uuid.inj huser).symm
  have houtline : e.outline =
      ⟨r.referrerId, some r.id, r.currency, ⟨.debit, .posted, r.amount⟩⟩ := by
    rw [LedgerEntry.outline, LedgerEntry.posting, huid, htagged, hcurrency, htype,
      hposted.can.posted, hamount]
  rw [hposted.eq] at hw'
  refine ends_pure ⟨[], rfl, .none _, ends_bind (ends_log (ends_bind
    (ends_ofExcept_ok (rewardOf_eq hrow) (ends_pure ⟨[], rfl, .none _, _, ?_, ?_,
      (h.leave hw').congr rfl rfl⟩))))⟩
  · exact .pay hr hmove hposted.can hposted.le htype huid htagged hamount hcurrency hnothing
  · exact {
      rewards := ⟨fun r => { r with status := .paid, paidAt := some now }, fun _ => ⟨rfl, rfl⟩, rfl⟩
      entries := ⟨[e], by rw [Impact.apply_of_none rfl, List.map_id]; rfl,
        by rw [List.map_singleton, houtline], fun x hx => by
          rw [List.mem_singleton.1 hx, hnothing]
          exact ⟨hposted.can.fresh, by rintro _ ⟨⟩⟩⟩
      voided := by rintro _ ⟨⟩
      tagged := fun o ho => by rw [List.mem_singleton.1 ho] }

/-- Only the clock stops a reward from being taken back that can be, together with its credit. -/
theorem takes_reverse (h : w.Holds cfg base b) (hr : r ∈ b.rewards)
    (husers : ∀ e ∈ b.entries, b.HasUser e.userId) (hmove : r.status.canMove .reversed = true)
    {credit : LedgerEntry} (hcredit : b.creditToTakeBack r.id = .ok credit)
    (reason : Option String) :
    (reverse cfg (.uuid r.id) (.ofText? reason)).Takes 2 w fun _ _ w' =>
      ∃ b', b.Step cfg p b' ∧ b.Undergoes {
          reward := r.id
          status := some .reversed
          voids := some credit.id
          posts := [{ credit.outline with posting := ⟨.reversal, .posted, credit.amount⟩ }] } b' ∧
        w'.Holds cfg base b' := by
  have henter := h.enter
  obtain ⟨holdest, hposted, hfree⟩ := Books.of_creditToTakeBack hcredit
  obtain ⟨hmem, htag, htype⟩ := Books.of_oldestCredit holdest
  have howner : ∀ owner, credit.rewardId = some owner → Value.uuid r.id = .uuid owner :=
    fun owner howner => congrArg Value.uuid (Option.some.inj (htag.symm.trans howner))
  refine timed_bind (k := 0) Clock.counts_gives (timed_transaction ?_)
  refine ends_movable_ok henter hr hmove (ends_bind ?_)
  rw [Ends, perform_oldestCredit henter, holdest]
  refine timed_bind (k := 1) Clock.counts_gives (((Ledger.takes_reverseEntry henter hmem
    (husers credit hmem) hposted hfree (.ofText? reason) howner).and
      (Ledger.ends_reverseEntry henter _ _ _)).mono ?_)
  rintro reversal _ w₁ ⟨-, b₁, hw₁, e, htook, hid, -⟩
  -- what was taken back is the credit that was found, as no other entry has its identifier
  obtain rfl := eq_of_entry_id henter hmem htook.mem (Value.uuid.inj hid)
  have hr₁ : r ∈ b₁.rewards := by
    rw [htook.eq]
    exact hr
  refine timed_bind (k := 0) Clock.counts_gives (timed_readClock Clock.counts_gives
    fun now clock _ => ?_)
  have hread : ({ w₁ with clock } : World).Holds cfg (some (base.getD w.store)) b₁ :=
    hw₁.congr rfl rfl
  have hnames : ["status", "reversed_at", "reversal_reason"] ⊆ Reward.changing := by decide
  refine timed_bind (k := 0) Clock.counts_gives ((takes_updateReward hread hr₁ (by exact hnames)
    (fun _ _ hrow => hrow.reversed now reason)
    (hw₁.proper.withReward (fun _ => rfl) (fun _ => rfl) fun _ => rfl)).mono ?_)
  rintro columns _ w' ⟨hw', r', hrow⟩
  have hreverses := htook.reverses
  have houtline : reversal.outline =
      { credit.outline with posting := ⟨.reversal, .posted, credit.amount⟩ } := by
    rw [LedgerEntry.outline, LedgerEntry.posting, hreverses.userId, hreverses.rewardId,
      hreverses.currency, hreverses.entryType, htook.can.posted, hreverses.amount]
    rfl
  -- the reversal has a new identifier, so it is not the entry that becomes void
  have hkept : reversal.voided credit.id = reversal := by
    refine LedgerEntry.voided_of_ne fun hid => ?_
    have hlt := htook.can.fresh
    rw [hid] at hlt
    exact absurd (h.proper.entries credit hmem) (Nat.not_le_of_lt hlt)
  rw [htook.eq] at hw'
  refine ends_pure ⟨[], rfl, .none _, ends_bind (ends_log (ends_bind
    (ends_ofExcept_ok (rewardOf_eq hrow) (ends_pure ⟨[], rfl, .none _, _, ?_, ?_,
      (h.leave hw').congr rfl rfl⟩))))⟩
  · exact .reverse hr hmove hmem htag htype hposted hfree hreverses htook.can htook.le
  · exact {
      rewards := ⟨fun r => { r with
        status := .reversed, reversedAt := some now, reversalReason := reason },
        fun _ => ⟨rfl, rfl⟩, rfl⟩
      entries := ⟨[reversal], by
          rw [Impact.apply_of_some rfl, ← hkept, ← List.map_singleton, ← List.map_append, hkept]
          rfl,
        by rw [List.map_singleton, houtline], fun x hx => by
          rw [List.mem_singleton.1 hx, hreverses.reversalOf]
          exact ⟨htook.can.fresh, fun _ hid => hid⟩⟩
      voided := by
        rintro _ ⟨⟩
        exact ⟨credit, hmem, rfl, htag⟩
      tagged := fun o ho => by
        rw [List.mem_singleton.1 ho]
        exact htag }

end Rewards

/-! ## Moves that are refused -/

open Op

/-- An entry is not taken back if it is void or has been taken back before. -/
theorem Ledger.ends_reverseEntry_refused (h : w.Holds cfg base b) {e : LedgerEntry}
    (he : e ∈ b.entries) (hrefused : e.status = .void ∨ ∃ o ∈ b.entries, o.reversalOf = some e.id)
    (reason : Value) {reward : Value}
    (howner : ∀ owner, e.rewardId = some owner → reward = .uuid owner) :
    (reverseEntry cfg (.uuid e.id) reason reward).Ends w (fun _ _ => False) fun f _ =>
      f = .fault (if e.status = .void then .alreadyVoid (.uuid e.id)
        else .alreadyReversed (.uuid e.id)) := by
  have henter := h.enter
  refine ends_bind (ends_transaction (ends_bind ?_))
  rw [Ends, perform_getEntry henter he]
  refine ends_bind ?_
  rw [Ends, perform_requireOwner _ howner]
  dsimp only
  by_cases hvoid : e.status = .void
  · rw [if_pos hvoid, if_pos hvoid]
    exact ends_bind (ends_refuse rfl)
  · rw [if_neg hvoid, if_neg hvoid]
    obtain ⟨found, hfind, hfound⟩ := exists_findUnique henter e.id
    refine ends_bind (ends_query_ok hfind ?_)
    rw [hfound.2 (hrefused.resolve_left hvoid)]
    exact ends_bind (ends_refuse rfl)

namespace Rewards

/-- A reward that cannot move is refused to be moved. -/
theorem ends_movable_refused {α : Type} {target : RewardStatus} {op : Reward → Op α}
    {good : α → World → Prop} {bad : Failure → World → Prop} (h : w.Holds cfg base b)
    (hr : r ∈ b.rewards) (hmove : r.status.canMove target = false)
    (hrefused : bad (.fault (.invalidTransition r.status target)) w) :
    (do
      let r ← get (.uuid r.id)
      requireTransition r target
      op r).Ends w good bad := by
  refine ends_bind ?_
  rw [Ends, perform_get h hr]
  dsimp only
  rw [requireTransition, hmove]
  exact ends_bind (ends_refuse hrefused)

/-- A reward is not taken back if its credit cannot be. -/
theorem ends_reverse_refused (h : w.Holds cfg base b) (hr : r ∈ b.rewards)
    (hmove : r.status.canMove .reversed = true) {e : Failure}
    (hcredit : b.creditToTakeBack r.id = .error e) (reason : Value) :
    (reverse cfg (.uuid r.id) reason).Ends w (fun _ _ => False) fun f _ => f = e := by
  have henter := h.enter
  refine ends_bind (ends_transaction (ends_movable_ok henter hr hmove (ends_bind ?_)))
  rw [Ends, perform_oldestCredit henter]
  -- there is no oldest credit to be found, or it is void, or it has been taken back
  rcases of_bind_eq_error hcredit with herror | ⟨found, hfound, hcredit⟩
  · rw [herror]
  rw [hfound]
  cases found with
  | none =>
    cases hcredit
    exact ends_refuse rfl
  | some credit =>
    obtain ⟨hmem, htag, -⟩ := Books.of_oldestCredit hfound
    have howner : ∀ owner, credit.rewardId = some owner → Value.uuid r.id = .uuid owner :=
      fun owner howner => congrArg Value.uuid (Option.some.inj (htag.symm.trans howner))
    have hentry := fun hrefused =>
      Ledger.ends_reverseEntry_refused henter hmem hrefused reason howner
    dsimp only at hcredit
    split at hcredit
    · rename_i hvoid
      cases hcredit
      rw [if_pos hvoid] at hentry
      exact ends_bind ((hentry (.inl hvoid)).mono (fun _ _ hf => hf.elim) fun _ _ hf => hf)
    split at hcredit
    · rename_i hvoid htaken
      cases hcredit
      obtain ⟨o, ho, hof⟩ := List.any_eq_true.1 htaken
      rw [if_neg hvoid] at hentry
      exact ends_bind ((hentry (.inr ⟨o, ho, of_decide_eq_true hof⟩)).mono
        (fun _ _ hf => hf.elim) fun _ _ hf => hf)
    · cases hcredit

end Rewards

/-! ## Moves end as foreseen -/

namespace Books

variable {α : Type} {op : Op α} {m : RewardMove} {Q : Impact → World → Prop}

/-- What is not refused, and only the clock stops, ends as foreseen. -/
theorem foresee_of_takes {i : Impact} (hverdict : b.verdict r m = .ok i)
    (h : op.Takes m.readings w fun _ _ w' => Q i w') :
    op.Ends w (fun _ w' => ∃ i, b.foresee r m w.clock = .ok i ∧ Q i w')
      fun e _ => b.foresee r m w.clock = .error e := by
  refine Ends.mono h ?_ ?_
  · rintro _ w' ⟨ts, hn, hts, hQ⟩
    have hgives : w.clock.gives m.readings = true := hn ▸ hts.gives
    refine ⟨i, ?_, hQ⟩
    rw [foresee, hverdict, hgives]
    rfl
  · rintro e w' ⟨rfl, hgives⟩
    rw [foresee, hverdict, hgives]
    rfl

/-- What is refused ends as foreseen. -/
theorem foresee_of_refused {e : Failure} (hverdict : b.verdict r m = .error e)
    (h : op.Ends w (fun _ _ => False) fun f _ => f = e) :
    op.Ends w (fun _ w' => ∃ i, b.foresee r m w.clock = .ok i ∧ Q i w')
      fun e _ => b.foresee r m w.clock = .error e := by
  refine h.mono (fun _ _ hf => hf.elim) ?_
  rintro _ w' rfl
  rw [foresee, hverdict]
  rfl

end Books

namespace World.Holds

/-- Why a move is refused and what it changes can be foreseen. -/
theorem ends_foreseen (h : w.Holds cfg base b) (hpeopled : b.Peopled) (hr : r ∈ b.rewards)
    (m : RewardMove) :
    (m.perform cfg r.id).Ends w
      (fun _ w' => ∃ i, b.foresee r m w.clock = .ok i ∧
        ∃ b', b.Step cfg p b' ∧ b.Undergoes i b' ∧ w'.Holds cfg base b')
      fun e _ => b.foresee r m w.clock = .error e := by
  cases hmove : r.status.canMove m.target with
  | false =>
    -- every move asks first whether the reward can move
    refine Books.foresee_of_refused (if_neg (by rw [hmove]; decide)) ?_
    cases m <;> exact ends_map (ends_bind (ends_transaction
      (Rewards.ends_movable_refused h.enter hr hmove rfl)))
  | true =>
    cases m with
    | confirm =>
      exact Books.foresee_of_takes (if_pos hmove) (timed_map (Rewards.takes_confirm h hr hmove))
    | pay =>
      exact Books.foresee_of_takes (if_pos hmove)
        (timed_map (Rewards.takes_pay h hr (hpeopled.rewards r hr).1 hmove))
    | reverse reason =>
      -- only here the entries of the reward matter
      have hverdict : b.verdict r (.reverse reason) = _ := if_pos hmove
      cases hcredit : b.creditToTakeBack r.id with
      | error e =>
        rw [hcredit] at hverdict
        exact Books.foresee_of_refused hverdict
          (ends_map (Rewards.ends_reverse_refused h hr hmove hcredit _))
      | ok credit =>
        rw [hcredit] at hverdict
        exact Books.foresee_of_takes hverdict (timed_map
          (Rewards.takes_reverse h hr hpeopled.entries hmove hcredit reason))

/-- After a move that fails nothing has happened. -/
theorem ends_undone (h : w.Holds cfg base b) (id : Uuid) (m : RewardMove) :
    (m.perform cfg id).Ends w (fun _ _ => True) fun _ w' => w'.Undone cfg base b := by
  cases m with
  | confirm =>
    exact ends_map ((Rewards.ends_confirm (p := .full) h _).mono (fun _ _ _ => trivial)
      fun _ _ he => he)
  | pay =>
    exact ends_map ((Rewards.ends_pay (p := .full) h _).mono (fun _ _ _ => trivial) fun _ _ he => he)
  | reverse reason =>
    exact ends_map ((Rewards.ends_reverse (p := .full) h _ reason).mono (fun _ _ _ => trivial)
      fun _ _ he => he)

/-- A move of a reward ends as foreseen: it is refused and nothing happens, or it changes what was
foreseen and nothing else. -/
theorem ends_move (h : w.Holds cfg base b) (hpeopled : b.Peopled) (hr : r ∈ b.rewards)
    (m : RewardMove) :
    (m.perform cfg r.id).Ends w
      (fun _ w' => ∃ i, b.foresee r m w.clock = .ok i ∧
        ∃ b', b.Step cfg p b' ∧ b.Undergoes i b' ∧ w'.Holds cfg base b')
      fun e w' => b.foresee r m w.clock = .error e ∧ w'.Undone cfg base b :=
  ((h.ends_foreseen hpeopled hr m).and (h.ends_undone r.id m)).mono (fun _ _ hgood => hgood.1)
    fun _ _ hbad => hbad

end World.Holds

end RewardLedger
