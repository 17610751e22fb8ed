import RewardLedger.Proofs.AppendOnly
import RewardLedger.Proofs.Ledger.RewardRows
import RewardLedger.Proofs.NothingBehind

/-!
# The way of a reward

The three operations that move a reward on set the columns of a state in the row that they have read,
and whether the reward may move there was asked of that row, since nothing in between concerns its
table (`Rewards.ends_move`). What fails after that is taken back, if not in the transaction itself then
in the one around it (`Op.Progresses`). Crediting adds a reward that waits, between two users that
differ (`Rewards.keeps_creditOnce_adds`), and no other call writes to the table.

So from call to call every reward stays where it is or makes one move (`Call.extends_perform`), and
over a whole run its columns tell what became of it (`World.rewards_follow_of_run`).
-/

namespace RewardLedger

variable {cfg : Config}

open World (WellKept)

/-! ## Operations that move a reward on -/

namespace Op

variable {α β : Type} {w : World}

/-- Every reward stays as it is or makes one move, and there are new ones that wait at most; what fails
in a transaction around it is left for that one to take back. -/
def Progresses (op : Op α) : Prop := ∀ base (w : World), w.WellKept (fun _ => True) base →
  w.store.AreRewards → op.Ends w (fun _ w' => w.store.Extends Fields.Advances w'.store)
    fun _ w' => base = none → w.store.Extends Fields.Advances w'.store

/-- In a transaction rewards go on if they do in its body, for what fails at the top is taken back. -/
theorem Steady.progresses {body : Op β} {f : β → Op α} (h : (transaction body >>= f).Steady)
    (hf : ∀ b, (f b).Reads)
    (hbody : ∀ base (w : World), w.WellKept (fun _ => True) base → w.store.AreRewards →
      body.Ends w (fun _ w' => w.store.Extends Fields.Advances w'.store) fun _ _ => True) :
    (transaction body >>= f).Progresses := by
  intro base w hw hr
  have hdone : (transaction body).Ends w
      (fun _ w' => w.store.Extends Fields.Advances w'.store) fun _ _ => True := by
    have hr' : w.enter.store.AreRewards := by
      rw [Store.AreRewards, Store.rewards, table?_enter]
      exact hr
    refine ends_transaction ((hbody _ _ (hw.enter Store.lasting_true) hr').mono (fun _ w' hw' => ?_)
      fun _ _ ht => ht)
    exact (hw'.congr_left (table?_enter w _)).congr (table?_leave w w' _)
  have hfailed : (transaction body).Ends w (fun _ _ => True)
      fun _ w' => base = none → w.store.Extends Fields.Advances w'.store := by
    cases base with
    | some s₀ => exact (ends_self _ _).mono (fun _ _ _ => trivial) fun _ _ _ heq => by cases heq
    | none =>
      exact (h.leavesNothing_transaction w hw).mono (fun _ _ ht => ht) fun _ _ ha _ =>
        (Store.Grows.of_alike (ha rewardsTable)).extends
  refine ends_bind ((hdone.and hfailed).mono (fun b w' hb => ?_) fun _ _ hb => hb.2)
  -- what comes after the transaction only reads
  refine (hf b w' w' (.refl w')).mono (fun _ w'' hb' => ?_) fun _ w'' hb' _ => ?_
  · exact hb.1.congr (by rw [hb'.store])
  · exact hb.1.congr (by rw [hb'.store])

end Op

namespace Rewards

open Op

variable {base : Option Store} {w w' : World} {id : Value} {found : Fields} {reward : Reward}

/-- The row that was read is that of a reward in its state. -/
theorem inState_of_get (hw : w.WellKept (fun _ => True) base) (hr : w.store.AreRewards)
    (hget : w.store.get rewardsTable id = .ok (some found))
    (hreward : Reward.ofRow found = .valid reward) : found.InState reward.status := by
  obtain ⟨row, hrow, -, rfl⟩ := hw.get_reward.1 hget
  obtain ⟨s, hs⟩ := (hr row hrow).inState
  rwa [Reward.status_of_ofRow hreward hs.status]

/-- Setting the columns of the state in the row that was found moves the reward there, if its table was
passed by in between. -/
theorem ends_move (hw : w.WellKept (fun _ => True) base)
    (hget : w.store.get rewardsTable id = .ok (some found)) {s s' : RewardStatus}
    (hs : found.InState s) (hmove : s.canMove s' = true)
    (htable : w'.store.table? rewardsTable = w.store.table? rewardsTable) (now : Instant)
    (reason : Value) : (change (Store.update rewardsTable id (s'.marks now reason))).Ends w'
      (fun _ w'' => w.store.Extends Fields.Advances w''.store) fun _ _ => True := by
  refine ends_change (fun columns s₁ hrun => ?_) fun _ _ _ => trivial
  obtain ⟨t, row, ht, hrow, hkey, -, -, -, rfl⟩ := Store.of_run_update_ok hrun
  have ht' := htable.symm.trans ht
  -- the row that is changed is the one that was found
  obtain ⟨found', hfound', hid, rfl⟩ := hw.get_reward.1 hget
  obtain ⟨u, hu⟩ := (hw.kept rewardsTable t ht' row hrow).id (by decide)
  rw [hu, Value.sameKey_uuid_iff] at hkey
  have hsame : row = found' := hw.reward_unique hfound' (Store.rewards_eq ht' ▸ hrow)
    (by rw [hu, hid, hkey])
  subst hsame
  have hrows := (hw.sound rewardsTable t ht').1.rowsSound
  exact (Store.Extends.updated ht (fun r hr hseq => hrows.eq_of_seq hr hrow hseq)
    (.inr ⟨s, s', hs.moves hmove now reason⟩)).congr_left htable

theorem progresses_confirm (id : Value) : (confirm id).Progresses := by
  refine (steady_confirm List.not_mem_nil id).progresses
    (fun row => reads_bind (reads_log _ _ _) fun _ => reads_ofExcept _) fun base w hw hr => ?_
  refine ends_movable (fun reward found hget hreward hmove => ?_) fun _ => trivial
  refine (reads_readClock.passes rewardsTable).ends_next fun now w₁ h₁ => ?_
  exact ends_move hw hget (inState_of_get hw hr hget hreward) hmove h₁ now .null

theorem progresses_pay (id : Value) : (pay cfg id).Progresses := by
  refine (steady_pay List.not_mem_nil List.not_mem_nil id).progresses
    (fun paid => reads_bind (reads_log _ _ _) fun _ =>
      reads_bind (reads_ofExcept _) fun _ => reads_pure _) fun base w hw hr => ?_
  refine ends_movable (fun reward found hget hreward hmove => ?_) fun _ => trivial
  refine (reads_readClock.passes rewardsTable).ends_next fun now w₁ h₁ => ?_
  refine (Ledger.passes_createDebit rewardsTable_ne_entriesTable _ _ _).ends_next
    fun entry w₂ h₂ => ?_
  refine ends_bind ((ends_move hw hget (inState_of_get hw hr hget hreward) hmove (h₂.trans h₁) now
    .null).mono (fun row w₃ h₃ => ?_) fun _ _ ht => ht)
  exact ends_pure h₃

theorem progresses_reverse (id reason : Value) : (reverse cfg id reason).Progresses := by
  refine (steady_reverse List.not_mem_nil List.not_mem_nil id reason).progresses
    (fun taken => reads_bind (reads_log _ _ _) fun _ =>
      reads_bind (reads_ofExcept _) fun _ => reads_pure _) fun base w hw hr => ?_
  refine ends_movable (fun reward found hget hreward hmove => ?_) fun _ => trivial
  refine ((reads_oldestCredit id).passes rewardsTable).ends_next fun credit w₁ h₁ => ?_
  cases credit with
  | none => exact ends_refuse trivial
  | some credit =>
    refine (Ledger.passes_reverseEntry rewardsTable_ne_entriesTable _ _ _).ends_next
      fun reversal w₂ h₂ => ?_
    refine (reads_readClock.passes rewardsTable).ends_next fun now w₃ h₃ => ?_
    refine ends_bind ((ends_move hw hget (inState_of_get hw hr hget hreward) hmove
      (h₃.trans (h₂.trans h₁)) now reason).mono (fun row w₄ h₄ => ?_) fun _ _ ht => ht)
    exact ends_pure h₄

theorem progresses_reverseEntry (id reason : Value) :
    (reverseEntry cfg id reason).Progresses := by
  have hsteady : (reverseEntry cfg id reason).Steady :=
    steady_reverseEntry List.not_mem_nil List.not_mem_nil id reason
  unfold reverseEntry at hsteady ⊢
  rw [← bind_pure (transaction _)] at hsteady ⊢
  refine hsteady.progresses (fun _ => reads_pure _) fun base w hw hr => ?_
  refine ends_bind ((Ledger.reads_getEntry id w w (.refl w)).mono (fun entry w₁ h₁ => ?_)
    fun _ _ _ => trivial)
  refine ends_bind ((reads_rewardCreditedBy entry id w w₁ h₁).mono (fun reward w₂ h₂ => ?_)
    fun _ _ _ => trivial)
  have hw₂ : w₂.WellKept (fun _ => True) base :=
    World.restsOnStore_wellKept _ _ h₂.store h₂.issued hw
  cases reward with
  | none =>
    refine ((Ledger.passes_reverseEntry rewardsTable_ne_entriesTable id reason .null) w₂).mono
      (fun _ w₃ h₃ => ?_) fun _ _ ht => ht
    exact (Store.Grows.refl w.store).extends.congr (by rw [h₃, h₂.store])
  | some reward =>
    refine ends_bind ((progresses_reverse (.uuid reward) reason base w₂ hw₂ (h₂.store ▸ hr)).mono
      (fun taken w₃ h₃ => ?_) fun _ _ _ => trivial)
    exact ends_pure (h₂.store ▸ h₃)

end Rewards

/-! ## Operations that add rewards -/

/-- Recording a request passes every table but that of recorded requests by. -/
theorem Requests.passes_record {name : String} (h : name ≠ requestsTable)
    (key fingerprint response : Value) :
    (record cfg key fingerprint response).Passes name := by
  refine Op.passes_bind (Op.reads_readClock.passes _) fun now => ?_
  cases now.later? cfg.retention with
  | none => exact fun _ => Op.ends_throw trivial
  | some expiry =>
    exact Op.passes_bind (Op.passes_insert h _) fun _ => (Op.reads_ofExcept _).passes _

/-- The world is well kept, and its store has the rewards of the first one as they were, and new ones
that wait. -/
def World.Adds (w w' : World) : Prop :=
  w'.WellKept (fun _ => True) none ∧ w.store.Grows w'.store

/-- Whether rewards were only added rests on the store. -/
theorem World.restsOnStore_adds (w : World) : RestsOnStore w.Adds := by
  rintro w' w'' hs hi ⟨hw', hgrows⟩
  exact ⟨restsOnStore_wellKept _ _ hs hi hw', hs ▸ hgrows⟩

namespace Rewards

open Op

variable {base : Option Store} {w w₀ : World} {request : CreditRequest}

/-- Only an identifier is found to be that of a party. -/
theorem ends_requireParty_kept (hw : w.WellKept (fun _ => True) base) (role : String) (id : Value) :
    (requireParty role id).Ends w (fun _ w' => w' = w ∧ ∃ u, id = .uuid u) fun _ _ => True := by
  refine ends_bind (ends_query (fun found hfound => ?_) fun _ _ => trivial)
  cases found with
  | none => exact ends_refuse trivial
  | some row => exact ends_pure ⟨rfl, hw.exists_uuid (by decide) hfound⟩

/-- The row of a reward that is added is that of one that waits. -/
theorem starts_rewardRow {a b : Uuid} (ha : request.referrer = .uuid a)
    (hb : request.referred = .uuid b) (hne : a ≠ b) (id : Uuid) (now : Instant) (n : Nat) :
    ((rewardRow id request now).put sequenceColumn (.int n)).Starts where
  inState := by
    refine ⟨rfl, fun c hc => absurd hc List.not_mem_nil, fun c hc => ?_, .inr rfl⟩
    simp only [RewardStatus.blank, List.mem_cons, List.not_mem_nil, or_false] at hc
    rcases hc with rfl | rfl | rfl | rfl <;> rfl
  parties := ⟨a, b, hne, ha, hb⟩

/-- Adding the row of a reward adds a reward that waits. -/
theorem ends_insertReward_starts {a b : Uuid} (ha : request.referrer = .uuid a)
    (hb : request.referred = .uuid b) (hne : a ≠ b) (w : World) :
    (insertReward request).Ends w (fun _ w' => w.store.Grows w'.store) fun _ _ => True := by
  refine ends_bind (ends_freshId (ends_bind (ends_readClock (fun now clock _ => ?_)
    fun _ => trivial)))
  refine ends_change (fun columns s hrun => ?_) fun _ _ _ => trivial
  obtain ⟨t, -, -, -, -, rfl, rfl⟩ := Store.of_run_insert_ok hrun
  exact .inserted (starts_rewardRow ha hb hne _ _ _)

/-- Carrying a request out adds a reward that waits. -/
theorem ends_creditFresh_adds (hw : w.WellKept (fun _ => True) base)
    (hdiffer : request.referrer.equalTo request.referred = .ok false) :
    (creditFresh cfg request).Ends w (fun _ w' => w.store.Grows w'.store) fun _ _ => True := by
  refine ends_bind ((ends_requireParty_kept hw _ _).mono ?_ fun _ _ ht => ht)
  rintro _ w ⟨rfl, a, ha⟩
  refine ends_bind ((ends_requireParty_kept hw _ _).mono ?_ fun _ _ ht => ht)
  rintro _ w ⟨rfl, b, hb⟩
  have hne : a ≠ b := by
    rintro rfl
    rw [ha, hb, Value.equalTo_uuid, Value.sameKey_uuid_iff.2 rfl] at hdiffer
    cases hdiffer
  refine ends_bind ((ends_insertReward_starts ha hb hne w).mono (fun row w₁ h₁ => ?_)
    fun _ _ ht => ht)
  -- the credit and the record are rows of other tables
  refine (passes_bind ((reads_ofExcept _).passes _) fun _ =>
    Ledger.passes_createEntry rewardsTable_ne_entriesTable _ _ _ _).ends_next
    fun entry w₂ h₂ => ?_
  refine ((reads_ofExcept _).passes rewardsTable).ends_next fun reward w₃ h₃ => ?_
  refine ((reads_ofExcept _).passes rewardsTable).ends_next fun response w₄ h₄ => ?_
  refine (passes_map (Requests.passes_record (show rewardsTable ≠ requestsTable by decide)
    _ _ _)).ends_next fun _ w₅ h₅ => ?_
  exact ends_pure (h₁.congr (h₅.trans (h₄.trans (h₃.trans h₂))))

/-- Carrying a request out, or answering it as before, adds a reward that waits at most. -/
theorem keeps_creditOnce_adds (hdiffer : request.referrer.equalTo request.referred = .ok false)
    (w₀ : World) : (creditOnce cfg request).Keeps w₀.Adds := by
  rintro w ⟨hw, hgrows⟩
  have hsteady : (creditOnce cfg request).Steady [] := steady_creditOnce passedByCredits_nil request
  have hfailed : (creditOnce cfg request).LeavesNothing := leavesNothing_creditOnce request
  have hdone : (creditOnce cfg request).Ends w (fun _ w' => w.store.Grows w'.store)
      fun _ _ => True := by
    refine ends_bind (ends_transaction (ends_bind ?_))
    refine (Requests.reads_check _ _ w.enter w.enter (.refl _)).mono (fun standing w₁ h₁ => ?_)
      fun _ _ _ => trivial
    have hw₁ := World.restsOnStore_wellKept _ _ h₁.store h₁.issued (hw.enter Store.lasting_true)
    have hread : w.store.Grows w₁.store :=
      (Store.Grows.refl w.store).congr (by rw [h₁.store, table?_enter])
    refine (?_ : Ends _ w₁ (fun _ w' => w.store.Grows w'.store) fun _ _ => True).mono
      (fun result w₂ h₂ => ?_) fun _ _ ht => ht
    · -- an answered request only reads, and a fresh one adds a pending reward
      cases standing with
      | answered response =>
        exact (reads_replay request response w₁ w₁ (.refl _)).mono
          (fun _ _ h₂ => hread.congr (by rw [h₂.store])) fun _ _ _ => trivial
      | fresh =>
        exact (ends_creditFresh_adds hw₁ hdiffer).mono (fun _ _ h₂ => hread.trans h₂)
          fun _ _ ht => ht
    · have h₂ := h₂.congr (table?_leave w w₂ rewardsTable)
      cases result.replayed with
      | true => exact ends_pure h₂
      | false => exact ends_bind (ends_log (ends_pure h₂))
  exact ((hsteady _ Store.lasting_true none w hw).and (hdone.and (hfailed w hw))).mono
    (fun _ _ h => ⟨h.1, hgrows.trans h.2.1⟩)
    fun _ _ h => ⟨h.1, hgrows.trans (.of_alike (h.2.2 rewardsTable))⟩

/-- The two parties of a request that is in order differ. -/
theorem equalTo_of_checkRequest {referrer referred amount key currency metadata : Value}
    (h : checkRequest cfg referrer referred amount key currency metadata = .ok request) :
    request.referrer.equalTo request.referred = .ok false := by
  obtain ⟨value, found, hash, -, -, -, rfl⟩ := exists_of_checkRequest h
  obtain ⟨same, hsame, h⟩ := exists_of_bind_eq_ok h
  cases same with
  | true => cases h
  | false => exact hsame

theorem keeps_credit_adds (w₀ : World) (referrer referred amount key currency metadata : Value) :
    (credit cfg referrer referred amount key currency metadata).Keeps w₀.Adds := by
  intro w hw
  refine ends_bind (ends_ofExcept (fun request hrequest => ?_) fun _ _ => hw)
  have honce : (creditOnce cfg request).Keeps w₀.Adds :=
    keeps_creditOnce_adds (equalTo_of_checkRequest hrequest) w₀
  exact keeps_onDuplicate honce
    (keeps_bind (keeps_log w₀.restsOnStore_adds _ _ _) fun _ => honce) w hw

end Rewards

/-! ## Calls -/

namespace Op

variable {α β : Type}

/-- What comes after it and only reads does not matter for rewards. -/
theorem Progresses.bind {op : Op β} {f : β → Op α} (h : op.Progresses) (hf : ∀ b, (f b).Reads) :
    (op >>= f).Progresses := by
  intro base w hw hr
  refine ends_bind ((h base w hw hr).mono (fun b w' hw' => ?_) fun _ _ hw' => hw')
  refine (hf b w' w' (.refl w')).mono (fun _ w'' hb => ?_) fun _ w'' hb _ => ?_
  · exact hw'.congr (by rw [hb.store])
  · exact hw'.congr (by rw [hb.store])

/-- At the top it does not matter whether the operation succeeds. -/
theorem Progresses.perform_snd {op : Op α} (h : op.Progresses) {w : World}
    (hw : w.WellKept (fun _ => True) none) (hr : w.store.AreRewards) :
    w.store.Extends Fields.Advances (op.perform w).2.store :=
  ((h none w hw hr).mono (fun _ _ hw' => hw') fun _ _ hw' => hw' rfl).perform_snd

/-- Rewards that are added are new ones. -/
theorem Keeps.extends {op : Op α} {w : World} (h : op.Keeps w.Adds)
    (hw : w.WellKept (fun _ => True) none) :
    w.store.Extends Fields.Advances (op.perform w).2.store :=
  (h w ⟨hw, .refl _⟩).perform_snd.2.extends

end Op

namespace Call

open Op

theorem progresses_written {α : Type} {write : α → Except Failure Value} {op : Op α}
    (h : op.Progresses) : (written write op).Progresses := h.bind fun _ => reads_ofExcept _

theorem keeps_dispatch_adds (w₀ : World) (actions : List TriggeredAction)
    (context : DispatchContext) : (dispatch cfg actions context).Keeps w₀.Adds := fun w hw =>
  keeps_bind (Dispatch.keeps_run (keeps_log w₀.restsOnStore_adds)
      (fun _ _ _ _ => Rewards.keeps_credit_adds w₀ _ _ _ _ _ _) w.handlers actions)
    (fun _ => keeps_bind (keeps_ofExcept _) fun _ => keeps_pure _) w hw

/-- In a call of the services every reward stays as it is or makes one move, and there are new ones
that wait at most. -/
theorem extends_perform {call : Call} (h : call.OfServices) {w : World}
    (hw : w.WellKept (fun _ => True) none) (hr : w.store.AreRewards) :
    w.store.Extends Fields.Advances ((call.perform cfg).perform w).2.store := by
  by_cases hwrites : rewardsTable ∈ call.writes
  · cases call with
    | creditReward referrer referred amount key currency metadata =>
      refine Keeps.extends (keeps_bind ?_ fun _ => keeps_ofExcept _) hw
      exact Rewards.keeps_credit_adds w _ _ _ _ _ _
    | confirmReward id =>
      exact (progresses_written (Rewards.progresses_confirm id)).perform_snd hw hr
    | payReward id => exact (progresses_written (Rewards.progresses_pay id)).perform_snd hw hr
    | reverseReward id reason =>
      exact (progresses_written (Rewards.progresses_reverse id reason)).perform_snd hw hr
    | reverseRewardEntry id reason =>
      exact (progresses_written (Rewards.progresses_reverseEntry id reason)).perform_snd hw hr
    | dispatchEvent event context =>
      refine Keeps.extends (keeps_bind ?_ fun actions => keeps_dispatch_adds w actions context) hw
      exact (RuleEngine.reads_evaluate event).keeps fun _ _ hb =>
        w.restsOnStore_adds hb.store hb.issued
    | dispatchActions actions context =>
      exact (keeps_dispatch_adds w actions context).extends hw
    | _ => exact absurd hwrites (by simp [writes, rewardsTable, usersTable, entriesTable,
        requestsTable, rulesTable])
  · exact (Store.Grows.of_alike (alike_of_passed h hwrites hw)).extends

end Call

/-! ## Runs -/

namespace World

variable {w : World} {id : Value} {row row' : Fields}

/-- The world is well kept, and its rewards are in order. -/
structure KeepsRewards (w : World) : Prop where
  /-- It is well kept, and no transaction is open. -/
  wellKept : w.WellKept (fun _ => True) none
  /-- Each reward is one. -/
  areRewards : w.store.AreRewards

/-- A new world has no rewards. -/
theorem IsNew.rewards_eq (h : w.IsNew) : w.store.rewards = [] := by
  rw [h.store]
  rfl

theorem IsNew.keepsRewards (h : w.IsNew) : w.KeepsRewards := by
  refine ⟨h.wellKept, fun row hrow => ?_⟩
  rw [h.rewards_eq] at hrow
  cases hrow

/-- The clock does not matter for whether a world is well kept. -/
theorem WellKept.setClock (h : w.WellKept (fun _ => True) none) (clock : Clock) :
    ({ w with clock } : World).WellKept (fun _ => True) none :=
  restsOnStore_wellKept _ _ (w := w) rfl (Nat.le_refl _) h

/-- A turn moves a reward on at most, or adds rewards that wait. -/
theorem KeepsRewards.extends (cfg : Config) (h : w.KeepsRewards) {t : Turn} (ht : t.call.OfServices) :
    w.store.Extends Fields.Advances (w.after cfg t).store :=
  Call.extends_perform ht (h.wellKept.setClock t.clock) h.areRewards

theorem KeepsRewards.after (cfg : Config) (h : w.KeepsRewards) {t : Turn} (ht : t.call.OfServices) :
    (w.after cfg t).KeepsRewards :=
  ⟨Call.wellKept_perform ht Store.lasting_true (h.wellKept.setClock t.clock),
    (h.extends cfg ht).areRewards h.areRewards⟩

theorem KeepsRewards.run (cfg : Config) (h : w.KeepsRewards) {turns : List Turn}
    (hturns : ∀ t ∈ turns, t.call.OfServices) : (w.run cfg turns).KeepsRewards := by
  induction turns generalizing w with
  | nil => exact h
  | cons t rest ih =>
    exact ih (h.after cfg (hturns t List.mem_cons_self)) fun t' ht' =>
      hturns t' (List.mem_cons_of_mem _ ht')

/-- After a turn a reward is found where it was, and it has made one move at most. -/
theorem KeepsRewards.exists_after (cfg : Config) (h : w.KeepsRewards) {t : Turn} (ht : t.call.OfServices)
    (hget : w.store.get rewardsTable id = .ok (some row)) :
    ∃ row', (w.after cfg t).store.get rewardsTable id = .ok (some row') ∧ row.Advances row' := by
  obtain ⟨r, hr, hid, rfl⟩ := h.wellKept.get_reward.1 hget
  obtain ⟨r', hr', hkey, hadvances⟩ := (h.extends cfg ht).kept r hr
  exact ⟨r'.columns, (h.after cfg ht).wellKept.get_reward.2 ⟨r', hr', hkey.trans hid, rfl⟩, hadvances⟩

/-- A reward that is found after a turn was there before, or waits. -/
theorem KeepsRewards.of_after (h : w.KeepsRewards) {t : Turn} (ht : t.call.OfServices)
    (hget : (w.after cfg t).store.get rewardsTable id = .ok (some row')) :
    (∃ row, w.store.get rewardsTable id = .ok (some row) ∧ row.Advances row') ∨ row'.Starts := by
  obtain ⟨r', hr', hid, rfl⟩ := (h.after cfg ht).wellKept.get_reward.1 hget
  rcases (h.extends cfg ht).known r' hr' with ⟨r, hr, hkey, hadvances⟩ | hstarts
  · exact .inl ⟨r.columns, h.wellKept.get_reward.2 ⟨r, hr, hkey.symm.trans hid, rfl⟩, hadvances⟩
  · exact .inr hstarts

/-- After any number of turns a reward is found where it was; what does not change when a reward
moves is as it was, and so is what was written down about when something happened. -/
theorem KeepsRewards.exists_run (cfg : Config) (h : w.KeepsRewards) {turns : List Turn}
    (hturns : ∀ t ∈ turns, t.call.OfServices)
    (hget : w.store.get rewardsTable id = .ok (some row)) :
    ∃ row', (w.run cfg turns).store.get rewardsTable id = .ok (some row') ∧
      (∀ c ∉ Reward.moving, row'.get c = row.get c) ∧
      ∀ c ∈ Reward.stamps, row.get c ≠ .null → row'.get c = row.get c := by
  induction turns generalizing w row with
  | nil => exact ⟨row, hget, fun _ _ => rfl, fun _ _ _ => rfl⟩
  | cons t rest ih =>
    have ht := hturns t List.mem_cons_self
    obtain ⟨row₁, hget₁, hadvances⟩ := h.exists_after cfg ht hget
    obtain ⟨row', hget', hsame, hstamps⟩ := ih (h.after cfg ht)
      (fun t' ht' => hturns t' (List.mem_cons_of_mem _ ht')) hget₁
    refine ⟨row', hget', fun c hc => (hsame c hc).trans (hadvances.get_eq hc), fun c hc hset => ?_⟩
    have hkept := hadvances.stamp_eq hc hset
    rw [← hkept] at hset
    exact (hstamps c hc hset).trans hkept

/-- A reward of which it is written down when it was confirmed has been in that state. -/
theorem IsNew.exists_confirmed (hw : w.IsNew) {turns : List Turn}
    (hturns : ∀ t ∈ turns, t.call.OfServices)
    (hget : (w.run cfg turns).store.get rewardsTable id = .ok (some row))
    (hset : row.Stamped "confirmed_at") :
    ∃ before between row', turns = before ++ between ∧
      (w.run cfg before).store.get rewardsTable id = .ok (some row') ∧
      row'.get "status" = .str RewardStatus.confirmed.name := by
  -- by induction on the turns, the last one first: it left the reward as it was, moved it or made
  -- it
  induction turns using List.reverseRecOn generalizing row with
  | nil =>
    obtain ⟨r, hr, -⟩ := hw.wellKept.get_reward.1 hget
    rw [hw.rewards_eq] at hr
    cases hr
  | append_singleton turns t ih =>
    have hturns' : ∀ t' ∈ turns, t'.call.OfServices := fun t' ht' =>
      hturns t' (List.mem_append_left _ ht')
    have ht := hturns t (List.mem_append_right _ List.mem_cons_self)
    have hlast : w.run cfg (turns ++ [t]) = (w.run cfg turns).after cfg t := run_append cfg w turns [t]
    have hearlier : ∀ {row₀ : Fields},
        (w.run cfg turns).store.get rewardsTable id = .ok (some row₀) →
          row₀.Stamped "confirmed_at" → ∃ before between row', turns ++ [t] = before ++ between ∧
            (w.run cfg before).store.get rewardsTable id = .ok (some row') ∧
            row'.get "status" = .str RewardStatus.confirmed.name := by
      intro row₀ hget₀ hset₀
      obtain ⟨before, between, row', heq, hget', hstatus⟩ := ih hturns' hget₀ hset₀
      exact ⟨before, between ++ [t], row', by rw [heq, List.append_assoc], hget', hstatus⟩
    have hget₁ := hget
    rw [hlast] at hget₁
    rcases (hw.keepsRewards.run cfg hturns').of_after ht hget₁ with
      ⟨row₀, hget₀, hsame | ⟨s, s', hmoves⟩⟩ | hstarts
    · refine hearlier hget₀ ?_
      rwa [Fields.Stamped, ← hsame]
    · by_cases hconfirmed : s' = .confirmed
      · -- it is confirmed in this turn
        exact ⟨turns ++ [t], [], row, (List.append_nil _).symm, hget, hconfirmed ▸ hmoves.after.status⟩
      · refine hearlier hget₀ ?_
        have hkept := hmoves.others "confirmed_at" (by
          revert hconfirmed
          cases s' <;> decide)
        rwa [Fields.Stamped, ← hkept]
    · exact absurd (hstarts.inState.blank _ List.mem_cons_self) hset.ne_null

/-- Rewards follow their states, and what is written down beside them tells of it. In every run of
calls of the services, whatever they come to, a reward that is there at some time is there at every
later time; only its status, the three times beside it and the reason change, and a time that is
written down stays. A call leaves the status or moves it along the table of moves. And at any time the
reward is in some state: when it waits none of the four columns holds anything, when it is confirmed
only the time of that is there, when it is paid out exactly that and the time of the payout are, and
when it is taken back the time of that is there and no payout, and it was confirmed at some time before
exactly if that time is there. -/
theorem rewards_follow_of_run (hw : w.IsNew) {turns : List Turn}
    (hturns : ∀ t ∈ turns, t.call.OfServices) (earlier later : List Turn)
    (hsplit : turns = earlier ++ later) (id : Value) (row : Fields)
    (hget : (w.run cfg earlier).store.get rewardsTable id = .ok (some row)) :
    (∃ row', (w.run cfg turns).store.get rewardsTable id = .ok (some row') ∧
        (∀ c ∉ Reward.moving, row'.get c = row.get c) ∧
        ∀ c ∈ Reward.stamps, row.get c ≠ .null → row'.get c = row.get c) ∧
      (∀ t rest, later = t :: rest → ∃ row',
        (w.run cfg (earlier ++ [t])).store.get rewardsTable id = .ok (some row') ∧
        (row'.get "status" = row.get "status" ∨ ∃ s s' : RewardStatus, s.canMove s' = true ∧
          row.get "status" = .str s.name ∧ row'.get "status" = .str s'.name)) ∧
      ∃ s, row.InState s ∧ (s = .reversed → (row.Stamped "confirmed_at" ↔
        ∃ before between row', earlier = before ++ between ∧
          (w.run cfg before).store.get rewardsTable id = .ok (some row') ∧
          row'.get "status" = .str RewardStatus.confirmed.name)) := by
  subst hsplit
  have hearlier : ∀ t ∈ earlier, t.call.OfServices := fun t ht =>
    hturns t (List.mem_append_left _ ht)
  have hlater : ∀ t ∈ later, t.call.OfServices := fun t ht =>
    hturns t (List.mem_append_right _ ht)
  have hkeeps := hw.keepsRewards.run cfg hearlier
  refine ⟨?_, ?_, ?_⟩
  · rw [run_append]
    exact hkeeps.exists_run cfg hlater hget
  · rintro t rest rfl
    rw [run_append]
    obtain ⟨row', hget', hadvances⟩ := hkeeps.exists_after cfg
      (hlater t List.mem_cons_self) hget
    refine ⟨row', hget', ?_⟩
    rcases hadvances with hsame | ⟨s, s', hmoves⟩
    · exact .inl (by rw [hsame])
    · exact .inr ⟨s, s', hmoves.edge, hmoves.before.status, hmoves.after.status⟩
  · obtain ⟨r, hr, hid, rfl⟩ := hkeeps.wellKept.get_reward.1 hget
    obtain ⟨s, hs⟩ := (hkeeps.areRewards r hr).inState
    refine ⟨s, hs, fun _ => ⟨hw.exists_confirmed hearlier hget, ?_⟩⟩
    rintro ⟨before, between, row', rfl, hget', hstatus⟩
    have hbefore : ∀ t ∈ before, t.call.OfServices := fun t ht =>
      hearlier t (List.mem_append_left _ ht)
    have hkeeps' := hw.keepsRewards.run cfg hbefore
    obtain ⟨r', hr', -, rfl⟩ := hkeeps'.wellKept.get_reward.1 hget'
    obtain ⟨s', hs'⟩ := (hkeeps'.areRewards r' hr').inState
    obtain rfl : s' = .confirmed :=
      RewardStatus.name_injective (Value.str.inj (hs'.status.symm.trans hstatus))
    -- what was written down then is still there
    obtain ⟨t, ht⟩ := hs'.stamped "confirmed_at" List.mem_cons_self
    obtain ⟨row₁, hget₁, -, hstamps⟩ := hkeeps'.exists_run cfg
      (fun t ht => hearlier t (List.mem_append_right _ ht)) hget'
    rw [← run_append, hget] at hget₁
    cases hget₁
    exact ⟨t, (hstamps _ List.mem_cons_self (Fields.Stamped.ne_null ⟨t, ht⟩)).trans ht⟩

end World

/-- A reward is credited, confirmed and taken back, and then asked to be paid out, which is refused. -/
def Turn.confirmedAndTakenBack : List Turn :=
  let clock : Clock := { now := ⟨0, some 0⟩, step := 1 }
  [⟨clock, .createUser (.str "a@x.org") .null⟩, ⟨clock, .createUser (.str "b@x.org") .null⟩,
    ⟨clock, .creditReward (.uuid ⟨1⟩) (.uuid ⟨2⟩) (.str "10.00") (.str "k") .null .null⟩,
    ⟨clock, .confirmReward (.uuid ⟨3⟩)⟩, ⟨clock, .reverseReward (.uuid ⟨3⟩) (.str "fraud")⟩,
    ⟨clock, .payReward (.uuid ⟨3⟩)⟩]

/-- The reward that was confirmed is there afterwards, and when it was confirmed is still written
down. -/
theorem World.rewards_follow_of_confirmedAndTakenBack :
    let w := fresh { now := ⟨0, some 0⟩, step := 1 }
    (∀ t ∈ Turn.confirmedAndTakenBack, t.call.OfServices) ∧ ∃ row row',
      (w.run .rupees (Turn.confirmedAndTakenBack.take 4)).store.get rewardsTable (.uuid ⟨3⟩) =
        .ok (some row) ∧
      (w.run .rupees Turn.confirmedAndTakenBack).store.get rewardsTable (.uuid ⟨3⟩) =
        .ok (some row') ∧
      ∀ c ∈ Reward.stamps, row.get c ≠ .null → row'.get c = row.get c := by
  intro w
  have hservices : ∀ t ∈ Turn.confirmedAndTakenBack, t.call.OfServices := by
    intro t ht
    simp only [Turn.confirmedAndTakenBack, List.mem_cons, List.not_mem_nil, or_false] at ht
    rcases ht with rfl | rfl | rfl | rfl | rfl | rfl <;> trivial
  obtain ⟨row, hrow⟩ := exists_eq_ok_some
    (r := (w.run .rupees (Turn.confirmedAndTakenBack.take 4)).store.get rewardsTable (.uuid ⟨3⟩))
    (by decide +kernel)
  obtain ⟨⟨row', hrow', -, hstamps⟩, -⟩ := rewards_follow_of_run (isNew_fresh _) hservices _
    (Turn.confirmedAndTakenBack.drop 4) (List.take_append_drop 4 _).symm _ _ hrow
  exact ⟨hservices, row, row', hrow, hrow', hstamps⟩

example : (((World.fresh { now := ⟨0, some 0⟩, step := 1 }).run .rupees
    Turn.confirmedAndTakenBack).store.get rewardsTable (.uuid ⟨3⟩)).toOption.map
      (Option.map fun row => (row.get "status").plainText) = some (some "REVERSED") := by
  decide +kernel

end RewardLedger
