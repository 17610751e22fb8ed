import RewardLedger.Proofs.Ledger.Answers
import RewardLedger.Proofs.Ledger.Crediting
import RewardLedger.Proofs.Ledger.Timed
import RewardLedger.Proofs.Untouched

/-!
# Credits are carried out in time

A request for a credit that nothing speaks against is carried out as long as the clock lasts. It
reads the clock three times, for the reward, for its entry and for the record of the request, and it
fails only if there is no such reading any more or if the record would be kept beyond the end of
time (`Rewards.inTime_creditFresh`).

An operation that succeeds in time (`Op.InTime`) reads the clock a fixed number of times, and what is
kept from one of these readings on is kept within time. Operations of this kind are put together by
adding up how often they read it (`Op.timed_bind`).
-/

namespace RewardLedger

variable {cfg : Config} {base : Option Store} {s₀ : Store} {b : Books} {w : World}

/-! ## Clocks that last -/

/-- The clock can be read that many times more, and what is kept for that long from one of these
readings on is kept within time. -/
def Clock.Lasts (retention : Int) : Nat → Clock → Prop
  | 0, _ => True
  | n + 1, c => ∃ t c', c.read? = some (t, c') ∧ (t.later? retention).isSome = true ∧
    c'.Lasts retention n

namespace Clock

variable {retention : Int} {c c' : Clock} {n k : Nat}

/-- A clock that lasts longer lasts. -/
theorem Lasts.of_le (h : c.Lasts retention n) (hk : k ≤ n) : c.Lasts retention k := by
  induction k generalizing n c with
  | zero => trivial
  | succ k ih =>
    obtain ⟨n, rfl⟩ : ∃ m, n = m + 1 := ⟨n - 1, by omega⟩
    obtain ⟨t, c', hread, hkept, hrest⟩ := h
    exact ⟨t, c', hread, hkept, ih hrest (by omega)⟩

/-- A clock that has been read lasts for the readings that are left. -/
theorem Lasts.after {ts : List Instant} (h : c.Lasts retention (ts.length + n))
    (hts : c.Reads ts c') : c'.Lasts retention n := by
  induction hts with
  | none _ =>
    rw [List.length_nil, Nat.zero_add] at h
    exact h
  | @next c c₁ _ t ts hread _ ih =>
    rw [List.length_cons, Nat.add_right_comm] at h
    obtain ⟨t', c₂, hread', -, hrest⟩ := h
    obtain ⟨-, rfl⟩ := Prod.mk.inj (Option.some.inj (hread'.symm.trans hread))
    exact ih hrest

/-- A clock that lasts gives as many readings. -/
theorem Lasts.gives (h : c.Lasts retention n) : c.gives n = true := by
  induction n generalizing c with
  | zero => rfl
  | succ n ih =>
    obtain ⟨t, c', hread, -, hrest⟩ := h
    rw [Clock.gives, hread]
    exact ih hrest

/-- Readings are counted by how long a clock lasts. -/
theorem counts_lasts : Counts fun n c => ¬c.Lasts retention n where
  unread h := by
    rintro ⟨t, c', hread, -⟩
    cases h.symm.trans hread
  more k h hc := h (hc.of_le (Nat.le_add_right _ k))
  before hts h hc := h (hc.after hts)

/-- Whatever is read from the clock exists. -/
def Sound (c : Clock) : Prop := ∀ ts c', c.Reads ts c' → ∀ t ∈ ts, t.Valid

/-- A clock without readings that are laid out gives instants if it starts with one. -/
theorem sound_of_now (hplanned : c.planned = []) (hnow : c.now.Valid) : c.Sound := by
  intro ts c' h
  induction h with
  | none _ => exact fun t ht => absurd ht List.not_mem_nil
  | @next c c₁ _ t ts hread _ ih =>
    obtain ⟨now, step, planned⟩ := c
    obtain rfl : planned = [] := hplanned
    obtain ⟨next, hnext, heq⟩ := Option.map_eq_some_iff.1 hread
    obtain ⟨rfl, rfl⟩ := Prod.mk.inj heq
    intro x hx
    rcases List.mem_cons.1 hx with rfl | hx
    · exact hnow
    · exact ih rfl (hnow.later? hnext) x hx

end Clock

namespace Op

variable {α : Type} {retention : Int} {n : Nat}

/-- The operation reads the clock that many times and ends with a good result, or the clock does not
last that long. What is good may speak of the readings. -/
abbrev InTime (retention : Int) (n : Nat) (op : Op α) (w : World)
    (good : α → List Instant → World → Prop) : Prop :=
  op.Timed (fun n c => ¬c.Lasts retention n) n w good

/-- What is stopped only where no readings are left is done in time. -/
theorem Timed.inTime {op : Op α} {good : α → List Instant → World → Prop} (h : op.Takes n w good) :
    op.InTime retention n w good :=
  Ends.mono h (fun _ _ ha => ha) fun _ _ ⟨he, hgives⟩ =>
    ⟨he, fun hlasts => Bool.false_ne_true (hgives.symm.trans hlasts.gives)⟩

end Op

open Op

/-! ## Free keys -/

namespace World.Holds

/-- There is no row under a text that is the key of no recorded request. -/
theorem get_request_none (h : w.Holds cfg base b) {key : String}
    (hfree : ∀ q ∈ b.requests, q.key ≠ key) : w.store.get requestsTable (.str key) = .ok none := by
  have hhashable : (Value.str key).hashable = true := rfl
  obtain ⟨found, hget⟩ := h.held.requests.exists_get hhashable
  cases found with
  | none => exact hget
  | some columns =>
    obtain ⟨q, hq, -, hkey⟩ := h.held.requests.of_get_some h.sound hget
    exact absurd (Value.str.inj hkey).symm (hfree q hq)

/-- A credit for a user can be carried out under a key that is free. -/
theorem payable (h : w.Holds cfg base b) {u : User} (hu : u ∈ b.users) {key : String}
    (hfree : ∀ q ∈ b.requests, q.key ≠ key) : w.Payable (.uuid u.id) (.str key) := by
  obtain ⟨columns, hget, -⟩ := h.held.users.get_keyOf h.sound hu
  exact ⟨h.creditable, ⟨columns, hget⟩, h.get_request_none hfree⟩

end World.Holds

/-! ## Recording a request -/

/-- A request with a free key is recorded in time. -/
theorem Requests.inTime_record (h : w.Holds cfg base b) {key : String}
    (hfree : ∀ q ∈ b.requests, q.key ≠ key) (hash : String) (answer : Fields) :
    (record cfg (.str key) (.str hash) (.object answer)).InTime cfg.retention 1 w
      fun _ _ _ => True := by
  refine ends_bind (ends_readClock (fun now clock hread => ?_) fun hread => ⟨rfl, ?_⟩)
  swap
  · rintro ⟨t, c', hread', -⟩
    cases hread.symm.trans hread'
  cases hlater : now.later? cfg.retention with
  | none =>
    -- the clock gives an instant that is too late to be kept for so long
    refine ends_throw ⟨rfl, ?_⟩
    rintro ⟨t, c', hread', hkept, -⟩
    obtain ⟨rfl, -⟩ := Prod.mk.inj (Option.some.inj (hread.symm.trans hread'))
    rw [hlater] at hkept
    cases hkept
  | some expiry =>
    have hclock : ({ w with clock } : World).Holds cfg base b := h.congr rfl rfl
    have hrecordable : ({ w with clock } : World).Recordable (.str key) :=
      ⟨h.declared, h.get_request_none hfree⟩
    obtain ⟨t, ht, hprimary, -⟩ := id h.held.requests
    have hkey : ((recordRow key hash (.object answer) now expiry).get t.primaryKey).IsPlain := by
      rw [hprimary]
      trivial
    have hfits := fitsTable_recordRow h.declared key hash (.object answer) now expiry
    refine ends_bind ((ends_insert_of_free hclock ht hkey hfits fun e s hrun => ?_).mono ?_
      fun _ _ he => he.elim)
    · exact Failure.isDuplicate_eq_false (isFault_of_insertRecord hrecordable rfl hrun)
    · rintro columns w' ⟨hw', rfl⟩
      refine ends_ofExcept (fun _ _ => ?_) fun _ he => nomatch he
      exact ⟨[now], rfl, hw' ▸ .next hread (.none _), trivial⟩

/-! ## Carrying a request out -/

namespace Rewards

variable {request : CreditRequest} {key : String}

/-- The row of a reward with a free key is added in time. -/
theorem inTime_insertReward (h : w.Holds cfg base b) (hkey : request.key = .str key)
    (hfree : ∀ r ∈ b.rewards, r.idempotencyKey ≠ key) :
    (insertReward request).InTime cfg.retention 1 w
      fun columns ts _ => ∃ id now, ∃ seq : Nat, ts = [now] ∧
        columns = (rewardRow id request now).put sequenceColumn (.int seq) := by
  have hlt : b.issued < w.issued + 1 := h.issued ▸ Nat.lt_succ_self _
  refine ends_bind (ends_freshId ?_)
  refine timed_bind (k := 0) Clock.counts_lasts (timed_readClock Clock.counts_lasts
    fun now clock _ => ?_)
  have hread : ({ w with issued := w.issued + 1, clock } : World).Holds cfg base
      { b with issued := w.issued + 1 } := (h.issue (Nat.le_succ _)).congr rfl rfl
  obtain ⟨t, ht, hprimary, -⟩ := id h.held.rewards
  have hplain : ((rewardRow ⟨w.issued + 1⟩ request now).get t.primaryKey).IsPlain := by
    rw [hprimary]
    trivial
  refine (ends_insert_of_free hread ht hplain
    (fitsTable_rewardRow h.declared hkey ⟨w.issued + 1⟩ now) fun e s hrun => ?_).mono ?_
      fun _ _ he => he.elim
  · cases e with
    | duplicate table index taken =>
      obtain ⟨r, hr, hrkey⟩ := exists_key_of_duplicate h hkey (h.proper.reward_ne hlt) hrun
      exact absurd hrkey (hfree r hr)
    | _ => rfl
  · rintro columns w' ⟨hclock, rfl⟩
    exact ⟨[], rfl, hclock ▸ .none _, _, now, _, rfl, rfl⟩

end Rewards

/-- An answer can be written if the particulars of its reward and of its entry can be. -/
theorem CreditResult.exists_json {r : CreditResult}
    (hreward : ∃ v, r.reward.metadata.jsonForm = .ok v)
    (hentry : ∃ v, r.entry.metadata.jsonForm = .ok v) : ∃ answer, r.json = .ok (.object answer) := by
  obtain ⟨v, hv⟩ := hreward
  obtain ⟨v', hv'⟩ := hentry
  rw [json, Reward.json, LedgerEntry.json, hv, hv']
  exact ⟨_, rfl⟩

/-- The particulars in an answer are those that came with the request and those that every credit of a
reward has, and nothing is said about taking the reward back. -/
structure CreditResult.Carries (result : CreditResult) (request : Rewards.CreditRequest) : Prop where
  /-- The particulars of the reward are those of the request. -/
  metadata : result.reward.metadata = request.metadata
  /-- Nothing is said about taking the reward back. -/
  reversalReason : result.reward.reversalReason = none
  /-- The particulars of the entry say what it is for. -/
  entryMetadata : result.entry.metadata = .object (Fields.put
    [("reward_type", .str "referral"), ("referred_user_id", .str request.referred.plainText)]
    "action" (.str "credit"))

namespace Rewards

variable {request : CreditRequest} {key : String}

/-- The row of a reward that has just been added shows no instant but that of its making. -/
theorem shows_of_rewardRow {r : Reward} {id : Uuid} {now : Instant} {seq : Nat}
    (h : r.IsRow ((rewardRow id request now).put sequenceColumn (.int seq))) : r.Shows (· = now) := by
  have hnone : ∀ o : Option Instant, Value.null = .ofInstant? o → ∀ t, o = some t → t = now := by
    rintro _ ho t rfl
    cases ho
  exact ⟨(Value.instant.inj (Option.some.inj h.createdAt)).symm, hnone _ h.confirmedAt,
    hnone _ h.paidAt, hnone _ h.reversedAt⟩

/-- A request in order with a free key, whose parties are users and whose currency is a text, is
carried out in time. Its reward is the one asked for, and its answer carries the particulars of the
request and shows no instants but those that were read. -/
theorem inTime_creditFresh (h : w.Holds cfg (some s₀) b) (hr : request.InOrder cfg key)
    {currency : String} (hcurrency : request.currency = .str currency) {referrer referred : User}
    (hreferrer : referrer ∈ b.users) (hreferrerId : request.referrer = .uuid referrer.id)
    (hreferred : referred ∈ b.users) (hreferredId : request.referred = .uuid referred.id)
    (hrewards : ∀ r ∈ b.rewards, r.idempotencyKey ≠ key) (hfree : ∀ q ∈ b.requests, q.key ≠ key) :
    (creditFresh cfg request).InTime cfg.retention 3 w
      fun result ts _ => result.reward.Meets request ∧ result.Carries request ∧
        result.reward.Shows (· ∈ ts) ∧ result.entry.createdAt ∈ ts := by
  have hnamed : cfg.currencyOf request.currency = .str currency := by
    obtain ⟨v, hv⟩ := hr.currency
    rw [hcurrency]
    exact Config.names_of_currencyOf (hv.symm.trans hcurrency)
  have hparty : ∀ (role : String) (id : Value) (u : User), u ∈ b.users → id = .uuid u.id →
      (requireParty role id).Ends w (fun _ w' => w' = w) fun _ _ => False := by
    rintro role _ u hu rfl
    obtain ⟨columns, hget, -⟩ := h.held.users.get_keyOf h.sound hu
    exact ends_bind (ends_query_ok hget (ends_pure rfl))
  -- both parties are found, which reads no clock
  refine ends_bind ((hparty _ _ _ hreferrer hreferrerId).mono ?_ fun _ _ he => he.elim)
  rintro _ _ rfl
  refine ends_bind ((hparty _ _ _ hreferred hreferredId).mono ?_ fun _ _ he => he.elim)
  rintro _ _ rfl
  -- three readings in all: that of the reward, that of the entry and that of the record
  refine timed_bind (k := 2) Clock.counts_lasts (((inTime_insertReward h hr.key hrewards).and
    (ends_insertReward h hr hcurrency hreferrerId hreferredId)).mono ?_)
  rintro _ _ w₁ ⟨⟨id, now, seq, rfl, rfl⟩, r, n, hw₁, hbegins, hrow⟩
  have htag : ((rewardRow id request now).put sequenceColumn (.int seq)).get "id" =
    .ofUuid? (some id) := rfl
  rw [hreferrerId]
  refine timed_bind (k := 1) Clock.counts_lasts (((Ledger.takes_createCredit hw₁ hreferrer hr.settled
    (by exact hnamed) (by exact htag) rfl rfl).inTime.and
      (Ledger.ends_createCredit hw₁ (by exact hnamed) (by exact htag))).mono ?_)
  rintro e _ w₂ ⟨⟨rfl, hmetadata⟩, b₂, hw₂, hposted, -⟩
  -- what is answered can be shown, for all that is in it came from the request or from the clock
  have hread : rewardOf ((rewardRow id request now).put sequenceColumn (.int seq)) = .ok r :=
    rewardOf_eq hrow
  have hparticulars : request.metadata = r.metadata := Option.some.inj hrow.metadata
  have hnothing : r.reversalReason = none := by
    have hreason : Value.null = .ofText? r.reversalReason := hrow.reversalReason
    cases hr : r.reversalReason with
    | none => rfl
    | some s =>
      rw [hr] at hreason
      cases hreason
  have hwritable : ∃ v, r.metadata.jsonForm = .ok v := hparticulars ▸ hr.writable
  have hentry : ∃ v, e.metadata.jsonForm = .ok v := by
    rw [hmetadata]
    exact ⟨_, rfl⟩
  obtain ⟨answer, hanswer⟩ : ∃ answer, (CreditResult.mk r e false).json = .ok (.object answer) :=
    CreditResult.exists_json hwritable hentry
  -- neither the reward nor the entry has recorded a request
  have hfree₂ : ∀ q ∈ b₂.requests, q.key ≠ key := by
    rw [hposted.eq]
    exact hfree
  refine ends_bind (ends_ofExcept_ok hread (ends_bind (ends_ofExcept_ok hanswer ?_)))
  rw [hr.key]
  refine timed_bind (k := 0) Clock.counts_lasts
    (timed_map ((Requests.inTime_record hw₂ hfree₂ _ _).mono ?_))
  rintro _ ts w₃ -
  exact timed_pure ⟨hbegins.meets, ⟨hparticulars.symm, hnothing, hmetadata⟩,
    (shows_of_rewardRow hrow).mono fun t ht => ht ▸ List.mem_cons_self,
    List.mem_cons_of_mem _ List.mem_cons_self⟩

end Rewards

end RewardLedger
