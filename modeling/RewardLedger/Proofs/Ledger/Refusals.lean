import RewardLedger.Proofs.Ledger.InTime
import RewardLedger.Proofs.Ledger.Steps

/-!
# Why credits are refused

A request for a credit between two identifiers fails because it is not in order, or for one of the
reasons of `Books.Refuses`: its key was used for another request, the recorded answer cannot be
read, a party is no user, the currency is no text, or the clock does not last. Only the first and
the third of these belong to the domain, and these two rest on the users and on the recorded
requests alone (`ends_credit_unless_refused`).

All this needs that every reward has a recorded request with its key (`Books.Recorded`), which every
step keeps, whatever may be asked from outside.
-/

namespace RewardLedger

variable {cfg : Config} {p : Permission} {base : Option Store} {s₀ : Store} {b b' : Books} {w : World}

open Op

namespace Books

/-! ## Recorded rewards -/

/-- Every reward has a recorded request with its key. -/
def Recorded (b : Books) : Prop := ∀ r ∈ b.rewards, ∃ q ∈ b.requests, q.key = r.idempotencyKey

namespace Recorded

/-- In empty books every reward is recorded. -/
theorem empty : Recorded {} := fun _ h => absurd h List.not_mem_nil

/-- Changing a reward without its key keeps rewards recorded. -/
theorem withReward (h : b.Recorded) (id : Uuid) {f : Reward → Reward}
    (hf : ∀ r, (f r).idempotencyKey = r.idempotencyKey) : (b.withReward id f).Recorded := by
  intro x hx
  obtain ⟨y, hy, rfl⟩ := List.mem_map.1 hx
  have hkey : (y.changed id f).idempotencyKey = y.idempotencyKey := by
    unfold Reward.changed
    split
    · exact hf y
    · rfl
  rw [hkey]
  exact h y hy

/-- Every step keeps rewards recorded. -/
theorem step (h : b.Recorded) (hs : Step cfg p b b') : b'.Recorded := by
  cases hs with
  | issue | addUser | rename | post | takeBack => exact h
  | confirm => exact h.withReward _ fun _ => rfl
  | pay => exact Recorded.withReward h _ fun _ => rfl
  | reverse => exact Recorded.withReward h _ fun _ => rfl
  | record =>
    intro r hr
    obtain ⟨q, hq, hkey⟩ := h r hr
    exact ⟨q, List.mem_append_left _ hq, hkey⟩
  | @credit _ r _ q hc =>
    intro x hx
    rw [hc.eq] at hx ⊢
    rcases List.mem_append.1 hx with hx | hx
    · obtain ⟨q', hq', hkey⟩ := h x hx
      exact ⟨q', List.mem_append_left _ hq', hkey⟩
    · rw [List.mem_singleton.1 hx]
      exact ⟨q, List.mem_append_right _ List.mem_cons_self, hc.key⟩

/-- Steps keep rewards recorded. -/
theorem steps (h : b.Recorded) (hs : b.Steps cfg p b') : b'.Recorded := by
  induction hs with
  | refl => exact h
  | tail _ hlast ih => exact ih.step hlast

/-- Where a key is free, no reward has it. -/
theorem reward_free (h : b.Recorded) {key : String} (hfree : ∀ q ∈ b.requests, q.key ≠ key) :
    ∀ r ∈ b.rewards, r.idempotencyKey ≠ key := by
  rintro r hr rfl
  obtain ⟨q, hq, hkey⟩ := h r hr
  exact hfree q hq hkey

end Recorded

/-! ## Reasons -/

/-- The party in that role is the first one that is no user. -/
inductive Stranger (b : Books) (referrer referred : Uuid) : String → Uuid → Prop where
  /-- The user to be rewarded is none. -/
  | referrer (h : ¬b.HasUser referrer) : Stranger b referrer referred "Referrer" referrer
  /-- The user who was referred is none. -/
  | referred (h : b.HasUser referrer) (h' : ¬b.HasUser referred) :
    Stranger b referrer referred "Referred user" referred

/-- A request in order with the key, from one identifier to the other, fails while the clock is in
that state. -/
inductive Refuses (cfg : Config) (b : Books) (clock : Clock) (request : Rewards.CreditRequest)
    (key : String) (referrer referred : Uuid) : Failure → Prop where
  /-- The key was used for another request. -/
  | conflict {q : StoredRequest} (hq : q ∈ b.requests) (hkey : q.key = key)
    (hhash : q.requestHash ≠ request.fingerprint) :
    Refuses cfg b clock request key referrer referred (.fault .idempotencyConflict)
  /-- The recorded answer cannot be read. -/
  | unreadable {q : StoredRequest} {e : Failure} (hq : q ∈ b.requests) (hkey : q.key = key)
    (hhash : q.requestHash = request.fingerprint) (hanswer : Rewards.answerOf q.response = .error e) :
    Refuses cfg b clock request key referrer referred e
  /-- A party is no user. -/
  | stranger {role : String} {id : Uuid} (hfree : ∀ q ∈ b.requests, q.key ≠ key)
    (hstranger : b.Stranger referrer referred role id) :
    Refuses cfg b clock request key referrer referred (.fault (.partyNotFound role (.uuid id)))
  /-- The currency is no text. -/
  | currency {e : Failure} (hfree : ∀ q ∈ b.requests, q.key ≠ key)
    (hparties : b.Knows referrer referred) (htext : ∀ currency, request.currency ≠ .str currency) (hfault : e.isFault = false) :
    Refuses cfg b clock request key referrer referred e
  /-- The clock does not last. -/
  | late (hfree : ∀ q ∈ b.requests, q.key ≠ key) (hparties : b.Knows referrer referred)
    (hclock : ¬clock.Lasts cfg.retention 3) :
    Refuses cfg b clock request key referrer referred .outOfRange

/-- The request of two users is granted with that result while the clock moves on: the reward is the
one asked for, the particulars are those of the request, and no instants are shown but some that were
read. -/
structure Grants (b : Books) (clock clock' : Clock) (request : Rewards.CreditRequest)
    (referrer referred : Uuid) (result : CreditResult) : Prop where
  /-- Both parties are users. -/
  parties : b.Knows referrer referred
  /-- The reward is the one asked for. -/
  meets : result.reward.Meets request
  /-- The particulars are those of the request. -/
  carries : result.Carries request
  /-- The instants were read. -/
  readings : ∃ ts : List Instant, clock.Reads ts clock' ∧ result.reward.Shows (· ∈ ts) ∧
    result.entry.createdAt ∈ ts

/-- No request is refused for a violated unique constraint. -/
theorem Refuses.not_isDuplicate {clock : Clock} {request : Rewards.CreditRequest} {key : String}
    {referrer referred : Uuid} {e : Failure}
    (h : b.Refuses cfg clock request key referrer referred e) : e.isDuplicate = false := by
  cases h with
  | unreadable _ _ _ hanswer => exact (noFault_toExcept _).noDuplicate e hanswer
  | currency _ _ _ hfault => exact Failure.isDuplicate_eq_false hfault
  | _ => rfl

end Books

/-! ## Requests that are not in order -/

/-- An amount is refused, unless there is no smallest amount or a number is too long to be written.
-/
theorem Money.positive_error {m : Money} {v : Value} {e : Failure} (h : m.positive v = .error e) :
    (∃ fault, e = .fault fault) ∨ m.quantum = .error e ∨
      e = .numberTooLong ∧ ∃ i, v = .int i ∧ longestNumber < digitCount i.natAbs := by
  have hread : ∀ {e}, readNumber v = .error e → (∃ fault, e = .fault fault) ∨
      e = .numberTooLong ∧ ∃ i, v = .int i ∧ longestNumber < digitCount i.natAbs := by
    intro e he
    unfold readNumber at he
    split at he
    · cases he
      exact .inl ⟨_, rfl⟩
    · cases he
      exact .inl ⟨_, rfl⟩
    · cases he
    · rename_i i
      split at he
      · rename_i hlong
        cases he
        exact .inr ⟨rfl, i, rfl, hlong⟩
      · cases he
    · split at he
      · cases he
      · cases he
        exact .inl ⟨_, rfl⟩
  -- reading, rounding and the sign are checked one after the other
  rcases of_bind_eq_error h with hparse | ⟨d, -, hd⟩
  · rcases of_bind_eq_error hparse with hnumber | ⟨d, -, hround⟩
    · exact (hread hnumber).imp_right .inr
    · split at hround
      · rename_i hfinite
        rcases quantize_error hround hfinite with hquantum | rfl
        · exact .inr (.inl hquantum)
        · exact .inl ⟨_, rfl⟩
      · cases hround
        exact .inl ⟨_, rfl⟩
  · split at hd
    · cases hd
    · cases hd
      exact .inl ⟨_, rfl⟩

/-- A request for a settled amount in a currency that is a text has a fingerprint. -/
theorem Requests.exists_fingerprint (referrer referred : Value) {amount : Decimal}
    (hsettled : cfg.money.Settled amount) (currency : String) :
    ∃ hash, fingerprint cfg referrer referred (.decimal amount) (.str currency) = .ok hash := by
  obtain ⟨value, hparse, -⟩ := exists_of_bind_eq_ok (show _ >>= _ = Except.ok amount from hsettled)
  obtain ⟨text, htext⟩ : ∃ text,
      canonicalText cfg referrer referred (.decimal amount) (.str currency) = .ok text := by
    rw [canonicalText, hparse]
    exact ⟨_, rfl⟩
  rw [fingerprint, htext]
  exact ⟨_, rfl⟩

namespace Rewards

variable {request : CreditRequest} {key : String} {referrer referred : Uuid}

/-- An identifier is that of a user, or it is refused as a party. -/
theorem ends_requireParty_uuid (h : w.Holds cfg base b) (role : String) (id : Uuid) :
    (requireParty role (.uuid id)).Ends w (fun _ w' => w' = w ∧ b.HasUser id)
      fun e w' => w' = w ∧ e = .fault (.partyNotFound role (.uuid id)) ∧ ¬b.HasUser id := by
  have hhashable : (Value.uuid id).hashable = true := rfl
  obtain ⟨found, hget⟩ := h.held.users.exists_get hhashable
  refine ends_bind (ends_query_ok hget ?_)
  cases found with
  | none =>
    refine ends_refuse ⟨rfl, rfl, fun ⟨u, hu, hid⟩ => ?_⟩
    exact h.held.users.of_get_none h.sound hget u hu (congrArg Value.uuid hid.symm)
  | some columns =>
    obtain ⟨u, hu, -, hid⟩ := h.held.users.of_get_some h.sound hget
    exact ends_pure ⟨rfl, u, hu, (Value.uuid.inj hid).symm⟩

/-- A request in order with a free key is carried out only if both parties are users; the only fault
that it can meet is that one is not. -/
theorem ends_creditFresh_between (h : w.Holds cfg (some s₀) b) (hr : request.InOrder cfg key)
    (hreferrer : request.referrer = .uuid referrer) (hreferred : request.referred = .uuid referred)
    (hrewards : ∀ r ∈ b.rewards, r.idempotencyKey ≠ key) (hfree : ∀ q ∈ b.requests, q.key ≠ key) :
    (creditFresh cfg request).Ends w (fun _ _ => b.Knows referrer referred)
      fun e _ => (∃ role id, b.Stranger referrer referred role id ∧
          e = .fault (.partyNotFound role (.uuid id))) ∨
        b.Knows referrer referred ∧ e.isFault = false := by
  rw [creditFresh_eq, hreferrer, hreferred]
  refine ends_bind ((ends_requireParty_uuid h _ _).mono ?_ ?_)
  swap
  · rintro e w' ⟨rfl, rfl, hno⟩
    exact .inl ⟨_, _, .referrer hno, rfl⟩
  rintro _ w' ⟨rfl, huser⟩
  refine ends_bind ((ends_requireParty_uuid h _ _).mono ?_ ?_)
  swap
  · rintro e w' ⟨rfl, rfl, hno⟩
    exact .inl ⟨_, _, .referred huser hno, rfl⟩
  rintro _ w' ⟨rfl, huser'⟩
  obtain ⟨u, hu, rfl⟩ := id huser
  -- between two users no fault is left that the insert or what follows could meet
  have hpayable : w'.Payable request.referrer request.key := by
    rw [hreferrer, hr.key]
    exact h.payable hu hfree
  refine ends_bind ((Ends.and (inTime_insertReward h hr.key hrewards)
    (spares_insertReward request request.referrer request.key w' hpayable)).mono ?_ ?_)
  · rintro row w₁ ⟨-, hw₁⟩
    exact (faultless_finishCredit hr.settled row w₁ hw₁).mono (fun _ _ _ => ⟨huser, huser'⟩)
      fun _ _ he => .inr ⟨⟨huser, huser'⟩, he⟩
  · rintro e w₁ ⟨⟨rfl, -⟩, -⟩
    exact .inr ⟨⟨huser, huser'⟩, rfl⟩

/-- A request in order with a free key is carried out in time, or refused. -/
theorem ends_creditFresh_unless_refused (h : w.Holds cfg (some s₀) b) (hr : request.InOrder cfg key)
    (hreferrer : request.referrer = .uuid referrer) (hreferred : request.referred = .uuid referred)
    (hrewards : ∀ r ∈ b.rewards, r.idempotencyKey ≠ key) (hfree : ∀ q ∈ b.requests, q.key ≠ key) :
    (creditFresh cfg request).Ends w
      (fun result w' => b.Grants w.clock w'.clock request referrer referred result)
      fun e _ => b.Refuses cfg w.clock request key referrer referred e := by
  have hbetween := ends_creditFresh_between h hr hreferrer hreferred hrewards hfree
  by_cases husers : b.Knows referrer referred
  · by_cases htext : ∃ currency, request.currency = .str currency
    · obtain ⟨⟨u, hu, rfl⟩, u', hu', rfl⟩ := id husers
      obtain ⟨currency, hcurrency⟩ := htext
      refine Ends.mono (inTime_creditFresh h hr hcurrency hu hreferrer hu' hreferred hrewards hfree)
        ?_ ?_
      · rintro result w' ⟨ts, -, hts, hmeets, hcarries, hshown⟩
        exact ⟨husers, hmeets, hcarries, ts, hts, hshown⟩
      · rintro e w' ⟨rfl, hlasts⟩
        exact .late hfree husers hlasts
    · have hno : ∀ currency, request.currency ≠ .str currency := fun c hc => htext ⟨c, hc⟩
      refine ((ends_creditFresh_of_not_text h hr.key hno).and hbetween).mono
        (fun _ _ hgood => hgood.1.elim) ?_
      rintro e w' ⟨-, ⟨role, id, hstranger, rfl⟩ | ⟨-, hfault⟩⟩
      · exact .stranger hfree hstranger
      · exact .currency hfree husers hno hfault
  · refine hbetween.mono (fun _ _ hgood => absurd hgood husers) ?_
    rintro e w' (⟨role, id, hstranger, rfl⟩ | ⟨hboth, -⟩)
    · exact .stranger hfree hstranger
    · exact absurd hboth husers

/-! ## Crediting -/

/-- A request in order is answered as before, carried out in time or refused. -/
theorem ends_creditOnce_unless_refused (h : w.Holds cfg none b) (hrecorded : b.Recorded)
    (hr : request.InOrder cfg key) (hreferrer : request.referrer = .uuid referrer)
    (hreferred : request.referred = .uuid referred) :
    (creditOnce cfg request).Ends w
      (fun result w' => result.replayed = false →
        b.Grants w.clock w'.clock request referrer referred result)
      fun e _ => b.Refuses cfg w.clock request key referrer referred e := by
  have henter : w.enter.Holds cfg (some w.store) b := h.enter
  refine ends_creditOnce_of_transaction (ends_transaction ?_)
  rw [hr.key]
  refine ends_bind ((Requests.ends_check henter key request.fingerprint).mono ?_ ?_)
  swap
  · rintro _ w' ⟨-, rfl, q, hq, hkey, hhash⟩
    exact .conflict hq hkey hhash
  rintro standing w' ⟨rfl, hstanding⟩
  cases standing with
  | fresh =>
    have hfresh := ends_creditFresh_unless_refused henter hr hreferrer hreferred
      (hrecorded.reward_free hstanding) hstanding
    rw [World.enter_clock] at hfresh
    refine hfresh.mono (fun result w₁ hgrants log _ => ?_) fun _ _ he => he
    show b.Grants w.clock (World.leave w w₁ true).clock request referrer referred result
    rwa [World.leave_clock]
  | answered response =>
    obtain ⟨q, hq, hkey, hhash, rfl⟩ := hstanding
    refine ends_bind (ends_ofExcept (fun answer _ => ?_) fun e he => .unreadable hq hkey hhash he)
    exact ends_bind (ends_log (ends_pure fun log hfresh => nomatch hfresh))

/-- A request from one identifier to another is answered as before, carried out in time, or fails;
it fails because it is not in order or because it is refused. -/
theorem ends_credit_unless_refused (h : w.Holds cfg none b) (hrecorded : b.Recorded)
    (referrer referred : Uuid) (amount : Value) (key : String) (currency metadata : Value) :
    (credit cfg (.uuid referrer) (.uuid referred) amount (.str key) currency metadata).Ends w
      (fun result w' => ∃ request,
        checkRequest cfg (.uuid referrer) (.uuid referred) amount (.str key) currency metadata =
          .ok request ∧
        (result.replayed = false → b.Grants w.clock w'.clock request referrer referred result))
      fun e _ =>
        checkRequest cfg (.uuid referrer) (.uuid referred) amount (.str key) currency metadata =
          .error e ∨
        ∃ request, checkRequest cfg (.uuid referrer) (.uuid referred) amount (.str key) currency
            metadata = .ok request ∧
          b.Refuses cfg w.clock request key referrer referred e := by
  refine ends_bind (ends_ofExcept (fun request hrequest => ?_) fun e he => .inl he)
  obtain ⟨hr, hreferrer, hreferred, -⟩ := of_checkRequest hrequest
  refine ends_onDuplicate ((ends_creditOnce_unless_refused h hrecorded hr hreferrer hreferred).mono
    (fun _ _ hgrants => ⟨request, hrequest, hgrants⟩) fun e w' he =>
      ⟨fun table index taken hdup => ?_, fun _ => ?_⟩)
  · have hnot := he.not_isDuplicate
    rw [hdup] at hnot
    cases hnot
  · exact .inr ⟨request, hrequest, he⟩

end Rewards

end RewardLedger
