import RewardLedger.Proofs.AppendOnly
import RewardLedger.Proofs.CreditCall
import RewardLedger.Proofs.Ledger.Answers

/-!
# Credits that are asked for again

A request for a credit that succeeded is recorded with its answer, and records stay as they are. So
when the same is requested under the same key, after whatever else was called, the answer is given
again and the store is left as it is (`World.credit_replayed_of_run`). When something else is requested
under the key, it is refused (`Rewards.ends_credit_of_conflict`).

The answer is kept in JSON. It comes back as it was written, with one exception: an instant whose
offset is less than a minute but not zero is written with the offset `+00:00` or `-00:00` and comes
back with `Z` (`World.createdAt_lost_underOffset`).
-/

namespace RewardLedger

variable {cfg : Config} {b b' : Books} {w w' : World}

open Op

/-! ## A key that is recorded -/

/-- A recorded request is answered as it is recorded if it has the fingerprint, and in conflict with what
is recorded otherwise; either way the store is left as it is. -/
theorem Requests.ends_check_of_recorded {base : Option Store} (h : w.Holds cfg base b)
    {q : StoredRequest} (hq : q ∈ b.requests) (hash : String) :
    (check (.str q.key) (.str hash)).Ends w
      (fun standing w' => q.requestHash = hash ∧ standing = .answered q.response ∧ w' = w)
      fun e w' => q.requestHash ≠ hash ∧ e = .fault .idempotencyConflict ∧ w.Beside w' := by
  obtain ⟨columns, hget, hrow⟩ := h.held.requests.get_keyOf h.sound hq
  have hget : w.store.get requestsTable (.str q.key) = .ok (some columns) := hget
  have hrow : q.IsRow columns := hrow
  have hsame : columns.columnIs "request_hash" (.str hash) =
      .ok ((Value.str q.requestHash).sameKey (.str hash)) := by
    rw [Fields.columnIs, Fields.column, hrow.requestHash]
    exact Value.equalTo_str _ _
  have hresponse : columns.column "response" = .ok q.response := by
    rw [Fields.column, hrow.response]
  refine ends_bind (ends_query_ok hget (ends_bind (ends_ofExcept_ok hsame ?_)))
  by_cases heq : q.requestHash = hash
  · rw [Value.sameKey_str_iff.2 (congrArg Value.str heq.symm)]
    exact ends_bind (ends_ofExcept_ok hresponse (ends_pure ⟨heq, rfl, rfl⟩))
  · have hother : (Value.str q.requestHash).sameKey (.str hash) = false :=
      Bool.eq_false_iff.2 fun hsame => heq (Value.str.inj (Value.sameKey_str_iff.1 hsame)).symm
    rw [hother]
    exact ends_bind (ends_log (ends_refuse ⟨heq, rfl, rfl, Nat.le_refl _, [], .none _⟩))

namespace Rewards

/-- A request that differs from one in order in how the amount is given, in how the currency is named
and in its particulars is in order, and has the same key and fingerprint. -/
theorem checkRequest_of_same {referrer referred amount amount' key currency currency' metadata
    metadata' : Value} {request : CreditRequest}
    (h : checkRequest cfg referrer referred amount key currency metadata = .ok request)
    (hamount : cfg.money.positive amount' = cfg.money.positive amount)
    (hcurrency : cfg.currencyOf currency' = cfg.currencyOf currency)
    (hmetadata : ∃ m, checkMetadata metadata' = .ok m) :
    ∃ m, checkRequest cfg referrer referred amount' key currency' metadata' =
      .ok { request with metadata := m } := by
  obtain ⟨m, hm⟩ := hmetadata
  refine ⟨m, ?_⟩
  obtain ⟨same, hsame, h⟩ := exists_of_bind_eq_ok h
  cases same with
  | true => cases h
  | false =>
    obtain ⟨value, hvalue, h⟩ := exists_of_bind_eq_ok h
    obtain ⟨_, -, h⟩ := exists_of_bind_eq_ok h
    obtain ⟨fingerprint, hfingerprint, h⟩ := exists_of_bind_eq_ok h
    cases h
    simp only [checkRequest, hsame, hamount, hvalue, hcurrency, hm, hfingerprint, bind, Except.bind]
    rfl

/-- A request in order that is recorded with an answer that can be read is given that answer, and the
store is left as it is. -/
theorem ends_creditOnce_of_recorded (h : w.Holds cfg none b) {request : CreditRequest}
    {q : StoredRequest} (hq : q ∈ b.requests) (hkey : request.key = .str q.key)
    (hhash : q.requestHash = request.fingerprint) {answer : CreditResult}
    (hanswer : answerOf q.response = .ok answer) :
    (creditOnce cfg request).Ends w
      (fun result w' => result = { answer with replayed := true } ∧ w'.store = w.store)
      fun _ _ => False := by
  have henter : w.enter.Holds cfg (some w.store) b := h.enter
  -- nothing is changed inside the transaction, so keeping it leads back to the store before it
  have hkept : ∀ log, (World.leave w { w.enter with log } true).store = w.store := by
    intro log
    rw [World.leave_kept h.within]
    exact World.committed_enter h.within
  unfold creditOnce
  rw [hkey]
  refine ends_bind (ends_transaction (ends_bind ?_))
  refine (Requests.ends_check_of_recorded henter hq request.fingerprint).mono ?_
    fun _ _ hbad => hbad.1 hhash
  rintro standing w' ⟨-, rfl, rfl⟩
  refine ends_bind (ends_ofExcept_ok hanswer ?_)
  exact ends_bind (ends_log (ends_pure (ends_pure ⟨rfl, hkept _⟩)))

/-- A request for a credit that is recorded with an answer that can be read is given that answer, and
the store is left as it is. -/
theorem ends_credit_of_recorded (h : w.Holds cfg none b)
    {referrer referred amount key currency metadata : Value} {request : CreditRequest}
    (hcheck : checkRequest cfg referrer referred amount key currency metadata = .ok request)
    {q : StoredRequest} (hq : q ∈ b.requests) (hkey : request.key = .str q.key)
    (hhash : q.requestHash = request.fingerprint) {answer : CreditResult}
    (hanswer : answerOf q.response = .ok answer) :
    (credit cfg referrer referred amount key currency metadata).Ends w
      (fun result w' => result = { answer with replayed := true } ∧ w'.store = w.store)
      fun _ _ => False :=
  ends_bind (ends_ofExcept_ok hcheck (ends_onDuplicate
    ((ends_creditOnce_of_recorded h hq hkey hhash hanswer).mono (fun _ _ hgood => hgood)
      fun _ _ hbad => hbad.elim)))

end Rewards

/-! ## The recorded answer -/

/-- The reward and the entry that were added for a request are portable, as long as identifiers have
128 bits, unless an instant that they show does not exist. -/
theorem World.Holds.portable_of_credited (h : w.Holds cfg none b') {r : Reward} {e : LedgerEntry}
    {q : StoredRequest} (hc : b.Credited cfg b' r e q) (hissued : w.issued < 2 ^ 128)
    (hcontext : cfg.money.context.greatest ≤ Decimal.greatestExponent)
    (hinstants : ∀ t ∈ (CreditResult.mk r e false).instants, t.Valid) :
    r.Portable ∧ e.Portable := by
  -- all identifiers in the answer have been given out, so they are below what has been given out
  have hgiven : ∀ {u : Uuid}, u.value ≤ b'.issued → u.Portable := fun hu =>
    Nat.lt_of_le_of_lt (h.issued ▸ hu) hissued
  have husers : ∀ u ∈ b.users, u.id.Portable := fun u hu => by
    refine hgiven (h.proper.users u ?_)
    rw [hc.eq]
    exact hu
  have hreferrer : e.userId.Portable := by
    obtain ⟨u, hu, hid⟩ := hc.can.user
    exact hid ▸ husers u hu
  have hreferred : r.referredId.Portable := by
    obtain ⟨u, hu, hid⟩ := hc.party
    exact hid ▸ husers u hu
  have hamount : r.amount.Portable := by
    obtain ⟨c, t, heq, hrange⟩ := hc.settled.inExponentRange hcontext
    exact ⟨false, c, t, heq, hrange⟩
  -- what was written to the tables was read from requests, so it is an object
  have hreward : r.metadata.IsObject := by
    obtain ⟨columns, -, hrow⟩ := h.held.rewards.get_keyOf h.sound (r := r) (by
      rw [hc.eq]
      exact List.mem_append_right _ List.mem_cons_self)
    exact Reward.IsRow.isObject hrow
  have hentry : e.metadata.IsObject := by
    obtain ⟨columns, -, hrow⟩ := h.held.entries.get_keyOf h.sound (r := e) (by
      rw [hc.eq]
      exact List.mem_append_right _ List.mem_cons_self)
    exact LedgerEntry.IsRow.isObject hrow
  obtain ⟨hshown, hentryShown⟩ := CreditResult.forall_instants.1 hinstants
  refine ⟨⟨hgiven hc.le, hc.userId ▸ hreferrer, hreferred, hamount, hreward, hshown⟩,
    ⟨hgiven hc.entryLe, hreferrer, fun u hu => ?_, hc.amount ▸ hamount, fun u hu => ?_, hentry,
      hentryShown⟩⟩
  · rw [hc.rewardId] at hu
    exact Option.some.inj hu ▸ hgiven hc.le
  · rw [hc.reversalOf] at hu
    cases hu

/-- After a request for a credit succeeded, it is recorded with an answer that names the reward and the
entry that were answered, and that is written in the same way if the zones are kept. -/
theorem World.Holds.exists_readable (h : w.Holds cfg none b') {request : Rewards.CreditRequest}
    {result : CreditResult} (hcomes : b.CreditOutcome cfg request result b')
    (hissued : w.issued < 2 ^ 128)
    (hcontext : cfg.money.context.greatest ≤ Decimal.greatestExponent)
    (hinstants : result.replayed = false → ∀ t ∈ result.instants, t.Valid) :
    ∃ q ∈ b'.requests, request.key = .str q.key ∧ q.requestHash = request.fingerprint ∧
      ∃ answer, Rewards.answerOf q.response = .ok answer ∧ answer.reward.id = result.reward.id ∧
        answer.entry.id = result.entry.id ∧
        ((result.replayed = false → ∀ t ∈ result.instants, t.KeepsZone) →
          CreditResult.json { answer with replayed := result.replayed } = result.json) := by
  cases hcomes with
  | @credited _ r e q hc hkey hhash =>
    obtain ⟨hreward, hentry⟩ := h.portable_of_credited hc hissued hcontext (hinstants rfl)
    obtain ⟨answer, hread, hreplayed, hrewardId, hentryId, hjson⟩ :=
      CreditResult.exists_read hreward hentry hc.response
    refine ⟨q, ?_, hc.key ▸ hkey, hhash, answer, ?_, hrewardId, hentryId, fun hzones => ?_⟩
    · rw [hc.eq]
      exact List.mem_append_right _ List.mem_cons_self
    · rw [Rewards.answerOf, hread]
      rfl
    · obtain ⟨reward, entry, replayed⟩ := answer
      obtain rfl : replayed = false := hreplayed
      exact (hjson (hzones rfl)).trans hc.response.symm
  | @replayed q answer hq hkey hhash hanswer =>
    exact ⟨q, hq, hkey, hhash, answer, hanswer, rfl, rfl, fun _ => rfl⟩

/-- After a request for a credit succeeded, it is recorded with an answer that is written in the same
way as what was answered. -/
theorem World.Holds.exists_answer (h : w.Holds cfg none b') {request : Rewards.CreditRequest}
    {result : CreditResult} (hcomes : b.CreditOutcome cfg request result b')
    (hissued : w.issued < 2 ^ 128)
    (hcontext : cfg.money.context.greatest ≤ Decimal.greatestExponent)
    (hinstants : result.replayed = false → ∀ t ∈ result.instants, t.Portable) :
    ∃ q ∈ b'.requests, request.key = .str q.key ∧ q.requestHash = request.fingerprint ∧
      ∃ answer, Rewards.answerOf q.response = .ok answer ∧
        CreditResult.json { answer with replayed := result.replayed } = result.json := by
  obtain ⟨q, hq, hkey, hhash, answer, hanswer, -, -, hjson⟩ :=
    h.exists_readable hcomes hissued hcontext fun hfresh t ht => (hinstants hfresh t ht).1
  exact ⟨q, hq, hkey, hhash, answer, hanswer, hjson fun hfresh t ht => (hinstants hfresh t ht).2⟩

/-- Answers that are written in the same way show the same text for when their rewards were
credited. -/
theorem CreditResult.zuluText_of_json_eq {r r' : CreditResult} {v : Value} (h : r.json = .ok v)
    (h' : r'.json = .ok v) : r.reward.createdAt.zuluText = r'.reward.createdAt.zuluText := by
  obtain ⟨reward, hreward, h⟩ := exists_of_bind_eq_ok h
  obtain ⟨entry, -, h⟩ := exists_of_bind_eq_ok h
  obtain ⟨reward', hreward', h'⟩ := exists_of_bind_eq_ok h'
  obtain ⟨entry', -, h'⟩ := exists_of_bind_eq_ok h'
  obtain ⟨metadata, -, hreward⟩ := exists_of_bind_eq_ok hreward
  obtain ⟨metadata', -, hreward'⟩ := exists_of_bind_eq_ok hreward'
  cases hreward
  cases hreward'
  have heq := Except.ok.inj (h.trans h'.symm)
  simp only [Value.object.injEq, List.cons.injEq, Prod.mk.injEq, Instant.json, Value.str.injEq] at heq
  tauto

/-! ## Over a run -/

namespace World

/-- A credit that is asked for again is answered as before. Whatever was called before the first
request that succeeds and whatever is called after it, and whatever clocks are read: a request under
the same key, with the same parties, the same amount and the same currency and with any particulars
that are accepted succeeds, its answer is written as the first one but for being marked as replayed,
and the store is left as it is. The instants that the first answer shows must exist and keep their
zone, unless it is itself an earlier answer given again; and no more identifiers may have been given
out than there are. -/
theorem credit_replayed_of_run (hw : w.IsNew)
    (hcontext : cfg.money.context.greatest ≤ Decimal.greatestExponent) {earlier later : List Turn}
    (hearlier : ∀ t ∈ earlier, t.call.Allowed .full) (hlater : ∀ t ∈ later, t.call.Allowed .full)
    {first again : CreditCall} {key : String} {result : CreditResult} {w₁ : World}
    {clock clock' : Clock} (hfirst : first.world = { w.run cfg earlier with clock })
    (hkey : first.key = .str key) (houtcome : first.outcome cfg = (.ok result, w₁))
    (hissued : w₁.issued < 2 ^ 128)
    (hinstants : result.replayed = false → ∀ t ∈ result.instants, t.Portable)
    (hagain : again.world = { w₁.run cfg later with clock := clock' })
    (hsame : again.key = first.key ∧ again.referrer = first.referrer ∧
      again.referred = first.referred)
    (hamount : cfg.money.positive again.amount = cfg.money.positive first.amount)
    (hcurrency : cfg.currencyOf again.currency = cfg.currencyOf first.currency)
    (hmetadata : ∃ m, Rewards.checkMetadata again.metadata = .ok m) :
    ∃ result' w', again.outcome cfg = (.ok result', w') ∧ result'.replayed = true ∧
      CreditResult.json { result' with replayed := result.replayed } = result.json ∧
      w'.store = again.world.store := by
  obtain ⟨b, -, hb⟩ := hw.holds.run hearlier
  have hworld : first.world.Holds cfg none b := hfirst ▸ hb.congr rfl rfl
  have hends := Rewards.ends_credit_retried hworld first.referrer first.referred first.amount key
    first.currency first.metadata
  rw [← hkey] at hends
  obtain ⟨request, n, b₁, hcheck, -, hw₁, hcomes⟩ := hends.good_of_ok houtcome
  obtain ⟨q, hq, hqkey, hqhash, answer, hanswer, hjson⟩ :=
    hw₁.exists_answer hcomes hissued hcontext hinstants
  -- recorded requests stay as they are, so the answer is still there
  obtain ⟨b₂, hsteps, hb₂⟩ := hw₁.run hlater
  have hworld₂ : again.world.Holds cfg none b₂ := hagain ▸ hb₂.congr rfl rfl
  obtain ⟨m, hcheck'⟩ := Rewards.checkRequest_of_same hcheck hamount hcurrency hmetadata
  have hreplay := Rewards.ends_credit_of_recorded hworld₂ hcheck'
    (hsteps.requests_prefix.subset hq) hqkey hqhash hanswer
  rw [← hsame.1, ← hsame.2.1, ← hsame.2.2] at hreplay
  cases hrun : again.outcome cfg with
  | mk result' w' =>
    cases result' with
    | error e => exact (hreplay.bad_of_error hrun).elim
    | ok result' =>
      obtain ⟨rfl, hstore⟩ := hreplay.good_of_ok hrun
      exact ⟨_, w', rfl, rfl, hjson, hstore⟩

end World

/-- A credit that is asked for again at once is answered with what is read from the JSON of its
answer. -/
theorem CreditCall.outcome_again {c : CreditCall} (hw : c.world.Holds cfg none b) {key : String}
    (hkey : c.key = .str key) {result answer : CreditResult}
    (houtcome : c.outcome cfg = (.ok result, w)) (hfresh : result.replayed = false) {v : Value}
    (hv : result.json = .ok v) (hanswer : Rewards.answerOf v = .ok answer) :
    ∃ w', ({ c with world := w } : CreditCall).outcome cfg =
      (.ok { answer with replayed := true }, w') := by
  have hends := Rewards.ends_credit_retried hw c.referrer c.referred c.amount key c.currency
    c.metadata
  rw [← hkey] at hends
  obtain ⟨request, n, b₁, hcheck, -, hw₁, hcomes⟩ := hends.good_of_ok houtcome
  cases hcomes with
  | replayed => cases hfresh
  | @credited _ r e q hc hqkey hqhash =>
    have hq : q ∈ b₁.requests := by
      rw [hc.eq]
      exact List.mem_append_right _ List.mem_cons_self
    have hread : Rewards.answerOf q.response = .ok answer := by
      rw [← Except.ok.inj (hv.symm.trans hc.response)]
      exact hanswer
    have hagain := Rewards.ends_credit_of_recorded hw₁ hcheck hq (hc.key ▸ hqkey) hqhash hread
    cases hrun : ({ c with world := w } : CreditCall).outcome cfg with
    | mk result' w' =>
      cases result' with
      | error e => exact (hagain.bad_of_error hrun).elim
      | ok result' => exact ⟨w', by rw [(hagain.good_of_ok hrun).1]⟩

/-- Two users are added, while the clock shows that offset. -/
def Turn.twoUsers (offset : Int) : List Turn :=
  let clock : Clock := { now := ⟨0, some offset⟩, step := 1 }
  [⟨clock, .createUser (.str "a@x.org") .null⟩, ⟨clock, .createUser (.str "b@x.org") .null⟩]

/-- Adding two users may be asked for. -/
theorem Turn.allowed_twoUsers (offset : Int) : ∀ t ∈ twoUsers offset, t.call.Allowed .full := by
  intro t ht
  simp only [twoUsers, List.mem_cons, List.not_mem_nil, or_false] at ht
  rcases ht with rfl | rfl
  · exact ⟨none, rfl⟩
  · exact ⟨none, rfl⟩

/-- A credit that is asked for after two users were added, while the clock shows that offset. -/
def CreditCall.underOffset (offset : Int) : CreditCall :=
  let clock : Clock := { now := ⟨0, some offset⟩, step := 1 }
  { world := { (World.fresh clock).run .rupees (Turn.twoUsers offset) with clock }
    referrer := .uuid ⟨1⟩
    referred := .uuid ⟨2⟩
    amount := .str "10.00"
    key := .str "k"
    currency := .null
    metadata := .null }

/-- The same is asked for in the world, with the amount, the currency and the particulars given in
another way. -/
def CreditCall.inOtherWords (c : CreditCall) (world : World) : CreditCall :=
  { c with world, amount := .int 10, currency := .str "INR", metadata := .object [("try", .int 2)] }

/-- The credit that was asked for at Greenwich is answered as before when it is asked for in other
words after its reward was confirmed. -/
theorem World.credit_replayed_inOtherWords :
    ∃ result w₁ result' w', (CreditCall.underOffset 0).outcome .rupees = (.ok result, w₁) ∧
      ((CreditCall.underOffset 0).inOtherWords
        (w₁.run .rupees [⟨w₁.clock, .confirmReward (.uuid ⟨3⟩)⟩])).outcome .rupees =
          (.ok result', w') ∧ result'.replayed = true ∧
      CreditResult.json { result' with replayed := result.replayed } = result.json := by
  have hissued : ((CreditCall.underOffset 0).outcome .rupees).2.issued = 4 := by decide +kernel
  have hinstants : ((CreditCall.underOffset 0).outcome .rupees).1.toOption.map
      CreditResult.instants = some [⟨0, some 0⟩, ⟨1, some 0⟩] := by decide +kernel
  cases houtcome : (CreditCall.underOffset 0).outcome .rupees with
  | mk result w₁ =>
    rw [houtcome] at hissued hinstants
    cases result with
    | error e => cases hinstants
    | ok result =>
      have hinstants : result.instants = [⟨0, some 0⟩, ⟨1, some 0⟩] := Option.some.inj hinstants
      have hportable : ∀ t ∈ result.instants, t.Portable := by
        rw [hinstants]
        intro t ht
        simp only [List.mem_cons, List.not_mem_nil, or_false] at ht
        rcases ht with rfl | rfl
        · exact ⟨⟨by decide, fun o ho => by cases ho; decide⟩, by decide⟩
        · exact ⟨⟨by decide, fun o ho => by cases ho; decide⟩, by decide⟩
      have hlater : ∀ t ∈ ([⟨w₁.clock, .confirmReward (.uuid ⟨3⟩)⟩] : List Turn),
          t.call.Allowed .full := by
        intro t ht
        rw [List.mem_singleton.1 ht]
        trivial
      have hbits : w₁.issued < 2 ^ 128 := by
        rw [hissued]
        decide
      -- ten is read as the same amount as before, and the currency is the one that was taken
      let w₂ := w₁.run .rupees [⟨w₁.clock, .confirmReward (.uuid ⟨3⟩)⟩]
      have hagain : ((CreditCall.underOffset 0).inOtherWords w₂).world =
        { w₂ with clock := w₂.clock } := rfl
      have hamount : Config.rupees.money.positive (.int 10) =
        Config.rupees.money.positive (.str "10.00") := rfl
      obtain ⟨result', w', hagain, hreplayed, hjson, -⟩ := credit_replayed_of_run
        (isNew_fresh { now := ⟨0, some 0⟩, step := 1 }) (by decide) (Turn.allowed_twoUsers 0) hlater
        rfl rfl houtcome hbits (fun _ => hportable) hagain ⟨rfl, rfl, rfl⟩ hamount rfl ⟨_, rfl⟩
      exact ⟨result, w₁, result', w', rfl, hagain, hreplayed, hjson⟩

/-- The credit that was asked for while the clock showed an offset of less than a minute is answered in
another way when it is asked for once more. -/
theorem World.createdAt_lost_underOffset :
    ∃ result w₁ result' w', (CreditCall.underOffset 59).outcome .rupees = (.ok result, w₁) ∧
      ({ CreditCall.underOffset 59 with world := w₁ } : CreditCall).outcome .rupees =
        (.ok result', w') ∧
      CreditResult.json { result' with replayed := result.replayed } ≠ result.json := by
  have hshown : ((CreditCall.underOffset 59).outcome .rupees).1.toOption.map (fun r =>
      (r.replayed, r.reward.createdAt.zuluText, r.json.toOption.bind fun v =>
        (Rewards.answerOf v).toOption.map fun a => a.reward.createdAt.zuluText)) =
      some (false, "0001-01-01T00:00:59+00:00", some "0001-01-01T00:00:59Z") := by decide +kernel
  obtain ⟨b, -, hb⟩ :=
    (isNew_fresh { now := ⟨0, some 59⟩, step := 1 }).holds.run (Turn.allowed_twoUsers 59)
  have hworld : (CreditCall.underOffset 59).world.Holds .rupees none b := hb.congr rfl rfl
  cases hfirst : (CreditCall.underOffset 59).outcome .rupees with
  | mk result w₁ =>
    rw [hfirst] at hshown
    cases result with
    | error e => cases hshown
    | ok result =>
      obtain ⟨hfresh, hshown⟩ := Prod.mk.inj (Option.some.inj hshown)
      obtain ⟨hshown, hread⟩ := Prod.mk.inj hshown
      cases hv : result.json with
      | error e =>
        rw [hv] at hread
        cases hread
      | ok v =>
        rw [hv] at hread
        obtain ⟨answer, hanswer, hlost⟩ := Option.map_eq_some_iff.1 hread
        cases hvalid : Rewards.answerOf v with
        | error e =>
          rw [hvalid] at hanswer
          cases hanswer
        | ok answer' =>
          rw [hvalid] at hanswer
          obtain rfl : answer' = answer := Option.some.inj hanswer
          obtain ⟨w', hagain⟩ := CreditCall.outcome_again hworld rfl hfirst hfresh hv hvalid
          refine ⟨result, w₁, _, w', rfl, hagain, fun hjson => ?_⟩
          -- the same JSON would show the same text
          have htext := CreditResult.zuluText_of_json_eq (hjson.trans hv) hv
          rw [hshown] at htext
          exact absurd (hlost.symm.trans htext) (by decide)

end RewardLedger
