import RewardLedger.Proofs.Ledger.Refusals
import RewardLedger.Proofs.Replay

/-!
# How requests stand

Once a request from one identifier to another has been answered, what it comes to rests on the users
and on the recorded requests alone (`Books.Answers`): it is not in order, its key was used for
another request, a party is no user, or it is recorded with its answer. None of these changes while
no user is added and no other request recorded under a free key (`Books.Answers.later`), and a
request that stands in one of these ways is answered accordingly, without a change of any table
(`Rewards.ends_credit_of_refused`, `Rewards.ends_credit_of_granted`).

Moving rewards on, taking entries back and editing rules leaves users and recorded requests as they
are (`World.Holds.inPlace_run`).
-/

namespace RewardLedger

variable {cfg : Config} {p : Permission} {b b' b'' : Books} {w : World}

/-! ## Staying in place -/

namespace Books

/-- Steps lead from the first books to the second, and users and recorded requests are the same. -/
structure InPlace (cfg : Config) (p : Permission) (b b' : Books) : Prop where
  /-- Steps lead there. -/
  steps : b.Steps cfg p b'
  /-- Users and recorded requests are the same. -/
  same : b.SameStanding b'

namespace InPlace

/-- Without a step everything is the same. -/
theorem refl (b : Books) : b.InPlace cfg p b := ⟨.refl, .refl b⟩

/-- What stays in place twice stays in place. -/
theorem trans (h : b.InPlace cfg p b') (h' : b'.InPlace cfg p b'') : b.InPlace cfg p b'' :=
  ⟨h.steps.trans h'.steps, h.same.trans h'.same⟩

/-- Giving identifiers out changes neither users nor recorded requests. -/
theorem issue {n : Nat} (hn : b.issued ≤ n) : b.InPlace cfg p { b with issued := n } :=
  ⟨.single (.issue hn), rfl, rfl⟩

end InPlace

end Books

namespace Op

variable {α β : Type}

/-- The operation leaves users and recorded requests as they are, whether it succeeds or fails. -/
def StaysInPlace (cfg : Config) (p : Permission) (op : Op α) : Prop :=
  ∀ b w, World.Holds cfg none b w → op.Ends w (fun _ w' => w'.Reached cfg (Books.InPlace cfg p) b)
    fun _ w' => w'.Reached cfg (Books.InPlace cfg p) b

/-- One step in place stays in place, and so does what is undone. -/
theorem StepsInPlace.stays {op : Op α} (h : op.StepsInPlace cfg p) : op.StaysInPlace cfg p :=
  fun b w hw => (h b w hw).mono
    (fun _ _ ⟨b', hs, hsame, hw'⟩ => ⟨b', ⟨.single hs, hsame⟩, hw'⟩)
    fun _ _ ⟨_, hn, hw'⟩ => ⟨_, .issue hn, hw'⟩

/-- What works aside from the books stays in place. -/
theorem Aside.stays {op : Op α} (h : op.Aside cfg) : op.StaysInPlace cfg p :=
  fun b w hw => (h none b w hw.beside).mono (fun _ _ ⟨_, hn, hw'⟩ => ⟨_, .issue hn, hw'⟩)
    fun _ _ ⟨_, hn, hw'⟩ => ⟨_, .issue hn, hw'⟩

/-- Working on the result without looking at the world stays in place. -/
theorem staysInPlace_written {op : Op β} {f : β → Except Failure α} (h : op.StaysInPlace cfg p) :
    (op >>= fun x => ofExcept (f x)).StaysInPlace cfg p := fun b w hw =>
  ends_bind ((h b w hw).mono (fun _ _ hw' => ends_ofExcept (fun _ _ => hw') fun _ _ => hw')
    fun _ _ hw' => hw')

end Op

/-- The call moves a reward on, takes an entry back, edits a rule, sets the clock, or only looks
something up. -/
def Call.IsInPlace : Call → Prop
  | confirmReward _ | payReward _ | reverseReward .. | reverseRewardEntry .. | reverseEntry .. |
    createRule .. | updateRule .. | deactivateRule .. | setClock .. => True
  | call => call.IsReading

/-- Such a call leaves users and recorded requests as they are. -/
theorem Call.staysInPlace {call : Call} (h : call.Allowed p) (hplace : call.IsInPlace) :
    (call.perform cfg).StaysInPlace cfg p := by
  by_cases hreading : call.IsReading
  · exact (reads hreading).aside.stays
  cases call with
  | confirmReward id =>
    exact Op.staysInPlace_written (Op.StepsInPlace.stays fun b w hw => Rewards.ends_confirm hw id)
  | payReward id =>
    exact Op.staysInPlace_written (Op.StepsInPlace.stays fun b w hw => Rewards.ends_pay hw id)
  | reverseReward id reason =>
    obtain ⟨o, rfl⟩ := h
    exact Op.staysInPlace_written (Op.StepsInPlace.stays fun b w hw => Rewards.ends_reverse hw id o)
  | reverseRewardEntry id reason =>
    obtain ⟨o, rfl⟩ := h
    exact Op.staysInPlace_written
      (Op.StepsInPlace.stays fun b w hw => Rewards.ends_reverseEntry hw id o)
  | reverseEntry id reason reward =>
    exact Op.staysInPlace_written (Ledger.stepsInPlace_reverseEntry id reason reward h).stays
  | createRule name conditions actions metadata description active =>
    exact Op.staysInPlace_written (RuleBook.aside_create _ _ _ _ _ _).stays
  | updateRule id changes => exact Op.staysInPlace_written (RuleBook.aside_update id changes).stays
  | deactivateRule id => exact Op.staysInPlace_written (RuleBook.aside_deactivate id).stays
  | setClock now step => exact fun b w hw => ⟨b, .refl b, hw.congr rfl rfl⟩
  | _ => exact absurd hplace hreading

/-- Turns of this kind leave users and recorded requests as they are. -/
theorem World.Holds.inPlace_run (h : w.Holds cfg none b) {turns : List Turn}
    (hturns : ∀ t ∈ turns, t.call.Allowed p ∧ t.call.IsInPlace) :
    (w.run cfg turns).Reached cfg (Books.InPlace cfg p) b := by
  induction turns generalizing w b with
  | nil => exact ⟨b, .refl b, h⟩
  | cons t rest ih =>
    obtain ⟨hallowed, hplace⟩ := hturns t List.mem_cons_self
    have hclock : ({ w with clock := t.clock } : World).Holds cfg none b := h.congr rfl rfl
    obtain ⟨b₁, hb₁, hw₁⟩ : (w.after cfg t).Reached cfg (Books.InPlace cfg p) b :=
      (Call.staysInPlace hallowed hplace b _ hclock).perform_snd
    obtain ⟨b', hb', hw'⟩ := ih hw₁ fun t' ht' => hturns t' (List.mem_cons_of_mem _ ht')
    exact ⟨b', hb₁.trans hb', hw'⟩

/-! ## Standing later -/

namespace Books

variable {referrer referred : Uuid} {key : String}

/-- The second books are later ones as far as requests from one identifier to the other are
concerned: no user has been added, and a request has been recorded only if both are users. -/
structure LaterBetween (referrer referred : Uuid) (b b' : Books) : Prop where
  /-- The users are the same. -/
  users : b'.users = b.users
  /-- Recorded requests stay as they are. -/
  requests : b.requests <+: b'.requests
  /-- Nothing is recorded for strangers. -/
  known : b'.requests = b.requests ∨ b.Knows referrer referred
  /-- Identifiers are given out only. -/
  issued : b.issued ≤ b'.issued

/-- Who is a user rests on the users. -/
theorem knows_congr (h : b'.users = b.users) :
    b'.Knows referrer referred ↔ b.Knows referrer referred := by
  unfold Knows HasUser
  rw [h]

/-- Who is a stranger rests on the users. -/
theorem Stranger.congr {role : String} {id : Uuid} (h : b'.users = b.users)
    (hs : b.Stranger referrer referred role id) : b'.Stranger referrer referred role id := by
  have hsame : ∀ id, b'.HasUser id ↔ b.HasUser id := fun id => by
    unfold HasUser
    rw [h]
  cases hs with
  | referrer hno => exact .referrer fun hu => hno ((hsame _).1 hu)
  | referred hu hno => exact .referred ((hsame _).2 hu) fun hu => hno ((hsame _).1 hu)

/-- Where a party is a stranger, not both are users. -/
theorem Stranger.not_knows {role : String} {id : Uuid} (hs : b.Stranger referrer referred role id) :
    ¬b.Knows referrer referred := by
  rintro ⟨hu, hu'⟩
  cases hs with
  | referrer hno => exact hno hu
  | referred _ hno => exact hno hu'

/-- There is one first stranger at most. -/
theorem Stranger.unique {role role' : String} {id id' : Uuid}
    (h : b.Stranger referrer referred role id) (h' : b.Stranger referrer referred role' id') :
    role = role' ∧ id = id' := by
  cases h with
  | referrer hno =>
    cases h' with
    | referrer => exact ⟨rfl, rfl⟩
    | referred hu _ => exact absurd hu hno
  | referred hu _ =>
    cases h' with
    | referrer hno => exact absurd hu hno
    | referred => exact ⟨rfl, rfl⟩

namespace LaterBetween

/-- The same users and recorded requests, with identifiers given out, are later ones. -/
theorem of_sameStanding (h : b.SameStanding b') (hissued : b.issued ≤ b'.issued) :
    b.LaterBetween referrer referred b' :=
  ⟨h.users, h.requests ▸ List.prefix_refl _, .inl h.requests, hissued⟩

/-- Identifiers that are given out do not matter. -/
theorem issue {n : Nat} (hn : b.issued ≤ n) :
    b.LaterBetween referrer referred { b with issued := n } :=
  .of_sameStanding ⟨rfl, rfl⟩ hn

theorem refl (b : Books) : b.LaterBetween referrer referred b :=
  .of_sameStanding (.refl b) (Nat.le_refl _)

theorem trans (h : b.LaterBetween referrer referred b') (h' : b'.LaterBetween referrer referred b'') :
    b.LaterBetween referrer referred b'' := by
  refine ⟨h'.users.trans h.users, h.requests.trans h'.requests, ?_, Nat.le_trans h.issued h'.issued⟩
  rcases h.known with hsame | hknown
  · rcases h'.known with hsame' | hknown
    · exact .inl (hsame'.trans hsame)
    · exact .inr ((knows_congr h.users).1 hknown)
  · exact .inr hknown

end LaterBetween

/-- What the books answer to a request with the key from one identifier to the other, once it has
been looked at: the reason of a refusal, or the identifiers of the reward and of its entry. -/
inductive Answers (b : Books) (referrer referred : Uuid) (key : String) :
    Except Failure Rewards.CreditRequest → Except Fault (Uuid × Uuid) → Prop where
  /-- The request is not in order. -/
  | disorderly (fault : Fault) :
    Answers b referrer referred key (.error (.fault fault)) (.error fault)
  /-- The key was used for another request. -/
  | conflict {request : Rewards.CreditRequest} {q : StoredRequest} (hq : q ∈ b.requests)
    (hkey : q.key = key) (hhash : q.requestHash ≠ request.fingerprint) :
    Answers b referrer referred key (.ok request) (.error .idempotencyConflict)
  /-- A party is no user. -/
  | stranger {request : Rewards.CreditRequest} {role : String} {id : Uuid}
    (hfree : ∀ q ∈ b.requests, q.key ≠ key) (hstranger : b.Stranger referrer referred role id) :
    Answers b referrer referred key (.ok request) (.error (.partyNotFound role (.uuid id)))
  /-- The request is recorded with its answer. -/
  | recorded {request : Rewards.CreditRequest} {q : StoredRequest} {answer : CreditResult}
    (hq : q ∈ b.requests) (hkey : q.key = key) (hhash : q.requestHash = request.fingerprint)
    (hanswer : Rewards.answerOf q.response = .ok answer) :
    Answers b referrer referred key (.ok request) (.ok (answer.reward.id, answer.entry.id))

/-- Where a request is recorded with its answer, another one with its key is given the same answer
if it has the same fingerprint, and is in conflict with it otherwise. -/
theorem Answers.again {request : Rewards.CreditRequest} {ids : Uuid × Uuid}
    (h : b.Answers referrer referred key (.ok request) (.ok ids)) (request' : Rewards.CreditRequest) :
    b.Answers referrer referred key (.ok request') (if request.fingerprint = request'.fingerprint
      then .ok ids else .error .idempotencyConflict) := by
  cases h with
  | recorded hq hkey hhash hanswer =>
    split
    · rename_i hsame
      exact .recorded hq hkey (hhash.trans hsame) hanswer
    · rename_i hother
      exact .conflict hq hkey fun hsame => hother (hhash.symm.trans hsame)

/-- LaterBetween books answer in the same way. -/
theorem Answers.later {check : Except Failure Rewards.CreditRequest}
    {answer : Except Fault (Uuid × Uuid)} (h : b.Answers referrer referred key check answer)
    (hlater : b.LaterBetween referrer referred b') : b'.Answers referrer referred key check answer := by
  cases h with
  | disorderly => exact .disorderly _
  | conflict hq hkey hhash => exact .conflict (hlater.requests.subset hq) hkey hhash
  | recorded hq hkey hhash hanswer =>
    exact .recorded (hlater.requests.subset hq) hkey hhash hanswer
  | stranger hfree hstranger =>
    have hsame := hlater.known.resolve_right hstranger.not_knows
    exact .stranger (hsame ▸ hfree) (hstranger.congr hlater.users)

end Books

/-- No two recorded requests have the same key. -/
theorem World.Holds.eq_of_request_key {base : Option Store} (h : w.Holds cfg base b)
    {q q' : StoredRequest} (hq : q ∈ b.requests) (hq' : q' ∈ b.requests) (hkey : q.key = q'.key) :
    q = q' := by
  have hnodup : (b.requests.map Stored.keyOf).Nodup := by
    rw [List.Nodup, List.pairwise_map]
    exact h.held.requests.pairwise_keyOf h.sound
  exact List.inj_on_of_nodup_map hnodup hq hq' (congrArg Value.str hkey)

/-! ## Crediting -/

/-- A request that was granted stands answered. The identifiers that were given out must have 128
bits, and the instants of a new answer must exist. -/
theorem World.Holds.answers_of_credit (h : w.Holds cfg none b') {request : Rewards.CreditRequest}
    {result : CreditResult} (hcomes : b.CreditOutcome cfg request result b') {key : String}
    (hkey : request.key = .str key) (hissued : w.issued < 2 ^ 128)
    (hcontext : cfg.money.context.greatest ≤ Decimal.greatestExponent)
    (hinstants : result.replayed = false → ∀ t ∈ result.instants, t.Valid) (referrer referred : Uuid) :
    b'.Answers referrer referred key (.ok request) (.ok (result.reward.id, result.entry.id)) := by
  obtain ⟨q, hq, hqkey, hqhash, answer, hanswer, hreward, hentry, -⟩ :=
    h.exists_readable hcomes hissued hcontext hinstants
  rw [← hreward, ← hentry]
  exact .recorded hq (Value.str.inj (hqkey.symm.trans hkey)) hqhash hanswer

namespace Rewards

variable {referrer referred : Uuid} {amount : Value} {key : String} {currency metadata : Value}

/-- A request that is answered stands in the way in which it was answered, in later books. The
identifiers that were given out must have 128 bits, and the instants of a new answer must exist. -/
theorem ends_credit_answered (h : w.Holds cfg none b) (hrecorded : b.Recorded)
    (hcontext : cfg.money.context.greatest ≤ Decimal.greatestExponent) :
    (credit cfg (.uuid referrer) (.uuid referred) amount (.str key) currency metadata).Ends w
      (fun result w' => ∃ b', w'.Holds cfg none b' ∧ b'.Recorded ∧ b.LaterBetween referrer referred b' ∧
        (w'.issued < 2 ^ 128 → (result.replayed = false → ∀ t ∈ result.instants, t.Valid) →
          b'.Answers referrer referred key
            (checkRequest cfg (.uuid referrer) (.uuid referred) amount (.str key) currency metadata)
            (.ok (result.reward.id, result.entry.id))))
      fun e w' => e.isDuplicate = false ∧
        ∃ b', w'.Holds cfg none b' ∧ b'.Recorded ∧ b.LaterBetween referrer referred b' ∧
          ∀ fault, e = .fault fault → b'.Answers referrer referred key
            (checkRequest cfg (.uuid referrer) (.uuid referred) amount (.str key) currency metadata)
            (.error fault) := by
  refine ((ends_credit h hrecorded _ _ _ _ _ _).and
    (ends_credit_unless_refused h hrecorded referrer referred amount key currency metadata)).mono
      ?_ ?_
  · rintro result w' ⟨⟨request, b', hcheck, hw', hcomes⟩, _, -, hgrants⟩
    -- a credit has one answer, which is recorded or was
    have hkey : request.key = .str key := (of_checkRequest hcheck).1.key
    have hsteps := hcomes.steps (p := .full)
    refine ⟨b', hw', hrecorded.steps hsteps, ?_, fun hissued hinstants => ?_⟩
    · cases hcomes with
      | credited hc =>
        refine ⟨by rw [hc.eq], hsteps.requests_prefix, .inr (hgrants rfl).parties, hsteps.issued_le⟩
      | replayed => exact .refl b
    · rw [hcheck]
      exact hw'.answers_of_credit hcomes hkey hissued hcontext hinstants referrer referred
  · rintro e w' ⟨⟨⟨n, hn, hw'⟩, hduplicate⟩, hreason⟩
    have hlater : b.LaterBetween referrer referred { b with issued := n } := .issue hn
    refine ⟨hduplicate, _, hw', hrecorded, hlater, ?_⟩
    rintro fault rfl
    refine Books.Answers.later (b := b) ?_ hlater
    -- a refusal has one of the reasons that the books give for it
    rcases hreason with hcheck | ⟨request, hcheck, hrefused⟩
    · rw [hcheck]
      exact .disorderly fault
    · rw [hcheck]
      cases hrefused with
      | conflict hq hkey hhash => exact .conflict hq hkey hhash
      | stranger hfree hstranger => exact .stranger hfree hstranger
      | unreadable _ _ _ hanswer =>
        have hfault := noFault_toExcept _ _ hanswer
        cases hfault
      | currency _ _ _ hfault => cases hfault

end Rewards

namespace Books.Answers

variable {referrer referred : Uuid} {key : String} {request : Rewards.CreditRequest} {fault : Fault}

/-- A request that stands refused is not granted. -/
theorem not_creditOutcome (h : w.Holds cfg none b)
    (hanswers : b.Answers referrer referred key (.ok request) (.error fault))
    (hkey : request.key = .str key) {result : CreditResult}
    (hcomes : b.CreditOutcome cfg request result b')
    (hknown : result.replayed = false → b.Knows referrer referred) : False := by
  cases hcomes with
  | credited hc hrkey _ =>
    cases hanswers with
    | conflict hq hqkey _ =>
      exact hc.requestFree _ hq (hqkey.trans (Value.str.inj (hkey.symm.trans hrkey)))
    | stranger _ hstranger => exact hstranger.not_knows (hknown rfl)
  | replayed hq hqkey hqhash _ =>
    have hqkey := Value.str.inj (hqkey.symm.trans hkey)
    cases hanswers with
    | conflict hq' hqkey' hhash =>
      obtain rfl := h.eq_of_request_key hq hq' (hqkey.trans hqkey'.symm)
      exact hhash hqhash
    | stranger hfree _ => exact hfree _ hq hqkey

/-- A request that stands refused is refused for the reason that it stands refused for. -/
theorem eq_of_refuses (h : w.Holds cfg none b)
    (hanswers : b.Answers referrer referred key (.ok request) (.error fault)) {clock : Clock}
    {e : Failure} (hrefused : b.Refuses cfg clock request key referrer referred e) :
    e = .fault fault := by
  cases hanswers with
  | conflict hq hqkey hhash =>
    cases hrefused with
    | conflict => rfl
    | unreadable hq' hqkey' hhash' _ =>
      obtain rfl := h.eq_of_request_key hq hq' (hqkey.trans hqkey'.symm)
      exact absurd hhash' hhash
    | stranger hfree _ => exact absurd hqkey (hfree _ hq)
    | currency hfree _ _ _ => exact absurd hqkey (hfree _ hq)
    | late hfree _ _ => exact absurd hqkey (hfree _ hq)
  | stranger hfree hstranger =>
    cases hrefused with
    | conflict hq hqkey _ => exact absurd hqkey (hfree _ hq)
    | unreadable hq hqkey _ _ => exact absurd hqkey (hfree _ hq)
    | stranger _ hstranger' =>
      obtain ⟨rfl, rfl⟩ := hstranger.unique hstranger'
      rfl
    | currency _ hknown _ _ => exact absurd hknown hstranger.not_knows
    | late _ hknown _ => exact absurd hknown hstranger.not_knows

end Books.Answers

namespace Rewards

variable {referrer referred : Uuid} {amount : Value} {key : String} {currency metadata : Value}

/-- A request in order between two users, in a currency that is a text, is carried out under a free
key as long as the clock lasts. -/
theorem ends_credit_of_free (h : w.Holds cfg none b) (hrecorded : b.Recorded) {request : CreditRequest}
    (hcheck : checkRequest cfg (.uuid referrer) (.uuid referred) amount (.str key) currency metadata =
      .ok request)
    {text : String} (htext : request.currency = .str text) (hparties : b.Knows referrer referred)
    (hfree : ∀ q ∈ b.requests, q.key ≠ key) (hlasts : w.clock.Lasts cfg.retention 3) :
    (credit cfg (.uuid referrer) (.uuid referred) amount (.str key) currency metadata).Ends w
      (fun result w' => result.replayed = false ∧
        b.Grants w.clock w'.clock request referrer referred result ∧
        ∃ b', w'.Holds cfg none b' ∧ b.CreditOutcome cfg request result b')
      fun _ _ => False := by
  have hkey := (of_checkRequest hcheck).1.key
  refine ((ends_credit h hrecorded _ _ _ _ _ _).and
    (ends_credit_unless_refused h hrecorded referrer referred amount key currency metadata)).mono
      ?_ ?_
  · rintro result w' ⟨⟨_, b', hcheck', hw', hcomes⟩, _, hcheck'', hgrants⟩
    obtain rfl := Except.ok.inj (hcheck'.symm.trans hcheck)
    obtain rfl := Except.ok.inj (hcheck''.symm.trans hcheck)
    have hfresh : result.replayed = false := by
      cases hcomes with
      | credited => rfl
      | replayed hq hqkey => exact absurd (Value.str.inj (hqkey.symm.trans hkey)) (hfree _ hq)
    exact ⟨hfresh, hgrants hfresh, b', hw', hcomes⟩
  · rintro e w' ⟨-, hfail | ⟨_, hcheck', hrefused⟩⟩
    · rw [hcheck] at hfail
      cases hfail
    · obtain rfl := Except.ok.inj (hcheck'.symm.trans hcheck)
      -- each reason for a refusal goes against one of the assumptions
      cases hrefused with
      | conflict hq hqkey _ => exact hfree _ hq hqkey
      | unreadable hq hqkey _ _ => exact hfree _ hq hqkey
      | stranger _ hstranger => exact hstranger.not_knows hparties
      | currency _ _ hno _ => exact hno _ htext
      | late _ _ hclock => exact hclock hlasts

/-- A request that stands refused is refused, and no table is changed. -/
theorem ends_credit_of_refused (h : w.Holds cfg none b) (hrecorded : b.Recorded) {fault : Fault}
    (hanswers : b.Answers referrer referred key
      (checkRequest cfg (.uuid referrer) (.uuid referred) amount (.str key) currency metadata)
      (.error fault)) :
    (credit cfg (.uuid referrer) (.uuid referred) amount (.str key) currency metadata).Ends w
      (fun _ _ => False)
      fun e w' => e = .fault fault ∧ w'.HoldsBeside cfg none b ∧ w'.store.tables = w.store.tables := by
  refine ((ends_credit h hrecorded _ _ _ _ _ _).and
    ((ends_credit_unless_refused h hrecorded referrer referred amount key currency metadata).and
      (spares_credit _ _ _ _ _ _ w h.creditable))).mono ?_ ?_
  · rintro result w' ⟨⟨request, b', hcheck, -, hcomes⟩, ⟨_, -, hgrants⟩, -⟩
    rw [hcheck] at hanswers
    exact hanswers.not_creditOutcome h (of_checkRequest hcheck).1.key hcomes fun hfresh =>
      (hgrants hfresh).parties
  · rintro e w' ⟨⟨hundone, -⟩, hreason, hspared⟩
    have he : e = .fault fault := by
      rcases hreason with hcheck | ⟨request, hcheck, hrefused⟩
      · rw [hcheck] at hanswers
        cases hanswers
        rfl
      · rw [hcheck] at hanswers
        exact hanswers.eq_of_refuses h hrefused
    exact ⟨he, hundone, (hspared (he ▸ rfl)).tables⟩

/-- A request that stands answered is given its answer, marked as replayed, and no table is changed.
-/
theorem ends_credit_of_granted (h : w.Holds cfg none b) (hrecorded : b.Recorded) {ids : Uuid × Uuid}
    (hanswers : b.Answers referrer referred key
      (checkRequest cfg (.uuid referrer) (.uuid referred) amount (.str key) currency metadata)
      (.ok ids)) :
    (credit cfg (.uuid referrer) (.uuid referred) amount (.str key) currency metadata).Ends w
      (fun result w' => result.replayed = true ∧ ids = (result.reward.id, result.entry.id) ∧
        w'.HoldsBeside cfg none b ∧ w'.store.tables = w.store.tables)
      fun _ _ => False := by
  generalize hcheck : checkRequest cfg (.uuid referrer) (.uuid referred) amount (.str key) currency
    metadata = check at hanswers
  cases hanswers with
  | recorded hq hqkey hqhash hanswer =>
    have hkey := (of_checkRequest hcheck).1.key
    refine ((ends_credit h hrecorded _ _ _ _ _ _).and (ends_credit_of_recorded h hcheck hq
      (hqkey ▸ hkey) hqhash hanswer)).mono ?_ fun _ _ hbad => hbad.2
    rintro result w' ⟨⟨request, b', -, hw', hcomes⟩, hresult, hstore⟩
    -- what is marked as replayed leaves the books as they were
    have hreplayed : result.replayed = true := congrArg CreditResult.replayed hresult
    refine ⟨hreplayed, by rw [hresult], ?_, by rw [hstore]⟩
    cases hcomes with
    | credited => cases hreplayed
    | replayed => exact hw'.beside

end Rewards

end RewardLedger
