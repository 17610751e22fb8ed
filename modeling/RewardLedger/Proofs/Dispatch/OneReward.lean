import RewardLedger.Proofs.Dispatch.Again

/-!
# One reward for an event

The key under which the reward of an action is requested tells the version of the rule and the
event, but not which action of the version it is (`Dispatch.rewardKey_of_sameVersion`). So however
many actions of a version ask for rewards, only the first of them is paid when they are dispatched
for an event that is new. Each further one is given the reward of the first again if it asks for the
same amount in the same currency, and is taken for a misuse of the key otherwise
(`World.paysFirst_of_run`).
-/

namespace RewardLedger

variable {cfg : Config} {b b' : Books} {w : World} {referrer referred : Uuid} {event : String}

open Op

/-! ## Actions of a version -/

/-- Both actions are of the same version of a rule. -/
structure TriggeredAction.SameVersion (t t' : TriggeredAction) : Prop where
  /-- The version has the same identifier. -/
  ruleId : t'.ruleId = t.ruleId
  /-- The version has the same number. -/
  ruleVersion : t'.ruleVersion = t.ruleVersion

/-- The actions that a stored version asks for are of the same version. -/
theorem StoredRule.sameVersion_triggeredBy (r : StoredRule) {t t' : TriggeredAction}
    (ht : t ∈ RuleEngine.triggeredBy r.toRule) (ht' : t' ∈ RuleEngine.triggeredBy r.toRule) :
    t.SameVersion t' := by
  obtain ⟨action, -, rfl⟩ := List.mem_map.1 ht
  obtain ⟨action', -, rfl⟩ := List.mem_map.1 ht'
  exact ⟨rfl, rfl⟩

/-- The action asks for a reward that can be paid: the amount is positive and can be represented,
the currency is a text or left out, and the type of the reward can be written in JSON. -/
structure TriggeredAction.AsksFor (cfg : Config) (t : TriggeredAction) (amount : Decimal)
    (currency : String) : Prop where
  /-- Rewards are credited for the action. -/
  type : t.action.type = Action.createReward
  /-- The amount is positive and can be represented. -/
  amount : ∃ given, Fields.find? t.action.params "amount" = some given ∧
    cfg.money.positive (Dispatch.actionAmount given) = .ok amount
  /-- The currency is a text, or the usual one. -/
  currency : cfg.currencyOf (Fields.get t.action.params "currency") = .str currency
  /-- The type of the reward can be written in JSON. -/
  rewardType : ∃ v, (Fields.get t.action.params "type").jsonForm = .ok v

namespace Dispatch

variable {t t' first : TriggeredAction} {amount : Decimal} {currency : String}

/-- Actions of the same version have the same key for an event. -/
theorem rewardKey_of_sameVersion (h : t.SameVersion t') (eventId : Value) :
    rewardKey t' eventId = rewardKey t eventId := by
  rw [rewardKey, rewardKey, h.ruleId, h.ruleVersion]

/-- The particulars of the reward of an action are in order if the type of the reward can be
written. -/
theorem exists_checkMetadata (ht : t.OfVersion) {v : Value}
    (htype : (Fields.get t.action.params "type").jsonForm = .ok v) (event : String) :
    ∃ m, Rewards.checkMetadata (rewardMetadata t (.str event)) = .ok m := by
  obtain ⟨f, hform⟩ := exists_jsonForm_rewardMetadata ht event
  have hcheck : Rewards.checkMetadata (rewardMetadata t (.str event)) =
      Rewards.requireJson (rewardMetadata t (.str event)) := rfl
  rw [hcheck, Rewards.requireJson, hform, htype]
  exact ⟨_, rfl⟩

/-- A request for a reward that can be paid is in order. -/
theorem exists_checkReward (h : t.AsksFor cfg amount currency) (ht : t.OfVersion)
    (hne : referrer ≠ referred) (event : String) :
    ∃ request, checkReward cfg referrer referred event t = .ok request ∧ request.amount = amount ∧
      request.currency = .str currency ∧
      Requests.fingerprint cfg (.uuid referrer) (.uuid referred) (.decimal amount) (.str currency) =
        .ok request.fingerprint := by
  obtain ⟨given, hgiven, hamount⟩ := h.amount
  obtain ⟨v, hv⟩ := h.rewardType
  obtain ⟨metadata, hmetadata⟩ := exists_checkMetadata ht hv event
  obtain ⟨hash, hhash⟩ := Requests.exists_fingerprint (.uuid referrer) (.uuid referred)
    (Money.settled_of_positive hamount).1 currency
  have hother : (Value.uuid referrer).equalTo (.uuid referred) = .ok false := by
    rw [Value.equalTo_uuid, Value.sameKey_uuid, beq_false_of_ne hne]
  refine ⟨⟨.uuid referrer, .uuid referred, amount, .str currency, .str (rewardKey t (.str event)), hash,
    metadata⟩, ?_, rfl, rfl, hhash⟩
  rw [checkReward, hgiven]
  dsimp only
  rw [Rewards.checkRequest, hother, hamount, hmetadata, h.currency]
  show Requests.fingerprint cfg (.uuid referrer) (.uuid referred) (.decimal amount) (.str currency) >>=
    (fun fingerprint => pure _) = _
  rw [hhash]
  rfl

end Dispatch

/-! ## After the first reward -/

/-- Of an action for which a reward was credited the same is told only if a reward with the same
identifiers was. -/
theorem ActionStatus.TellsSame.exists_credited {result : CreditResult} {s : ActionStatus}
    (h : (ActionStatus.executed (.credited result)).TellsSame s) :
    ∃ result', s = .executed (.credited result') ∧ result'.reward.id = result.reward.id ∧
      result'.entry.id = result.entry.id := by
  have hids := h.ids
  cases s with
  | executed result' =>
    cases result' with
    | credited result' =>
      obtain ⟨hreward, hentry⟩ := Prod.mk.inj (Option.some.inj hids)
      exact ⟨result', rfl, hreward, hentry⟩
    | answered => cases hids
  | skipped => cases hids
  | failed => cases hids

/-- Of an action that failed the same is told only if it failed with the same message. -/
theorem ActionStatus.TellsSame.eq_failed {message : String} {s : ActionStatus}
    (h : (ActionStatus.failed message).TellsSame s) : s = .failed message := by
  have herror := h.error
  cases s with
  | failed message' => rw [Value.str.inj herror]
  | _ => cases herror

namespace Dispatch

variable {t first : TriggeredAction} {amount : Decimal} {currency : String}

/-- What becomes of a further action of a version, once the reward was credited for the first one,
which asked for that amount in that currency. -/
inductive Repeats (cfg : Config) (referrer referred : Uuid) (amount : Decimal) (currency : String)
    (credited : CreditResult) (t : TriggeredAction) : ActionStatus → Prop where
  /-- The action asks for no reward. -/
  | skipped (htype : t.action.type ≠ Action.createReward) :
    Repeats cfg referrer referred amount currency credited t .skipped
  /-- The action asks for what has the same fingerprint, and is given the same reward. -/
  | replayed {amount' : Decimal} {currency' : String} {result : CreditResult}
    (hasks : t.AsksFor cfg amount' currency')
    (hsame : Requests.fingerprint cfg (.uuid referrer) (.uuid referred) (.decimal amount)
        (.str currency) =
      Requests.fingerprint cfg (.uuid referrer) (.uuid referred) (.decimal amount') (.str currency'))
    (hreplayed : result.replayed = true) (hreward : result.reward.id = credited.reward.id)
    (hentry : result.entry.id = credited.entry.id) :
    Repeats cfg referrer referred amount currency credited t (.executed (.credited result))
  /-- The action asks for what has another fingerprint. -/
  | conflict {amount' : Decimal} {currency' : String} (hasks : t.AsksFor cfg amount' currency')
    (hother : Requests.fingerprint cfg (.uuid referrer) (.uuid referred) (.decimal amount)
        (.str currency) ≠
      Requests.fingerprint cfg (.uuid referrer) (.uuid referred) (.decimal amount') (.str currency')) :
    Repeats cfg referrer referred amount currency credited t
      (.failed Fault.idempotencyConflict.message)

/-- The version of the action has been paid for the event: a request under its key is recorded, for
that amount in that currency, and its answer names the reward and the entry of the result. -/
def Paid (cfg : Config) (b : Books) (referrer referred : Uuid) (event : String) (t : TriggeredAction)
    (amount : Decimal) (currency : String) (credited : CreditResult) : Prop :=
  ∃ request : Rewards.CreditRequest,
    b.Answers referrer referred (rewardKey t (.str event)) (.ok request)
      (.ok (credited.reward.id, credited.entry.id)) ∧
    Requests.fingerprint cfg (.uuid referrer) (.uuid referred) (.decimal amount) (.str currency) =
      .ok request.fingerprint

/-- An action of a version that has been paid repeats the reward. -/
theorem ends_carryOut_repeats (h : w.Holds cfg none b) (hrecorded : b.Recorded)
    (hne : referrer ≠ referred) {credited : CreditResult}
    (hpaid : Paid cfg b referrer referred event first amount currency credited)
    (hversion : first.SameVersion t) (ht : t.OfVersion)
    (hasks : t.action.type = Action.createReward → ∃ amount currency, t.AsksFor cfg amount currency) :
    (carryOut cfg .builtIn ⟨.uuid referrer, .uuid referred, .str event⟩ t).Ends w
      (fun status w' => Repeats cfg referrer referred amount currency credited t status ∧
        w'.HoldsBeside cfg none b)
      fun _ _ => False := by
  by_cases htype : t.action.type = Action.createReward
  swap
  · rw [carryOut, Handlers.find?_builtIn_of_ne htype]
    exact ends_pure ⟨.skipped htype, h.beside⟩
  obtain ⟨amount', currency', hasks⟩ := hasks htype
  obtain ⟨request', hcheck, -, -, hhash'⟩ := exists_checkReward hasks ht hne event
  obtain ⟨request, hanswers, hhash⟩ := hpaid
  have hfind : Handlers.builtIn.find? t.action.type = some .creditReward := by
    rw [htype, Handlers.find?_builtIn_createReward]
  -- the key is that of the first action, so its request stands recorded for this one
  have hagain := hanswers.again request'
  rw [← rewardKey_of_sameVersion hversion, ← hcheck] at hagain
  split at hagain
  · rename_i hsame
    have hsettles : b.Settles cfg referrer referred event t (.executed (.credited credited)) :=
      .credited hfind hagain
    refine (ends_carryOut_of_settles h hrecorded hsettles).mono ?_ fun _ _ hbad => hbad
    rintro status w' ⟨htells, hold, hw', -⟩
    obtain ⟨result, rfl, hreward, hentry⟩ := htells.exists_credited
    exact ⟨.replayed hasks (hhash.trans (hsame ▸ hhash'.symm)) hold hreward hentry, hw'⟩
  · rename_i hother
    refine (ends_carryOut_of_settles h hrecorded (.refused hfind hagain)).mono ?_
      fun _ _ hbad => hbad
    rintro status w' ⟨htells, -, hw', -⟩
    rw [htells.eq_failed]
    exact ⟨.conflict hasks fun hsame => hother
      (Except.ok.inj (hhash.symm.trans (hsame.trans hhash'))), hw'⟩

/-- Actions of a version that has been paid repeat the reward, one after the other. -/
theorem ends_run_repeats (h : w.Holds cfg none b) (hrecorded : b.Recorded) (hne : referrer ≠ referred)
    {credited : CreditResult}
    (hpaid : Paid cfg b referrer referred event first amount currency credited)
    {actions : List TriggeredAction}
    (hactions : ∀ t ∈ actions, first.SameVersion t ∧ t.OfVersion ∧
      (t.action.type = Action.createReward → ∃ amount currency, t.AsksFor cfg amount currency)) :
    (run cfg .builtIn actions ⟨.uuid referrer, .uuid referred, .str event⟩).Ends w
      (fun outcomes w' => w'.HoldsBeside cfg none b ∧ List.Forall₂ (fun t o => o.action = t ∧
        Repeats cfg referrer referred amount currency credited t o.status) actions outcomes)
      fun _ _ => False := by
  induction actions generalizing w b with
  | nil =>
    rw [run_nil]
    exact ends_pure ⟨h.beside, .nil⟩
  | cons t rest ih =>
    rw [List.forall_mem_cons] at hactions
    obtain ⟨⟨hversion, ht, hasks⟩, hrest⟩ := hactions
    rw [run_cons]
    refine ends_bind ((ends_carryOut_repeats h hrecorded hne hpaid hversion ht hasks).mono ?_
      fun _ _ hbad => hbad)
    rintro status w₁ ⟨hrepeats, n, hn, hw₁⟩
    have hlater : b.LaterBetween referrer referred { b with issued := n } := .issue hn
    -- identifiers that were given out in between do not matter for what is recorded
    have hpaid₁ : Paid cfg { b with issued := n } referrer referred event first amount currency
        credited := by
      obtain ⟨request, hanswers, hhash⟩ := hpaid
      exact ⟨request, hanswers.later hlater, hhash⟩
    refine ends_bind ((ih hw₁ hrecorded hpaid₁ hrest).mono ?_ fun _ _ hbad => hbad)
    rintro outcomes w₂ ⟨⟨n', hn', hw₂⟩, hall⟩
    exact ends_pure ⟨⟨n', Nat.le_trans hn hn', hw₂⟩, .cons ⟨rfl, hrepeats⟩ hall⟩

/-! ## The first reward -/

/-- Actions that ask for no reward are skipped, one after the other. -/
theorem run_append_of_skipped (context : DispatchContext) {before : List TriggeredAction}
    (hbefore : ∀ t ∈ before, t.action.type ≠ Action.createReward) (rest : List TriggeredAction) :
    run cfg .builtIn (before ++ rest) context =
      (fun outcomes => before.map (⟨·, .skipped⟩) ++ outcomes) <$> run cfg .builtIn rest context := by
  induction before with
  | nil => exact (id_map _).symm
  | cons t others ih =>
    rw [List.forall_mem_cons] at hbefore
    rw [List.cons_append, run_cons, carryOut, Handlers.find?_builtIn_of_ne hbefore.1, ih hbefore.2]
    simp only [pure_bind, bind_pure_comp, Functor.map_map]
    rfl

/-- The reward that an action asks for is credited between two users while the clock lasts, if no
other action of the version has been paid for the event. -/
theorem ends_carryOut_of_free (h : w.Holds cfg none b) (hrecorded : b.Recorded)
    (hcontext : cfg.money.context.greatest ≤ Decimal.greatestExponent)
    (hasks : t.AsksFor cfg amount currency) (ht : t.OfVersion) (hne : referrer ≠ referred)
    (hparties : b.Knows referrer referred)
    (hfree : ∀ q ∈ b.requests, q.key ≠ rewardKey t (.str event))
    (hlasts : w.clock.Lasts cfg.retention 3) (hclock : w.clock.Sound) :
    (carryOut cfg .builtIn ⟨.uuid referrer, .uuid referred, .str event⟩ t).Ends w
      (fun status w' => ∃ result b' q, status = .executed (.credited result) ∧
        result.replayed = false ∧ result.reward.amount = amount ∧ result.reward.currency = currency ∧
        b.Credited cfg b' result.reward result.entry q ∧ w'.Holds cfg none b' ∧ b'.Recorded ∧
        (w'.issued < 2 ^ 128 → Paid cfg b' referrer referred event t amount currency result))
      fun _ _ => False := by
  obtain ⟨request, hcheck, rfl, hcurrency, hhash⟩ := exists_checkReward hasks ht hne event
  obtain ⟨given, hgiven, -⟩ := hasks.amount
  have hfind : Handlers.builtIn.find? t.action.type = some .creditReward := by
    rw [hasks.type, Handlers.find?_builtIn_createReward]
  rw [checkReward, hgiven] at hcheck
  rw [carryOut, hfind]
  dsimp only
  rw [handle, creditReward, hgiven]
  refine ends_tryCatch (ends_map (ends_map ((Rewards.ends_credit_of_free h hrecorded hcheck hcurrency
    hparties hfree hlasts).mono ?_ fun _ _ hbad => hbad.elim)))
  rintro result w' ⟨hfresh, ⟨-, hmeets, -, ts, hts, hshown, hentry⟩, b', hw', hcomes⟩
  -- a reward that is not replayed has been credited
  obtain ⟨q, hc⟩ : ∃ q, b.Credited cfg b' result.reward result.entry q := by
    cases hcomes with
    | credited hc => exact ⟨_, hc⟩
    | replayed => cases hfresh
  -- the instants that are shown were read from the clock, which is sound
  have hinstants : ∀ t ∈ result.instants, t.Valid := CreditResult.forall_instants.2
    ⟨hshown.mono (hclock ts _ hts), hclock ts _ hts _ hentry⟩
  have hrecorded' : b'.Recorded := hrecorded.step (Books.Step.credit hc : b.Step cfg .full b')
  refine ⟨result, b', q, rfl, hfresh, hmeets.amount, ?_, hc, hw', hrecorded',
    fun hissued => ⟨request, ?_, hhash⟩⟩
  · exact Value.str.inj (hmeets.currency.symm.trans hcurrency)
  · exact hw'.answers_of_credit hcomes (Rewards.of_checkRequest hcheck).1.key hissued hcontext
      (fun _ => hinstants) referrer referred

/-- No fewer identifiers have been given out after actions were carried out. -/
theorem issued_le_run (h : w.Holds cfg none b) (handlers : Handlers) (actions : List TriggeredAction)
    (context : DispatchContext) :
    w.issued ≤ ((run cfg handlers actions context).perform w).2.issued := by
  obtain ⟨b', hgrown, hw'⟩ :=
    (grows_run (p := .full) handlers actions context b w ⟨b, .refl, h⟩).perform_snd
  rw [← h.issued, ← hw'.issued]
  exact (Books.steps_of_grow hgrown).issued_le

/-- Of the actions of a version only the first that asks for a reward is paid, while the world goes
over into another one: the ones before it are skipped, it is credited with a reward for that amount
in that currency, and the ones after it are skipped or repeat it. Nothing else changes in the books.
-/
inductive PaysFirst (cfg : Config) (referrer referred : Uuid) (first : TriggeredAction)
    (before after : List TriggeredAction) (amount : Decimal) (currency : String) (w : World) :
    List Outcome → World → Prop where
  /-- The reward is credited. -/
  | mk {b b' : Books} {result : CreditResult} {q : StoredRequest} {rest : List Outcome} {w' : World}
    (hw : w.Holds cfg none b) (hcredited : b.Credited cfg b' result.reward result.entry q)
    (hw' : w'.HoldsBeside cfg none b') (hfresh : result.replayed = false)
    (hamount : result.reward.amount = amount) (hcurrency : result.reward.currency = currency)
    (hrest : List.Forall₂ (fun t o => o.action = t ∧
      Repeats cfg referrer referred amount currency result t o.status) after rest) :
    PaysFirst cfg referrer referred first before after amount currency w
      (before.map (⟨·, .skipped⟩) ++ ⟨first, .executed (.credited result)⟩ :: rest) w'

/-- Only the first of the actions of a version that ask for a reward is paid for an event that is
new. -/
theorem exists_paysFirst (h : w.Holds cfg none b) (hrecorded : b.Recorded)
    (hcontext : cfg.money.context.greatest ≤ Decimal.greatestExponent)
    {before after : List TriggeredAction}
    (hbefore : ∀ t ∈ before, t.action.type ≠ Action.createReward)
    (hasks : first.AsksFor cfg amount currency) (hfirst : first.OfVersion)
    (hafter : ∀ t ∈ after, first.SameVersion t ∧ t.OfVersion ∧
      (t.action.type = Action.createReward → ∃ amount currency, t.AsksFor cfg amount currency))
    (hne : referrer ≠ referred) (hparties : b.Knows referrer referred)
    (hfree : ∀ q ∈ b.requests, q.key ≠ rewardKey first (.str event))
    (hlasts : w.clock.Lasts cfg.retention 3) (hclock : w.clock.Sound)
    (hissued : ((run cfg .builtIn (before ++ first :: after)
      ⟨.uuid referrer, .uuid referred, .str event⟩).perform w).2.issued < 2 ^ 128) :
    ∃ outcomes w', (run cfg .builtIn (before ++ first :: after)
        ⟨.uuid referrer, .uuid referred, .str event⟩).perform w = (.ok outcomes, w') ∧
      PaysFirst cfg referrer referred first before after amount currency w outcomes w' := by
  have hcredit := ends_carryOut_of_free h hrecorded hcontext hasks hfirst hne hparties hfree hlasts
    hclock
  cases hcarried : (carryOut cfg .builtIn ⟨.uuid referrer, .uuid referred, .str event⟩ first).perform w
    with
  | mk outcome w₁ =>
  cases outcome with
  | error e => exact (hcredit.bad_of_error hcarried).elim
  | ok status =>
    obtain ⟨result, b₁, q, rfl, hfresh, hamount, hcurrency, hc, hw₁, hrecorded₁, hpaid⟩ :=
      hcredit.good_of_ok hcarried
    cases hrun : (run cfg .builtIn after ⟨.uuid referrer, .uuid referred, .str event⟩).perform w₁ with
    | mk outcome w₂ =>
    have hwhole : (run cfg .builtIn (before ++ first :: after)
        ⟨.uuid referrer, .uuid referred, .str event⟩).perform w =
          (outcome.map fun rest => before.map (⟨·, .skipped⟩) ++
            ⟨first, .executed (.credited result)⟩ :: rest, w₂) := by
      rw [run_append_of_skipped _ hbefore, run_cons, perform_map, perform_bind, hcarried]
      dsimp only
      rw [perform_bind, hrun]
      cases outcome <;> rfl
    -- the recorded answer can be read back, since no fewer identifiers have been given out in the end
    have hissued₁ : w₁.issued < 2 ^ 128 := by
      have hle := issued_le_run hw₁ .builtIn after ⟨.uuid referrer, .uuid referred, .str event⟩
      rw [hrun] at hle
      rw [hwhole] at hissued
      exact Nat.lt_of_le_of_lt hle hissued
    have hrepeats := ends_run_repeats hw₁ hrecorded₁ hne (hpaid hissued₁) hafter
    cases outcome with
    | error e => exact (hrepeats.bad_of_error hrun).elim
    | ok rest =>
      obtain ⟨hw₂, hall⟩ := hrepeats.good_of_ok hrun
      exact ⟨_, w₂, hwhole, .mk h hc hw₂ hfresh hamount hcurrency hall⟩

end Dispatch

/-! ## Over a run -/

/-- Only one of the rewards that a version asks for is paid. Whatever was called before: when the
actions of a version of a rule are dispatched between two users for an event that the version was
not dispatched for, the first action that asks for a reward is paid, and each further one is given
the same reward again or refused, so that there is exactly one new reward. All the rewards must be
such that they could be paid, the clock must last for one, and no more identifiers may have been
given out than there are. -/
theorem World.paysFirst_of_run (hw : w.IsNew)
    (hcontext : cfg.money.context.greatest ≤ Decimal.greatestExponent) {turns : List Turn}
    (hturns : ∀ t ∈ turns, t.call.Allowed .full) {clock : Clock} (hlasts : clock.Lasts cfg.retention 3)
    (hclock : clock.Sound) (r : StoredRule) {before after : List TriggeredAction}
    {first : TriggeredAction} (hactions : RuleEngine.triggeredBy r.toRule = before ++ first :: after)
    (hbefore : ∀ t ∈ before, t.action.type ≠ Action.createReward) {amount : Decimal}
    {currency : String} (hfirst : first.AsksFor cfg amount currency)
    (hafter : ∀ t ∈ after, t.action.type = Action.createReward →
      ∃ amount currency, t.AsksFor cfg amount currency)
    (hne : referrer ≠ referred)
    (husers : ∀ id ∈ [referrer, referred], ∃ row,
      (w.run cfg turns).store.get usersTable (.uuid id) = .ok (some row))
    (hevent : (w.run cfg turns).store.get requestsTable
      (.str (Dispatch.rewardKey first (.str event))) = .ok none)
    (hissued : ((Dispatch.run cfg .builtIn (RuleEngine.triggeredBy r.toRule)
      ⟨.uuid referrer, .uuid referred, .str event⟩).perform
        { w.run cfg turns with clock }).2.issued < 2 ^ 128) :
    ∃ outcomes w', (Dispatch.run cfg .builtIn (RuleEngine.triggeredBy r.toRule)
        ⟨.uuid referrer, .uuid referred, .str event⟩).perform { w.run cfg turns with clock } =
          (.ok outcomes, w') ∧
      Dispatch.PaysFirst cfg referrer referred first before after amount currency
        { w.run cfg turns with clock } outcomes w' := by
  obtain ⟨b, hsteps, hb⟩ := (hw.holds : w.Holds cfg none {}).run hturns
  have hworld : ({ w.run cfg turns with clock } : World).Holds cfg none b := hb.congr rfl rfl
  -- what is asked of the store is asked of the books that it holds
  have huser : ∀ id ∈ [referrer, referred], b.HasUser id := by
    intro id hid
    obtain ⟨row, hget⟩ := husers id hid
    obtain ⟨u, hu, -, heq⟩ := hb.held.users.of_get_some hb.sound hget
    exact ⟨u, hu, (Value.uuid.inj heq).symm⟩
  have hfree : ∀ q ∈ b.requests, q.key ≠ Dispatch.rewardKey first (.str event) := fun q hq hkey =>
    hb.held.requests.of_get_none hb.sound hevent q hq (congrArg Value.str hkey.symm)
  have hmem : ∀ t ∈ first :: after, t ∈ RuleEngine.triggeredBy r.toRule := fun t ht =>
    hactions ▸ List.mem_append_right _ ht
  have hfirstMem := hmem first List.mem_cons_self
  rw [hactions] at hissued ⊢
  refine Dispatch.exists_paysFirst hworld (Books.Recorded.empty.steps hsteps) hcontext hbefore hfirst
    (r.ofVersion_triggeredBy _ hfirstMem) (fun t ht => ?_) hne
    ⟨huser _ List.mem_cons_self, huser _ (List.mem_cons_of_mem _ List.mem_cons_self)⟩ hfree hlasts
    hclock hissued
  have htMem := hmem t (List.mem_cons_of_mem _ ht)
  exact ⟨r.sameVersion_triggeredBy hfirstMem htMem, r.ofVersion_triggeredBy _ htMem, hafter t ht⟩

/-- A version of a rule that asks for a notification, for a reward of ten twice and for a reward of
five. -/
def StoredRule.generous : StoredRule where
  id := ⟨3⟩
  name := "A"
  version := 1
  condition := default
  actions := [⟨"sendNotification", []⟩, ⟨"createReward", [("amount", .int 10)]⟩,
    ⟨"createReward", [("amount", .int 10)]⟩, ⟨"createReward", [("amount", .int 5)]⟩]
  active := .bool true
  description := .null
  metadata := .object []
  createdAt := ⟨0, some 0⟩
  place := 0

/-- There is a row if one was found. -/
theorem Store.exists_of_isSome {found : Except Failure (Option Fields)}
    (h : found.toOption.map Option.isSome = some true) : ∃ row, found = .ok (some row) := by
  cases found with
  | error e => cases h
  | ok row =>
    obtain ⟨columns, rfl⟩ := Option.isSome_iff_exists.1 (Option.some.inj h)
    exact ⟨columns, rfl⟩

/-- There is no row if none was found. -/
theorem Store.eq_none_of_isSome {found : Except Failure (Option Fields)}
    (h : found.toOption.map Option.isSome = some false) : found = .ok none := by
  cases found with
  | error e => cases h
  | ok row =>
    cases row with
    | none => rfl
    | some columns => cases h

/-- A whole number of rupees is asked for by an action with that amount. -/
theorem TriggeredAction.asksFor_rupees {t : TriggeredAction} {n : Int} {amount : Decimal}
    (haction : t.action = ⟨"createReward", [("amount", .int n)]⟩)
    (hamount : Config.rupees.money.positive (.int n) = .ok amount) :
    t.AsksFor .rupees amount "INR" := by
  have hparams : t.action.params = [("amount", .int n)] := by rw [haction]
  refine ⟨by rw [haction]; rfl, ⟨.int n, by rw [hparams]; rfl, hamount⟩, ?_, ?_⟩
  · rw [hparams]
    rfl
  · rw [hparams]
    exact ⟨.null, rfl⟩

/-- The early clock lasts for a reward. -/
theorem Clock.lasts_early : Clock.early.Lasts Config.rupees.retention 3 :=
  ⟨_, _, rfl, rfl, _, _, rfl, rfl, _, _, rfl, rfl, trivial⟩

/-- Of the two rewards of ten and the one of five, one of ten is paid: the second one is the same
again, and the third one fails. -/
theorem World.paysFirst_of_generous :
    let w : World := { (fresh .early).run .rupees (Turn.twoUsers 0) with clock := .early }
    let actions := RuleEngine.triggeredBy StoredRule.generous.toRule
    ∃ outcomes w', (Dispatch.run .rupees .builtIn actions Dispatch.betweenTwo).perform w =
        (.ok outcomes, w') ∧
      (∃ amount, Dispatch.PaysFirst .rupees ⟨1⟩ ⟨2⟩ actions[1] [actions[0]] [actions[2], actions[3]]
        amount "INR" w outcomes w') ∧
      outcomes.map (·.status.name) = ["skipped", "executed", "executed", "failed"] := by
  intro w actions
  have hten : Config.rupees.money.positive (.int 10) = .ok (.finite false 1000 (-2)) := rfl
  have hfive : Config.rupees.money.positive (.int 5) = .ok (.finite false 500 (-2)) := rfl
  have husers : ∀ id ∈ [(⟨1⟩ : Uuid), ⟨2⟩], ∃ row,
      ((fresh .early).run .rupees (Turn.twoUsers 0)).store.get usersTable (.uuid id) =
        .ok (some row) := fun id hid =>
    Store.exists_of_isSome ((by decide +kernel : ∀ id ∈ [(⟨1⟩ : Uuid), ⟨2⟩],
      (((fresh .early).run .rupees (Turn.twoUsers 0)).store.get usersTable
        (.uuid id)).toOption.map Option.isSome = some true) id hid)
  have hevent : ((fresh .early).run .rupees (Turn.twoUsers 0)).store.get requestsTable
      (.str (Dispatch.rewardKey actions[1] (.str "e"))) = .ok none :=
    Store.eq_none_of_isSome (by decide +kernel)
  have hrun : (fun run : Except Failure (List Outcome) × World =>
      (run.1.toOption.map (·.map (·.status.name)), decide (run.2.issued < 2 ^ 128)))
        ((Dispatch.run .rupees .builtIn actions Dispatch.betweenTwo).perform w) =
      (some ["skipped", "executed", "executed", "failed"], true) := by decide +kernel
  obtain ⟨hnames, hissued⟩ := Prod.mk.inj hrun
  have hafter : ∀ t ∈ [actions[2], actions[3]], t.action.type = Action.createReward →
      ∃ amount currency, t.AsksFor .rupees amount currency := by
    intro t ht _
    simp only [List.mem_cons, List.not_mem_nil, or_false] at ht
    rcases ht with rfl | rfl
    · exact ⟨_, _, TriggeredAction.asksFor_rupees rfl hten⟩
    · exact ⟨_, _, TriggeredAction.asksFor_rupees rfl hfive⟩
  obtain ⟨outcomes, w', hok, hpays⟩ := paysFirst_of_run (isNew_fresh .early) (by decide)
    (Turn.allowed_twoUsers 0) Clock.lasts_early
    (Clock.sound_of_now rfl (Instant.valid_of_utc (by decide) rfl)) StoredRule.generous
    (show actions = [actions[0]] ++ actions[1] :: [actions[2], actions[3]] from rfl)
    (by decide) (TriggeredAction.asksFor_rupees rfl hten) hafter (by decide) husers hevent
    (of_decide_eq_true hissued)
  refine ⟨outcomes, w', hok, ⟨_, hpays⟩, Option.some.inj ?_⟩
  rw [← hnames, show (Dispatch.run .rupees .builtIn actions Dispatch.betweenTwo).perform w = _ from hok]
  rfl

/-- A rule that was accepted asks for a reward of ten and for one of five. When there is an `x`,
both actions are reported, but only one reward is credited, and the other action fails. -/
theorem World.reward_lost_of_twoRewards :
    let reward (amount : Int) : Value := .object [("type", .str "createReward"),
      ("params", .object [("amount", .int amount)])]
    let w : World := { (fresh .early).run .rupees (Turn.ruleAsking [reward 10, reward 5]) with
      clock := .early }
    let event : Value := .object [("x", .int 1)]
    let run := (Dispatch.runEvent .rupees .builtIn event Dispatch.betweenTwo).perform w
    run.1.toOption.map (·.map (·.status.name)) = some ["executed", "failed"] ∧
      (w.store.count rewardsTable).toOption = some 0 ∧
      (run.2.store.count rewardsTable).toOption = some 1 := by
  decide +kernel

end RewardLedger
