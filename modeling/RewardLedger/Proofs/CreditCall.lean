import RewardLedger.Proofs.Ledger.Keyed
import RewardLedger.Proofs.Run

/-!
# Credits over a run

Every call for a credit that is made in the course of a run, whether it is asked for as such or made
by the dispatcher, together with the world in which it is made (`World.creditCalls`). A call that
credits a reward finds its key among no recorded requests and leaves it among them, and recorded
requests stay (`CreditCall.once`), so no key is credited twice (`Books.CreditsOnce.append`), in one
dispatch or over a whole run (`World.credits_once_of_run`).
-/

namespace RewardLedger

variable {cfg : Config} {p : Permission} {b b' b'' : Books} {w w' : World}

open Op

/-- What may be asked for from outside where requests are recorded by credits alone: entries that are
posted by hand belong to no reward. -/
def Permission.keyed : Permission where
  posts _ tag _ := tag = none
  onBehalf := True
  records := False

/-- Books that steps lead to are keyed where requests are recorded by credits alone. -/
theorem Books.keyed_of_steps (hs : Books.Steps cfg .keyed {} b) : b.Keyed :=
  (hs.keeps (I := fun b => b.Owned ∧ b.Keyed) .empty ⟨.empty, .empty⟩ fun _ _ hb h hstep =>
    ⟨h.1.step (fun _ _ _ => id) hstep, h.2.step (fun _ _ _ => id) id h.1 hb hstep⟩).2.2

/-! ## The calls for credits -/

/-- A call for a credit, and the world in which it is made. -/
structure CreditCall where
  /-- The world. -/
  world : World
  /-- The user to be rewarded. -/
  referrer : Value
  /-- The user who was referred. -/
  referred : Value
  /-- The amount. -/
  amount : Value
  /-- The key of the request. -/
  key : Value
  /-- The currency, or something empty for the usual one. -/
  currency : Value
  /-- Further particulars. -/
  metadata : Value

namespace CreditCall

/-- What the call comes to, and the world after it. -/
def outcome (cfg : Config) (c : CreditCall) : Except Failure CreditResult × World :=
  (Rewards.credit cfg c.referrer c.referred c.amount c.key c.currency c.metadata).perform c.world

/-- Carrying the request out, without trying it once more. -/
def firstTry (cfg : Config) (c : CreditCall) : Op CreditResult := do
  Rewards.creditOnce cfg (← Op.ofExcept (Rewards.checkRequest cfg c.referrer c.referred c.amount
    c.key c.currency c.metadata))

/-- The call credits a reward: it succeeds, and not by repeating an earlier answer. -/
def isFresh (cfg : Config) (c : CreditCall) : Bool :=
  match (c.outcome cfg).1 with
  | .ok result => !result.replayed
  | .error _ => false

/-- Neither the call nor its first try ends with a violated unique constraint. -/
def Unraced (cfg : Config) (c : CreditCall) : Prop :=
  NoDuplicate ((c.firstTry cfg).perform c.world).1 ∧ NoDuplicate (c.outcome cfg).1

end CreditCall

namespace Dispatch

/-- The call for a credit that carrying the action out makes, if it makes one. -/
def creditCall? (handlers : Handlers) (context : DispatchContext) (w : World)
    (t : TriggeredAction) : Option CreditCall :=
  match handlers.find? t.action.type, Fields.find? t.action.params "amount" with
  | some .creditReward, some amount => some {
      world := w, referrer := context.referrer, referred := context.referred,
      amount := actionAmount amount, key := .str (rewardKey t context.eventId),
      currency := Fields.get t.action.params "currency",
      metadata := rewardMetadata t context.eventId }
  | _, _ => none

/-- The calls for credits that carrying actions out makes. -/
def creditCalls (cfg : Config) (handlers : Handlers) (context : DispatchContext) :
    List TriggeredAction → World → List CreditCall
  | [], _ => []
  | t :: rest, w =>
    (creditCall? handlers context w t).toList ++
      match (carryOut cfg handlers context t).perform w with
      | (.ok _, w') => creditCalls cfg handlers context rest w'
      | (.error _, _) => []

end Dispatch

/-- The calls for credits that a call makes. -/
def Call.creditCalls (cfg : Config) (w : World) : Call → List CreditCall
  | creditReward referrer referred amount key currency metadata =>
    [{ world := w, referrer, referred, amount, key, currency, metadata }]
  | dispatchActions actions context => Dispatch.creditCalls cfg w.handlers context actions w
  | dispatchEvent event context =>
    match (RuleEngine.evaluate event).perform w with
    | (.ok actions, w') => Dispatch.creditCalls cfg w'.handlers context actions w'
    | (.error _, _) => []
  | _ => []

/-- The calls for credits that are made in the course of several turns. -/
def World.creditCalls (cfg : Config) (w : World) : List Turn → List CreditCall
  | [] => []
  | t :: rest =>
    t.call.creditCalls cfg { w with clock := t.clock } ++ creditCalls cfg (w.after cfg t) rest

/-! ## No key twice -/

/-- None of the calls was raced, those that credited a reward had different keys that were not
recorded in the first books, and their keys are recorded in the second. -/
structure Books.CreditsOnce (cfg : Config) (b b' : Books) (calls : List CreditCall) : Prop where
  /-- No call was raced. -/
  unraced : ∀ c ∈ calls, c.Unraced cfg
  /-- No key was credited twice. -/
  nodup : ((calls.filter fun c => c.isFresh cfg).map CreditCall.key).Nodup
  /-- A key that was credited was not recorded before. -/
  new : ∀ c ∈ calls, c.isFresh cfg = true → ∀ q ∈ b.requests, c.key ≠ .str q.key
  /-- A key that was credited is recorded. -/
  recorded : ∀ c ∈ calls, c.isFresh cfg = true → ∃ q ∈ b'.requests, c.key = .str q.key

namespace Books.CreditsOnce

variable {calls calls' : List CreditCall}

/-- Without calls nothing is credited. -/
theorem nil : CreditsOnce cfg b b' [] :=
  ⟨fun _ h => absurd h List.not_mem_nil, .nil, fun _ h => absurd h List.not_mem_nil,
    fun _ h => absurd h List.not_mem_nil⟩

/-- What is recorded stays recorded. -/
theorem later (h : b.CreditsOnce cfg b' calls) (hsub : b'.requests ⊆ b''.requests) :
    b.CreditsOnce cfg b'' calls := by
  refine ⟨h.unraced, h.nodup, h.new, fun c hc hfresh => ?_⟩
  obtain ⟨q, hq, hkey⟩ := h.recorded c hc hfresh
  exact ⟨q, hsub hq, hkey⟩

/-- What follows credits no key again, since the keys that were credited are recorded by then. -/
theorem append (h : b.CreditsOnce cfg b' calls) (h' : b'.CreditsOnce cfg b'' calls')
    (hsub : b.requests ⊆ b'.requests) (hsub' : b'.requests ⊆ b''.requests) :
    b.CreditsOnce cfg b'' (calls ++ calls') := by
  refine ⟨fun c hc => ?_, ?_, fun c hc hfresh => ?_, fun c hc hfresh => ?_⟩
  · exact (List.mem_append.1 hc).elim (h.unraced c) (h'.unraced c)
  · rw [List.filter_append, List.map_append]
    refine List.Nodup.append h.nodup h'.nodup fun key hkey hkey' => ?_
    obtain ⟨c, hc, rfl⟩ := List.mem_map.1 hkey
    obtain ⟨c', hc', heq⟩ := List.mem_map.1 hkey'
    obtain ⟨hmem, hfresh⟩ := List.mem_filter.1 hc
    obtain ⟨hmem', hfresh'⟩ := List.mem_filter.1 hc'
    obtain ⟨q, hq, hrecorded⟩ := h.recorded c hmem hfresh
    exact h'.new c' hmem' hfresh' q hq (heq.trans hrecorded)
  · rcases List.mem_append.1 hc with hc | hc
    · exact h.new c hc hfresh
    · exact fun q hq => h'.new c hc hfresh q (hsub hq)
  · rcases List.mem_append.1 hc with hc | hc
    · obtain ⟨q, hq, hkey⟩ := h.recorded c hc hfresh
      exact ⟨q, hsub' hq, hkey⟩
    · exact h'.recorded c hc hfresh

/-- One call credits no key twice. -/
theorem singleton {c : CreditCall} (hraced : c.Unraced cfg)
    (hfresh : c.isFresh cfg = true →
      (∀ q ∈ b.requests, c.key ≠ .str q.key) ∧ ∃ q ∈ b'.requests, c.key = .str q.key) :
    b.CreditsOnce cfg b' [c] := by
  refine ⟨fun x hx => ?_, ?_, fun x hx => ?_, fun x hx => ?_⟩
  · rwa [List.mem_singleton.1 hx]
  · exact (List.nodup_singleton c.key).sublist (List.filter_sublist.map CreditCall.key)
  · rw [List.mem_singleton.1 hx]
    exact fun hf => (hfresh hf).1
  · rw [List.mem_singleton.1 hx]
    exact fun hf => (hfresh hf).2

end Books.CreditsOnce

/-- The first try of a call for a credit on keyed books meets no violated unique constraint. -/
theorem CreditCall.noDuplicate_firstTry {c : CreditCall} (hw : c.world.Holds cfg none b)
    (hkeyed : b.Keyed) {key : String} (hkey : c.key = .str key) :
    NoDuplicate ((c.firstTry cfg).perform c.world).1 := by
  have hends : (c.firstTry cfg).Ends c.world (fun _ _ => True) fun e _ => e.isDuplicate = false := by
    unfold firstTry
    rw [hkey]
    refine ends_bind (ends_ofExcept (fun request hrequest => ?_)
      fun e he => noDuplicate_checkRequest _ _ _ _ _ _ _ e he)
    have hr := (Rewards.of_checkRequest hrequest).1
    exact (Rewards.ends_creditOnce_of_keyed hw (fun _ hr => hkeyed.exists_request hr) hr).mono (fun _ _ _ => trivial) fun _ _ he => he.2
  intro e he
  cases hrun : (c.firstTry cfg).perform c.world with
  | mk result w' =>
    rw [hrun] at he
    rw [show result = .error e from he] at hrun
    exact hends.bad_of_error hrun

/-- A call for a credit on keyed books is not raced, and credits its key only if the key was not
recorded before. -/
theorem CreditCall.once {c : CreditCall} (hw : c.world.Holds cfg none b) (hkeyed : b.Keyed)
    {key : String} (hkey : c.key = .str key) :
    ∃ b', b.Steps cfg p b' ∧ (c.outcome cfg).2.Holds cfg none b' ∧ b.CreditsOnce cfg b' [c] := by
  have hends := Rewards.ends_credit hw (fun _ hr => hkeyed.exists_request hr) c.referrer
    c.referred c.amount key c.currency c.metadata
  have hfirst := noDuplicate_firstTry hw hkeyed hkey
  rw [← hkey] at hends
  cases houtcome : c.outcome cfg with
  | mk result w' =>
    cases result with
    | ok result =>
      obtain ⟨request, b', hcheck, hw', hcomes⟩ := hends.good_of_ok houtcome
      refine ⟨b', hcomes.steps, hw', .singleton ⟨hfirst, ?_⟩ fun hfresh => ?_⟩
      · rw [houtcome]
        exact .ok _
      · rw [isFresh, houtcome] at hfresh
        rw [hkey] at hcheck
        have hrkey := (Rewards.of_checkRequest hcheck).1.key
        -- only a request that was not recorded before comes to a new reward
        cases hcomes with
        | replayed => cases hfresh
        | @credited _ r e q hc hreward _ =>
          have hcredited : c.key = .str r.idempotencyKey := by
            rw [hkey, ← hrkey, hreward]
          rw [hcredited]
          refine ⟨fun q' hq' heq => hc.requestFree q' hq' (Value.str.inj heq).symm, q, ?_, ?_⟩
          · rw [hc.eq]
            exact List.mem_append_right _ (List.mem_singleton.2 rfl)
          · rw [hc.key]
    | error e =>
      obtain ⟨⟨n, hn, hw'⟩, he⟩ := hends.bad_of_error houtcome
      refine ⟨_, .single (.issue hn), hw', .singleton ⟨hfirst, ?_⟩ fun hfresh => ?_⟩
      · rw [houtcome]
        exact .error he
      · rw [isFresh, houtcome] at hfresh
        cases hfresh

/-! ## Calls for credits in the course of a run -/

/-- What is lost is held by books that steps lead to. -/
theorem Op.Ends.exists_steps {α : Type} {op : Op α}
    (h : op.Ends w (fun _ w' => w'.Reached cfg (Books.Steps cfg p) b) fun _ w' => w'.Reached cfg (Books.Steps cfg p) b) :
    ∃ b', b.Steps cfg p b' ∧ (op.perform w).2.Holds cfg none b' := by
  unfold Ends at h
  split at h
  · rename_i hrun
    rw [hrun]
    exact h
  · rename_i hrun
    rw [hrun]
    exact h

namespace Dispatch

/-- The call for a credit that carrying an action out makes is what its handler does. -/
theorem of_creditCall?_eq_some {handlers : Handlers} {context : DispatchContext}
    {t : TriggeredAction} {c : CreditCall} (h : creditCall? handlers context w t = some c) :
    handlers.find? t.action.type = some .creditReward ∧ c.world = w ∧
      c.key = .str (rewardKey t context.eventId) ∧
      (creditReward cfg context t).perform w = c.outcome cfg := by
  unfold creditCall? at h
  split at h
  · rename_i amount hhandler hamount
    cases h
    refine ⟨hhandler, rfl, rfl, ?_⟩
    unfold creditReward
    rw [hamount]
    rfl
  · cases h

/-- Carrying one action out credits no key that was recorded before. -/
theorem once_carryOut (hw : w.Holds cfg none b) (hkeyed : b.Keyed) (handlers : Handlers)
    (context : DispatchContext) (t : TriggeredAction) :
    ∃ b', b.Steps cfg p b' ∧ ((carryOut cfg handlers context t).perform w).2.Holds cfg none b' ∧
      b.CreditsOnce cfg b' (creditCall? handlers context w t).toList := by
  cases hcall : creditCall? handlers context w t with
  | none =>
    obtain ⟨b', hsteps, hw'⟩ := ((grows_carryOut handlers context t).moves (p := p) b w hw.reached).exists_steps
    exact ⟨b', hsteps, hw', .nil⟩
  | some c =>
    obtain ⟨hhandler, hworld, hkey, hperform⟩ := of_creditCall?_eq_some hcall
    obtain ⟨b₁, hsteps₁, hw₁, honce⟩ := CreditCall.once (p := p) (hworld ▸ hw) hkeyed hkey
    -- what follows the credit at most writes to the log
    have hcredit : (creditReward cfg context t).Ends w (fun _ w' => w'.Reached cfg (Books.Steps cfg p) b₁)
        fun _ w' => w'.Reached cfg (Books.Steps cfg p) b₁ := by
      have hreached : ((creditReward cfg context t).perform w).2.Reached cfg (Books.Steps cfg p) b₁ := by
        rw [hperform]
        exact hw₁.reached
      refine (ends_self _ _).mono (fun a w' hrun => ?_) fun e w' hrun => ?_
      · rw [hrun] at hreached
        exact hreached
      · rw [hrun] at hreached
        exact hreached
    have hends : (carryOut cfg handlers context t).Ends w (fun _ w' => w'.Reached cfg (Books.Steps cfg p) b₁)
        fun _ w' => w'.Reached cfg (Books.Steps cfg p) b₁ := by
      unfold carryOut
      rw [hhandler]
      refine ends_tryCatch (ends_map (ends_map (hcredit.mono (fun _ _ hw' => hw') ?_)))
      exact fun e w' hw' => (grows_recordFailure context t e).moves b₁ w' hw'
    obtain ⟨b', hsteps, hw'⟩ := hends.exists_steps
    exact ⟨b', hsteps₁.trans hsteps, hw', honce.later hsteps.requests_prefix.subset⟩

/-- Carrying actions out credits no key twice and none that was recorded before. -/
theorem once_run (hb : Books.Steps cfg .keyed {} b) (hw : w.Holds cfg none b) (handlers : Handlers)
    (context : DispatchContext) (actions : List TriggeredAction) :
    ∃ b', b.Steps cfg .keyed b' ∧
      ((run cfg handlers actions context).perform w).2.Holds cfg none b' ∧
      b.CreditsOnce cfg b' (creditCalls cfg handlers context actions w) := by
  induction actions generalizing w b with
  | nil => exact ⟨b, .refl, hw, .nil⟩
  | cons t rest ih =>
    obtain ⟨b₁, hsteps₁, hw₁, honce₁⟩ := once_carryOut (p := .keyed) hw
      (Books.keyed_of_steps hb) handlers context t
    unfold run creditCalls
    rw [List.mapM_cons, perform_bind, perform_map]
    cases hrun : (carryOut cfg handlers context t).perform w with
    | mk result w₁ =>
      rw [hrun] at hw₁
      cases result with
      | error e =>
        exact ⟨b₁, hsteps₁, hw₁, honce₁.append .nil hsteps₁.requests_prefix.subset
          (List.Subset.refl _)⟩
      | ok status =>
        obtain ⟨b', hsteps, hw', honce⟩ := ih (hb.trans hsteps₁) hw₁
        refine ⟨b', hsteps₁.trans hsteps, ?_, honce₁.append honce
          hsteps₁.requests_prefix.subset hsteps.requests_prefix.subset⟩
        dsimp only
        rw [perform_bind]
        unfold run at hw'
        generalize (List.mapM (fun t => Outcome.mk t <$> carryOut cfg handlers context t)
          rest).perform w₁ = after at hw' ⊢
        obtain ⟨outcomes, w₂⟩ := after
        cases outcomes with
        | ok _ => exact hw'
        | error _ => exact hw'

end Dispatch

namespace Call

/-- Telling what became of actions changes nothing further. -/
theorem ends_dispatch {actions : List TriggeredAction} {context : DispatchContext}
    (h : ((Dispatch.run cfg w.handlers actions context).perform w).2.Holds cfg none b) :
    (dispatch cfg actions context).Ends w (fun _ w' => w'.Reached cfg (Books.Steps cfg p) b)
      fun _ w' => w'.Reached cfg (Books.Steps cfg p) b := by
  have hrun : (Dispatch.run cfg w.handlers actions context).Ends w
      (fun _ w' => w'.Reached cfg (Books.Steps cfg p) b) fun _ w' => w'.Reached cfg (Books.Steps cfg p) b := by
    refine (ends_self _ _).mono (fun outcomes w' hrun => ?_) fun e w' hrun => ?_
    · rw [hrun] at h
      exact h.reached
    · rw [hrun] at h
      exact h.reached
  have hall : (do
      let outcomes ← Dispatch.run cfg w.handlers actions context
      let written ← Op.ofExcept (outcomes.mapM Outcome.toValue)
      let handled := actions.filter fun t => w.handlers.isForeign t.action.type
      pure (Value.object [("outcomes", .list written),
        ("handled", .list (handled.map (writeHandled context)))]) : Op Value).Ends w
      (fun _ w' => w'.Reached cfg (Books.Steps cfg p) b) fun _ w' => w'.Reached cfg (Books.Steps cfg p) b :=
    ends_bind (hrun.mono (fun outcomes w' hw' => keeps_bind (keeps_ofExcept _)
      (fun _ => keeps_pure _) w' hw') fun _ _ hw' => hw')
  exact hall

/-- A call credits no key twice and none that was recorded before. -/
theorem once (hb : Books.Steps cfg .keyed {} b) (hw : w.Holds cfg none b) {call : Call}
    (h : call.Allowed .keyed) :
    ∃ b', b.Steps cfg .keyed b' ∧ ((call.perform cfg).perform w).2.Holds cfg none b' ∧
      b.CreditsOnce cfg b' (call.creditCalls cfg w) := by
  have hmoves := (Call.moves h b w hw.reached).exists_steps
  -- the calls that can credit; what they do after the credits records no other request
  cases call with
  | creditReward referrer referred amount key currency metadata =>
    obtain ⟨k, rfl⟩ := h
    let c : CreditCall := { world := w, referrer, referred, amount, key := .str k, currency, metadata }
    obtain ⟨b₁, hsteps₁, hw₁, honce⟩ := CreditCall.once (c := c) (p := .keyed) hw
      (Books.keyed_of_steps hb) rfl
    have hwritten : (written CreditResult.json (Rewards.credit cfg referrer referred amount
        (.str k) currency metadata)).Ends w (fun _ w' => w'.Reached cfg (Books.Steps cfg .keyed) b₁)
        fun _ w' => w'.Reached cfg (Books.Steps cfg .keyed) b₁ := by
      refine ends_bind ((ends_self _ _).mono (fun result w' hrun => ?_) fun e w' hrun => ?_)
      · have heq : (c.outcome cfg).2 = w' := congrArg Prod.snd hrun
        exact keeps_ofExcept _ w' (heq ▸ hw₁.reached)
      · have heq : (c.outcome cfg).2 = w' := congrArg Prod.snd hrun
        exact heq ▸ hw₁.reached
    obtain ⟨b', hsteps, hw'⟩ := hwritten.exists_steps
    exact ⟨b', hsteps₁.trans hsteps, hw', honce.later hsteps.requests_prefix.subset⟩
  | dispatchActions actions context =>
    obtain ⟨b₁, hsteps₁, hw₁, honce⟩ := Dispatch.once_run hb hw w.handlers context actions
    obtain ⟨b', hsteps, hw'⟩ := (ends_dispatch (p := .keyed) hw₁).exists_steps
    exact ⟨b', hsteps₁.trans hsteps, hw', honce.later hsteps.requests_prefix.subset⟩
  | dispatchEvent event context =>
    have hevaluate := (RuleEngine.reads_evaluate event).acts.moves (p := .keyed) b w hw.reached
    have hcalls : (dispatchEvent event context).creditCalls cfg w =
        match (RuleEngine.evaluate event).perform w with
        | (.ok actions, w') => Dispatch.creditCalls cfg w'.handlers context actions w'
        | (.error _, _) => [] := rfl
    rw [hcalls, show (dispatchEvent event context).perform cfg =
      RuleEngine.evaluate event >>= fun actions => dispatch cfg actions context from rfl, perform_bind]
    cases hrun : (RuleEngine.evaluate event).perform w with
    | mk result w₁ =>
      cases result with
      | error e =>
        obtain ⟨b', hsteps, hw'⟩ := hevaluate.bad_of_error hrun
        exact ⟨b', hsteps, hw', .nil⟩
      | ok actions =>
        obtain ⟨b₁, hsteps₁, hw₁⟩ := hevaluate.good_of_ok hrun
        obtain ⟨b₂, hsteps₂, hw₂, honce⟩ := Dispatch.once_run (hb.trans hsteps₁) hw₁ w₁.handlers
          context actions
        obtain ⟨b', hsteps, hw'⟩ := (ends_dispatch (p := .keyed) hw₂).exists_steps
        have hlast : b₁.Steps cfg .keyed b' := hsteps₂.trans hsteps
        refine ⟨b', hsteps₁.trans hlast, hw', ?_⟩
        exact Books.CreditsOnce.nil.append (honce.later hsteps.requests_prefix.subset)
          hsteps₁.requests_prefix.subset hlast.requests_prefix.subset
  -- all other calls credit nothing
  | _ =>
    obtain ⟨b', hsteps, hw'⟩ := hmoves
    exact ⟨b', hsteps, hw', .nil⟩

end Call

namespace World

/-- Turns credit no key twice and none that was recorded before. -/
theorem once_run (hb : Books.Steps cfg .keyed {} b) (hw : w.Holds cfg none b) {turns : List Turn}
    (hturns : ∀ t ∈ turns, t.call.Allowed .keyed) :
    ∃ b', b.Steps cfg .keyed b' ∧ (w.run cfg turns).Holds cfg none b' ∧
      b.CreditsOnce cfg b' (w.creditCalls cfg turns) := by
  induction turns generalizing w b with
  | nil => exact ⟨b, .refl, hw, .nil⟩
  | cons t rest ih =>
    have hclock : ({ w with clock := t.clock } : World).Holds cfg none b := hw.congr rfl rfl
    obtain ⟨b₁, hsteps₁, hw₁, honce₁⟩ := Call.once hb hclock (hturns t List.mem_cons_self)
    obtain ⟨b', hsteps, hw', honce⟩ := ih (hb.trans hsteps₁) hw₁ fun t' ht' =>
      hturns t' (List.mem_cons_of_mem _ ht')
    exact ⟨b', hsteps₁.trans hsteps, hw', honce₁.append honce hsteps₁.requests_prefix.subset
      hsteps.requests_prefix.subset⟩

/-- After every run in which requests are recorded by credits alone, rewards and recorded requests have
the same keys, each of which occurs once, and what a request was answered names the reward with its
key and the one credit of that reward. No call for a credit that was made on the way ended with a
violated unique constraint, not even before it was tried once more, and no key was credited twice. -/
theorem credits_once_of_run (hw : w.IsNew) {turns : List Turn}
    (hturns : ∀ t ∈ turns, t.call.Allowed .keyed) :
    (∃ b : Books, b.Held (w.run cfg turns).store ∧ b.Keyed) ∧
      (∀ c ∈ w.creditCalls cfg turns, c.Unraced cfg) ∧
      (((w.creditCalls cfg turns).filter fun c => c.isFresh cfg).map CreditCall.key).Nodup := by
  have hempty : w.Holds cfg none {} := hw.holds
  obtain ⟨b, hsteps, hholds, honce⟩ := once_run .refl hempty hturns
  exact ⟨⟨b, hholds.held, Books.keyed_of_steps hsteps⟩, honce.unraced, honce.nodup⟩

end World

/-- A credit is asked for twice under one key. -/
def Turn.creditTwice : List Turn :=
  let clock : Clock := { now := ⟨0, some 0⟩, step := 1 }
  let credit : Call :=
    .creditReward (.uuid ⟨1⟩) (.uuid ⟨2⟩) (.str "10.00") (.str "k") .null .null
  [⟨clock, .createUser (.str "a@x.org") .null⟩, ⟨clock, .createUser (.str "b@x.org") .null⟩,
    ⟨clock, credit⟩, ⟨clock, credit⟩]

/-- The run that asks for a credit twice credits its key once. -/
theorem World.credits_once_of_creditTwice :
    (∀ t ∈ Turn.creditTwice, t.call.Allowed .keyed) ∧
      ((((fresh { now := ⟨0, some 0⟩, step := 1 }).creditCalls .rupees Turn.creditTwice).filter
        fun c => c.isFresh .rupees).map CreditCall.key).Nodup := by
  have hallowed : ∀ t ∈ Turn.creditTwice, t.call.Allowed .keyed := by
    intro t ht
    simp only [Turn.creditTwice, List.mem_cons, List.not_mem_nil, or_false] at ht
    rcases ht with rfl | rfl | rfl | rfl
    · exact ⟨none, rfl⟩
    · exact ⟨none, rfl⟩
    · exact ⟨"k", rfl⟩
    · exact ⟨"k", rfl⟩
  exact ⟨hallowed, (credits_once_of_run (isNew_fresh _) hallowed).2.2⟩

example : ((World.fresh { now := ⟨0, some 0⟩, step := 1 }).creditCalls .rupees
    Turn.creditTwice).map (fun c => c.isFresh .rupees) = [true, false] := by decide +kernel

end RewardLedger
