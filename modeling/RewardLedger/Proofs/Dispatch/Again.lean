import RewardLedger.Proofs.Dispatch.Reports
import RewardLedger.Proofs.Ledger.Standing

/-!
# Dispatching again

Once actions have been carried out for an event, what became of each of them rests on the users and
on the recorded requests alone (`Books.Settles`). So as long as rewards are only moved on, entries
taken back and rules edited, the same actions for the same event come to the same again, and no
table is changed (`World.dispatch_again_of_run`).

The key under which the reward of an action is requested tells the version of the rule and the
event, whatever the event is called (`Dispatch.rewardKey_inj`).
-/

namespace RewardLedger

variable {cfg : Config} {b b' : Books} {w : World} {referrer referred : Uuid} {event : String}

open Op

/-! ## Keys -/

namespace Dispatch

/-- What stands in front of the first colon, and what stands behind it. -/
theorem append_colon_inj {a a' rest rest' : List Char} (ha : ':' ∉ a) (ha' : ':' ∉ a')
    (h : a ++ ':' :: rest = a' ++ ':' :: rest') : a = a' ∧ rest = rest' := by
  have hfirst : ∀ {cs ds : List Char}, ':' ∉ cs → (cs ++ ':' :: ds).takeWhile (· ≠ ':') = cs := by
    intro cs ds hcs
    have hall : ∀ c ∈ cs, (decide (c ≠ ':')) = true := fun c hc =>
      decide_eq_true fun heq => hcs (heq ▸ hc)
    rw [List.takeWhile_append_of_pos hall, List.takeWhile_cons]
    simp
  have heq : a = a' := (hfirst ha).symm.trans ((congrArg _ h).trans (hfirst ha'))
  subst heq
  exact ⟨rfl, (List.cons.inj (List.append_cancel_left h)).2⟩

/-- The number of a version is written without a colon. -/
theorem colon_notMem_intText (n : Int) : ':' ∉ intText n := fun h => by
  rcases mem_intText h with h | h
  · cases h
  · exact absurd h (by decide)

/-- The characters of the key of an action. -/
theorem toList_rewardKey {t : TriggeredAction} {id : Uuid} {n : Int} (hid : t.ruleId = .uuid id)
    (hn : t.ruleVersion = .int n) (event : String) :
    (rewardKey t (.str event)).toList =
      "rule:".toList ++ (id.chars ++ (":v".toList ++ (intText n ++ ':' :: event.toList))) := by
  have hn' : (Value.int n).plain = intText n := by
    show (Value.int n).literal = _
    unfold Value.literal
    rfl
  rw [rewardKey, hid, hn, Value.plainText_str]
  simp only [Value.plainText, String.toList_append, String.toList_ofList, List.append_assoc, hn']
  rfl

/-- Actions of different versions, or for different events, have different keys. -/
theorem rewardKey_inj {t t' : TriggeredAction} {id id' : Uuid} {n n' : Int} {event event' : String}
    (hid : t.ruleId = .uuid id) (hid' : t'.ruleId = .uuid id') (hn : t.ruleVersion = .int n)
    (hn' : t'.ruleVersion = .int n') (hbits : id.Portable) (hbits' : id'.Portable)
    (h : rewardKey t (.str event) = rewardKey t' (.str event')) :
    id = id' ∧ n = n' ∧ event = event' := by
  have hchars := congrArg String.toList h
  rw [toList_rewardKey hid hn, toList_rewardKey hid' hn'] at hchars
  have hlength : id.chars.length = id'.chars.length := by
    rw [Uuid.length_chars, Uuid.length_chars]
  obtain ⟨hids, hrest⟩ := List.append_inj (List.append_cancel_left hchars) hlength
  obtain ⟨hversions, hevents⟩ := append_colon_inj (colon_notMem_intText n)
    (colon_notMem_intText n') (List.append_cancel_left hrest)
  refine ⟨?_, intText_injective hversions, String.toList_injective hevents⟩
  exact (Uuid.text_inj hbits hbits').1 (congrArg String.ofList hids)

end Dispatch

/-! ## Telling the same -/

namespace ActionStatus

/-- The identifiers of the reward that was credited for an action and of its entry. -/
def ids? : ActionStatus → Option (Uuid × Uuid)
  | executed (.credited result) => some (result.reward.id, result.entry.id)
  | _ => none

/-- Both tell the same of an action: what became of it, the message of its failure, and the
identifiers of its reward and of the entry. -/
structure TellsSame (s s' : ActionStatus) : Prop where
  /-- The same became of the action. -/
  name : s'.name = s.name
  /-- The messages are the same. -/
  error : s'.error = s.error
  /-- The identifiers are the same. -/
  ids : s'.ids? = s.ids?

/-- No new reward was credited for the action. -/
def IsOld : ActionStatus → Prop
  | executed (.credited result) => result.replayed = true
  | _ => True

/-- The instants that are shown by a reward that was credited for an action, unless it had been
credited before. -/
def newInstants : ActionStatus → List Instant
  | executed (.credited result) => if result.replayed then [] else result.instants
  | _ => []

end ActionStatus

/-- Both outcomes are of the same action and tell the same of it. -/
structure Outcome.TellsSame (o o' : Outcome) : Prop where
  /-- The action is the same. -/
  action : o'.action = o.action
  /-- The same is told of it. -/
  status : o.status.TellsSame o'.status

/-! ## Asking for a reward -/

namespace Dispatch

variable {t : TriggeredAction}

/-- The request for the reward of an action, once it has been looked at. -/
def checkReward (cfg : Config) (referrer referred : Uuid) (event : String) (t : TriggeredAction) :
    Except Failure Rewards.CreditRequest :=
  match Fields.find? t.action.params "amount" with
  | none => .error (.fault .amountMissing)
  | some amount =>
    Rewards.checkRequest cfg (.uuid referrer) (.uuid referred) (actionAmount amount)
      (.str (rewardKey t (.str event))) (Fields.get t.action.params "currency")
      (rewardMetadata t (.str event))

/-- A request for a reward that is answered stands in the way in which it was answered, in later
books. The identifiers that were given out must have 128 bits, and the instants of a new answer must
exist. -/
theorem ends_creditReward_answered (h : w.Holds cfg none b) (hrecorded : b.Recorded)
    (hcontext : cfg.money.context.greatest ≤ Decimal.greatestExponent) :
    (creditReward cfg ⟨.uuid referrer, .uuid referred, .str event⟩ t).Ends w
      (fun result w' => ∃ b', w'.Holds cfg none b' ∧ b'.Recorded ∧ b.LaterBetween referrer referred b' ∧
        (w'.issued < 2 ^ 128 → (result.replayed = false → ∀ t ∈ result.instants, t.Valid) →
          b'.Answers referrer referred (rewardKey t (.str event))
            (checkReward cfg referrer referred event t) (.ok (result.reward.id, result.entry.id))))
      fun e w' => e.isDuplicate = false ∧
        ∃ b', w'.Holds cfg none b' ∧ b'.Recorded ∧ b.LaterBetween referrer referred b' ∧
          ∀ fault, e = .fault fault → b'.Answers referrer referred (rewardKey t (.str event))
            (checkReward cfg referrer referred event t) (.error fault) := by
  unfold creditReward checkReward
  cases Fields.find? t.action.params "amount" with
  | none =>
    refine ends_refuse ⟨rfl, b, h, hrecorded, .refl b, ?_⟩
    rintro _ ⟨⟩
    exact .disorderly _
  | some amount => exact Rewards.ends_credit_answered h hrecorded hcontext

/-- A request for a reward that stands refused is refused, and no table is changed. -/
theorem ends_creditReward_of_refused (h : w.Holds cfg none b) (hrecorded : b.Recorded) {fault : Fault}
    (hanswers : b.Answers referrer referred (rewardKey t (.str event))
      (checkReward cfg referrer referred event t) (.error fault)) :
    (creditReward cfg ⟨.uuid referrer, .uuid referred, .str event⟩ t).Ends w (fun _ _ => False)
      fun e w' => e = .fault fault ∧ w'.HoldsBeside cfg none b ∧
        w'.store.tables = w.store.tables := by
  unfold checkReward at hanswers
  unfold creditReward
  cases hamount : Fields.find? t.action.params "amount" with
  | none =>
    rw [hamount] at hanswers
    cases hanswers
    exact ends_refuse ⟨rfl, h.beside, rfl⟩
  | some amount =>
    rw [hamount] at hanswers
    exact Rewards.ends_credit_of_refused h hrecorded hanswers

/-- A request for a reward that stands answered is given its answer, and no table is changed. -/
theorem ends_creditReward_of_granted (h : w.Holds cfg none b) (hrecorded : b.Recorded)
    {ids : Uuid × Uuid}
    (hanswers : b.Answers referrer referred (rewardKey t (.str event))
      (checkReward cfg referrer referred event t) (.ok ids)) :
    (creditReward cfg ⟨.uuid referrer, .uuid referred, .str event⟩ t).Ends w
      (fun result w' => result.replayed = true ∧ ids = (result.reward.id, result.entry.id) ∧
        w'.HoldsBeside cfg none b ∧ w'.store.tables = w.store.tables)
      fun _ _ => False := by
  unfold checkReward at hanswers
  unfold creditReward
  cases hamount : Fields.find? t.action.params "amount" with
  | none =>
    rw [hamount] at hanswers
    cases hanswers
  | some amount =>
    rw [hamount] at hanswers
    exact Rewards.ends_credit_of_granted h hrecorded hanswers

end Dispatch

namespace Handlers

/-- Rewards are credited by what is built in. -/
theorem find?_builtIn_createReward : builtIn.find? Action.createReward = some .creditReward := rfl

/-- Nothing else is carried out by what is built in. -/
theorem find?_builtIn_of_ne {type : String} (h : type ≠ Action.createReward) :
    builtIn.find? type = none := by
  unfold builtIn Handlers.find?
  rw [List.find?_cons]
  split
  · rename_i hsame
    exact absurd (of_decide_eq_true hsame).symm h
  · rfl

end Handlers

/-! ## Settled actions -/

/-- What became of an action is settled by the books. -/
inductive Books.Settles (cfg : Config) (b : Books) (referrer referred : Uuid) (event : String)
    (t : TriggeredAction) : ActionStatus → Prop where
  /-- The action has no handler. -/
  | skipped (hfind : Handlers.builtIn.find? t.action.type = none) :
    Settles cfg b referrer referred event t .skipped
  /-- The request for the reward stands refused. -/
  | refused {fault : Fault} (hfind : Handlers.builtIn.find? t.action.type = some .creditReward)
    (hanswers : b.Answers referrer referred (Dispatch.rewardKey t (.str event))
      (Dispatch.checkReward cfg referrer referred event t) (.error fault)) :
    Settles cfg b referrer referred event t (.failed fault.message)
  /-- The request for the reward stands answered. -/
  | credited {result : CreditResult}
    (hfind : Handlers.builtIn.find? t.action.type = some .creditReward)
    (hanswers : b.Answers referrer referred (Dispatch.rewardKey t (.str event))
      (Dispatch.checkReward cfg referrer referred event t) (.ok (result.reward.id, result.entry.id))) :
    Settles cfg b referrer referred event t (.executed (.credited result))

/-- LaterBetween books settle an action in the same way. -/
theorem Books.Settles.later {t : TriggeredAction} {status : ActionStatus}
    (h : b.Settles cfg referrer referred event t status)
    (hlater : b.LaterBetween referrer referred b') :
    b'.Settles cfg referrer referred event t status := by
  cases h with
  | skipped hfind => exact .skipped hfind
  | refused hfind hanswers => exact .refused hfind (hanswers.later hlater)
  | credited hfind hanswers => exact .credited hfind (hanswers.later hlater)

namespace Dispatch

variable {t : TriggeredAction}

/-- Carrying an action out settles it. -/
theorem ends_carryOut_settled (h : w.Holds cfg none b) (hrecorded : b.Recorded)
    (hcontext : cfg.money.context.greatest ≤ Decimal.greatestExponent) (t : TriggeredAction) :
    (carryOut cfg .builtIn ⟨.uuid referrer, .uuid referred, .str event⟩ t).Ends w
      (fun status w' => ∃ b', w'.Holds cfg none b' ∧ b'.Recorded ∧ b.LaterBetween referrer referred b' ∧
        (w'.issued < 2 ^ 128 → (∀ t ∈ status.newInstants, t.Valid) →
          b'.Settles cfg referrer referred event t status))
      fun _ _ => True := by
  unfold carryOut
  by_cases htype : t.action.type = Action.createReward
  swap
  · have hfind := Handlers.find?_builtIn_of_ne htype
    rw [hfind]
    exact ends_pure ⟨b, h, hrecorded, .refl b, fun _ _ => .skipped hfind⟩
  have hfind : Handlers.builtIn.find? t.action.type = some .creditReward := by
    rw [htype, Handlers.find?_builtIn_createReward]
  rw [hfind]
  refine ends_tryCatch (ends_map (ends_map
    ((ends_creditReward_answered h hrecorded hcontext).mono ?_ ?_)))
  · rintro result w' ⟨b', hw', hrecorded', hlater, hanswers⟩
    refine ⟨b', hw', hrecorded', hlater, fun hissued hinstants => ?_⟩
    refine .credited hfind (hanswers hissued fun hfresh => ?_)
    rwa [ActionStatus.newInstants, hfresh] at hinstants
  · rintro e w' ⟨hduplicate, b', hw', hrecorded', hlater, hanswers⟩
    -- a fault is what the books answer, and other failures end the dispatch
    cases e with
    | fault fault =>
      rw [recordFailure_of_isFault rfl rfl]
      exact ends_bind (ends_log (ends_pure ⟨b', hw'.congr rfl rfl, hrecorded', hlater,
        fun _ _ => .refused hfind (hanswers fault rfl)⟩))
    | duplicate => cases hduplicate
    | _ => exact ends_throw trivial

/-- An action that is settled comes to the same when it is carried out again: no reward is new, and
no table is changed. -/
theorem ends_carryOut_of_settles (h : w.Holds cfg none b) (hrecorded : b.Recorded)
    {status : ActionStatus} (hsettles : b.Settles cfg referrer referred event t status) :
    (carryOut cfg .builtIn ⟨.uuid referrer, .uuid referred, .str event⟩ t).Ends w
      (fun status' w' => status.TellsSame status' ∧ status'.IsOld ∧ w'.HoldsBeside cfg none b ∧
        w'.store.tables = w.store.tables)
      fun _ _ => False := by
  unfold carryOut
  cases hsettles with
  | skipped hfind =>
    rw [hfind]
    exact ends_pure ⟨⟨rfl, rfl, rfl⟩, trivial, h.beside, rfl⟩
  | refused hfind hanswers =>
    rw [hfind]
    refine ends_tryCatch (ends_map (ends_map
      ((ends_creditReward_of_refused h hrecorded hanswers).mono (fun _ _ hgood => hgood.elim) ?_)))
    rintro _ w' ⟨rfl, ⟨n, hn, hw'⟩, htables⟩
    rw [recordFailure_of_isFault rfl rfl]
    exact ends_bind (ends_log (ends_pure
      ⟨⟨rfl, rfl, rfl⟩, trivial, ⟨n, hn, hw'.congr rfl rfl⟩, htables⟩))
  | credited hfind hanswers =>
    rw [hfind]
    refine ends_tryCatch (ends_map (ends_map
      ((ends_creditReward_of_granted h hrecorded hanswers).mono ?_ fun _ _ hbad => hbad.elim)))
    rintro result w' ⟨hreplayed, hids, hw', htables⟩
    exact ⟨⟨rfl, rfl, congrArg some hids.symm⟩, hreplayed, hw', htables⟩

/-- Carrying actions out settles all of them. -/
theorem ends_run_settled (h : w.Holds cfg none b) (hrecorded : b.Recorded)
    (hcontext : cfg.money.context.greatest ≤ Decimal.greatestExponent)
    (actions : List TriggeredAction) :
    (run cfg .builtIn actions ⟨.uuid referrer, .uuid referred, .str event⟩).Ends w
      (fun outcomes w' => ∃ b', w'.Holds cfg none b' ∧ b'.Recorded ∧
        b.LaterBetween referrer referred b' ∧ outcomes.map Outcome.action = actions ∧
        (w'.issued < 2 ^ 128 → (∀ o ∈ outcomes, ∀ t ∈ o.status.newInstants, t.Valid) →
          ∀ o ∈ outcomes, b'.Settles cfg referrer referred event o.action o.status))
      fun _ _ => True := by
  induction actions generalizing w b with
  | nil =>
    rw [run_nil]
    exact ends_pure ⟨b, h, hrecorded, .refl b, rfl, fun _ _ o ho => absurd ho List.not_mem_nil⟩
  | cons t rest ih =>
    rw [run_cons]
    refine ends_bind ((ends_carryOut_settled h hrecorded hcontext t).mono ?_ fun _ _ he => he)
    rintro status w₁ ⟨b₁, hw₁, hrecorded₁, hlater₁, hsettles⟩
    refine ends_bind ((ih hw₁ hrecorded₁).mono ?_ fun _ _ he => he)
    rintro outcomes w₂ ⟨b₂, hw₂, hrecorded₂, hlater₂, hactions, hall⟩
    refine ends_pure ⟨b₂, hw₂, hrecorded₂, hlater₁.trans hlater₂,
      congrArg (t :: ·) hactions, fun hissued hinstants => ?_⟩
    rw [List.forall_mem_cons] at hinstants ⊢
    -- no fewer identifiers have been given out in the end
    have hissued₁ : w₁.issued < 2 ^ 128 := by
      have hle := hlater₂.issued
      rw [hw₁.issued, hw₂.issued] at hle
      exact Nat.lt_of_le_of_lt hle hissued
    exact ⟨(hsettles hissued₁ hinstants.1).later hlater₂, hall hissued hinstants.2⟩

/-- Actions that are settled come to the same when they are carried out again: no reward is new, and
no table is changed. -/
theorem ends_run_of_settles (h : w.Holds cfg none b) (hrecorded : b.Recorded)
    {outcomes : List Outcome}
    (hsettles : ∀ o ∈ outcomes, b.Settles cfg referrer referred event o.action o.status) :
    (run cfg .builtIn (outcomes.map Outcome.action)
        ⟨.uuid referrer, .uuid referred, .str event⟩).Ends w
      (fun outcomes' w' => List.Forall₂ Outcome.TellsSame outcomes outcomes' ∧
        (∀ o ∈ outcomes', o.status.IsOld) ∧ w'.HoldsBeside cfg none b ∧
        w'.store.tables = w.store.tables)
      fun _ _ => False := by
  induction outcomes generalizing w b with
  | nil =>
    rw [List.map_nil, run_nil]
    exact ends_pure ⟨.nil, fun o ho => absurd ho List.not_mem_nil, h.beside, rfl⟩
  | cons o rest ih =>
    rw [List.forall_mem_cons] at hsettles
    rw [List.map_cons, run_cons]
    refine ends_bind ((ends_carryOut_of_settles h hrecorded hsettles.1).mono ?_ fun _ _ he => he)
    rintro status w₁ ⟨hsame, hold, ⟨n, hn, hw₁⟩, htables₁⟩
    have hlater : b.LaterBetween referrer referred { b with issued := n } := .issue hn
    refine ends_bind ((ih hw₁ hrecorded fun o' ho' => (hsettles.2 o' ho').later hlater).mono ?_
      fun _ _ he => he)
    rintro outcomes' w₂ ⟨hall, hallOld, ⟨n', hn', hw₂⟩, htables₂⟩
    exact ends_pure ⟨.cons ⟨rfl, hsame⟩ hall, List.forall_mem_cons.2 ⟨hold, hallOld⟩,
      ⟨n', Nat.le_trans hn hn', hw₂⟩, htables₂.trans htables₁⟩

end Dispatch

/-! ## Over a run -/

/-- Dispatching an event again changes nothing. Whatever was called before, and whatever the actions
are: if a dispatch without further handlers returned outcomes, and rewards were then moved on,
entries taken back and rules edited in whatever way, the same dispatch returns outcomes that tell
the same, without a new reward, and no table is changed. No more identifiers may have been given out
than there are, and the instants that the rewards show must exist. Besides, actions of different
versions or for different events have different keys. -/
theorem World.dispatch_again_of_run (hw : w.IsNew)
    (hcontext : cfg.money.context.greatest ≤ Decimal.greatestExponent) {earlier later : List Turn}
    (hearlier : ∀ t ∈ earlier, t.call.Allowed .full)
    (hlater : ∀ t ∈ later, t.call.Allowed .full ∧ t.call.IsInPlace) {actions : List TriggeredAction}
    {clock : Clock} {outcomes : List Outcome} {w₁ : World}
    (hfirst : (Dispatch.run cfg .builtIn actions ⟨.uuid referrer, .uuid referred, .str event⟩).perform
      { w.run cfg earlier with clock } = (.ok outcomes, w₁))
    (hissued : w₁.issued < 2 ^ 128)
    (hinstants : ∀ o ∈ outcomes, ∀ t ∈ o.status.newInstants, t.Valid) (clock' : Clock) :
    (∃ outcomes' w', (Dispatch.run cfg .builtIn actions
          ⟨.uuid referrer, .uuid referred, .str event⟩).perform
            { w₁.run cfg later with clock := clock' } = (.ok outcomes', w') ∧
        List.Forall₂ Outcome.TellsSame outcomes outcomes' ∧ (∀ o ∈ outcomes', o.status.IsOld) ∧
        w'.store.tables = (w₁.run cfg later).store.tables) ∧
      ∀ (t t' : TriggeredAction) (id id' : Uuid) (n n' : Int) (event event' : String),
        t.ruleId = .uuid id → t'.ruleId = .uuid id' → t.ruleVersion = .int n →
        t'.ruleVersion = .int n' → id.Portable → id'.Portable →
        Dispatch.rewardKey t (.str event) = Dispatch.rewardKey t' (.str event') →
        id = id' ∧ n = n' ∧ event = event' := by
  refine ⟨?_, fun t t' id id' n n' event event' => Dispatch.rewardKey_inj⟩
  obtain ⟨b, hsteps, hb⟩ := (hw.holds : w.Holds cfg none {}).run hearlier
  have hworld : ({ w.run cfg earlier with clock } : World).Holds cfg none b := hb.congr rfl rfl
  -- what the first dispatch came to is settled by the books that it left
  obtain ⟨b₁, hw₁, hrecorded₁, -, rfl, hsettles⟩ :=
    (Dispatch.ends_run_settled hworld (Books.Recorded.empty.steps hsteps) hcontext
      actions).good_of_ok hfirst
  -- what came in between added no reward and no request, so it is settled still
  obtain ⟨b₂, hplace, hw₂⟩ := hw₁.inPlace_run hlater
  have hlater₂ : b₁.LaterBetween referrer referred b₂ :=
    .of_sameStanding hplace.same hplace.steps.issued_le
  have hworld₂ : ({ w₁.run cfg later with clock := clock' } : World).Holds cfg none b₂ :=
    hw₂.congr rfl rfl
  have hagain := Dispatch.ends_run_of_settles hworld₂ (hrecorded₁.steps hplace.steps)
    fun o ho => (hsettles hissued hinstants o ho).later hlater₂
  cases hrun : (Dispatch.run cfg .builtIn (outcomes.map Outcome.action)
      ⟨.uuid referrer, .uuid referred, .str event⟩).perform
        { w₁.run cfg later with clock := clock' } with
  | mk result w' =>
    cases result with
    | error e => exact (hagain.bad_of_error hrun).elim
    | ok outcomes' =>
      obtain ⟨hsame, hold, -, htables⟩ := hagain.good_of_ok hrun
      exact ⟨outcomes', w', rfl, hsame, hold, htables⟩

/-- The reward that was credited for the first of assorted actions is given again after it was
confirmed and paid out, and what was refused is refused again. -/
theorem World.dispatch_again_of_assorted :
    let w : World := { (fresh .early).run .rupees (Turn.twoUsers 0) with clock := .early }
    let dispatch := Dispatch.run .rupees .builtIn Dispatch.assorted Dispatch.betweenTwo
    let later : List Turn := [⟨.early, .confirmReward (.uuid ⟨3⟩)⟩, ⟨.early, .payReward (.uuid ⟨3⟩)⟩]
    ∃ outcomes w₁ outcomes' w', dispatch.perform w = (.ok outcomes, w₁) ∧
      dispatch.perform { w₁.run .rupees later with clock := .early } = (.ok outcomes', w') ∧
      List.Forall₂ Outcome.TellsSame outcomes outcomes' ∧
      outcomes.map (·.status.ids?) = [some (⟨3⟩, ⟨4⟩), none, none, none] ∧
      w'.store.tables = (w₁.run .rupees later).store.tables := by
  intro w dispatch later
  have hrun : (dispatch.perform w).1.toOption.map (fun os =>
      (os.map (·.status.ids?), os.flatMap (·.status.newInstants))) =
        some ([some (⟨3⟩, ⟨4⟩), none, none, none], [⟨0, some 0⟩, ⟨1, some 0⟩]) := by decide +kernel
  have hissued : (dispatch.perform w).2.issued = 4 := by decide +kernel
  have hlater : ∀ t ∈ later, t.call.Allowed .full ∧ t.call.IsInPlace := by
    intro t ht
    simp only [later, List.mem_cons, List.not_mem_nil, or_false] at ht
    rcases ht with rfl | rfl <;> exact ⟨trivial, trivial⟩
  cases hfirst : dispatch.perform w with
  | mk result w₁ =>
    rw [hfirst] at hrun hissued
    cases result with
    | error e => cases hrun
    | ok outcomes =>
      obtain ⟨hids, hshown⟩ := Prod.mk.inj (Option.some.inj hrun)
      -- the two instants that are shown were read at Greenwich
      have hinstants : ∀ o ∈ outcomes, ∀ t ∈ o.status.newInstants, t.Valid := by
        intro o ho t ht
        have hmem : t ∈ outcomes.flatMap (·.status.newInstants) := List.mem_flatMap.2 ⟨o, ho, ht⟩
        simp only [hshown, List.mem_cons, List.not_mem_nil, or_false] at hmem
        rcases hmem with rfl | rfl <;> exact Instant.valid_of_utc (by decide) rfl
      have hbits : w₁.issued < 2 ^ 128 := by
        rw [hissued]
        decide
      obtain ⟨⟨outcomes', w', hagain, hsame, -, htables⟩, -⟩ := dispatch_again_of_run
        (isNew_fresh .early) (by decide) (Turn.allowed_twoUsers 0) hlater hfirst hbits hinstants .early
      exact ⟨outcomes, w₁, outcomes', w', rfl, hagain, hsame, hids, htables⟩

end RewardLedger
