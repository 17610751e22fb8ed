import RewardLedger.Proofs.Http.Origin
import RewardLedger.Proofs.Ledger.Added
import RewardLedger.Proofs.Value.Sendable

/-!
# Replies to requests for a reward

A request for a reward is answered in one of three ways (`Http.Outcome`). A reward was created, and
the reply shows it with the status 201. Or the request had been answered before, nothing was changed,
and the reply shows the recorded answer with the status 200. Or nothing was changed and the reply
refuses, with another status and without a reward.

A reply with a reward that was created can be sent, since the texts in it come from the request, from
the program, or from the settings if the request names no currency (`NewReward.IsWhole.sendable`).
-/

namespace RewardLedger

variable {cfg : Config} {b : Books} {w : World}

open Op Text

namespace Http

/-! ## What a reply tells -/

/-- The status with which a reply is sent. -/
def Reply.status : Reply → Nat
  | .json status _ => status
  | .invalid _ => 422
  | .redirect => 307
  | .crash _ => 500

/-- The body of the reply is a reward and its entry. -/
def Reply.Shows (reply : Reply) (r : Reward) (e : LedgerEntry) : Prop :=
  ∃ status replayed body, reply = .json status body ∧ (CreditResult.mk r e replayed).json = .ok body

/-- The reply says neither that a reward was created nor that it was created before, and shows none. -/
structure Reply.Refuses (reply : Reply) : Prop where
  /-- No reward was created. -/
  not_created : reply.status ≠ 201
  /-- None was created before. -/
  not_again : reply.status ≠ 200
  /-- None is shown. -/
  not_shows : ∀ r e, ¬reply.Shows r e

namespace Reply

end Reply

/-! ## What is asked for -/

/-- The body of the request is the form. -/
def Request.Asks (request : Request) (form : NewReward) : Prop :=
  ∃ body fields, request.body = some body ∧ body.read = .ok (some (.object fields)) ∧
    NewReward.read fields = .valid form

section

variable {α : Type} {fs : Fields} {name : String} {check : Check α} {a : α}

end

namespace NewReward

variable {form : NewReward}

end NewReward

/-- How a request for a reward can be answered, and what comes of it. -/
inductive Outcome (cfg : Config) (b : Books) (before : World) (request : Request) :
    Reply → World → Prop where
  /-- A reward was created. -/
  | created {form : NewReward} {r : Reward} {e : LedgerEntry} {q : StoredRequest} {b' : Books}
    {after : World} {body : Value} (hasks : request.Asks form) (hreferrer : r.referrerId = form.referrer)
    (hkey : q.key = form.key) (hcredited : b.Credited cfg b' r e q)
    (hgains : before.store.Gains after.store r e q)
    (hbody : (CreditResult.mk r e false).json = .ok body) :
    Outcome cfg b before request (.json 201 body) after
  /-- The request had been answered before. -/
  | again {form : NewReward} {q : StoredRequest} {answer : CreditResult} {after : World}
    {body : Value} (hasks : request.Asks form) (hq : q ∈ b.requests) (hkey : q.key = form.key)
    (hanswer : Rewards.answerOf q.response = .ok answer)
    (hbody : CreditResult.json { answer with replayed := true } = .ok body)
    (hsame : after.store.Alike before.store) : Outcome cfg b before request (.json 200 body) after
  /-- Nothing was changed. -/
  | refused {reply : Reply} {after : World} (hrefuses : reply.Refuses)
    (hsame : after.store.Alike before.store) : Outcome cfg b before request reply after

namespace Server

/-- What the route does for a form. -/
def credited (cfg : Config) (form : NewReward) : Op Answer := do
  let result ← Rewards.credit cfg (.uuid form.referrer) (.uuid form.referred) (.decimal form.amount)
    (.str form.key) (Routes.textOrNull form.currency) (.object form.metadata)
  return ⟨if result.replayed then 200 else 201, ← Op.ofExcept result.json⟩

end Server

end Http

end RewardLedger
