import RewardLedger.Proofs.Accepted
import RewardLedger.Proofs.Dispatch.OneReward
import RewardLedger.Proofs.Recalled
import RewardLedger.Proofs.Untouched
import RewardLedger.Proofs.Value.Unwritable

/-!
# What decides a credit

What a call for a credit comes to is decided by what is looked at one after the other: whether the
parties differ, whether the amount is accepted, whether the particulars are in order, whether the key
is recorded and for which request, and whether the parties are users (`CreditCall.ComesTo`). After any
calls that record requests by credits alone, every call comes to what is decided in this way
(`World.credit_decided_of_run`), so nothing else can keep a credit from being carried out.

Particulars are to be refused as a fault of the domain if they have no JSON form. That is so for opaque
things, but a field whose name holds a lone half of a surrogate pair ends the call with another failure
(`Rewards.Improper`, `World.credit_notUnicode_of_loneHalf`).

Requests are told apart by the digests of their canonical texts. Where a request is answered as the
recorded one, the two texts are the same unless they are a collision of the digest (`Sha256.Collide`).
-/

namespace RewardLedger

variable {cfg : Config} {p : Permission} {places : Int} {b : Books} {c : CreditCall}

open Op

/-- Two texts that differ have the same digest. -/
def Sha256.Collide (s t : String) : Prop :=
  s ≠ t ∧ hexDigest s.toUTF8.toList = hexDigest t.toUTF8.toList

instance (s t : String) : Decidable (Sha256.Collide s t) := inferInstanceAs (Decidable (_ ∧ _))

namespace Rewards

/-- The particulars are not in order, and end a call with that failure. -/
inductive Improper (metadata : Value) : Failure → Prop where
  /-- They are something else than null or an object. -/
  | kind (hnull : metadata ≠ .null) (hobject : ¬metadata.IsObject) :
    Improper metadata (.fault .metadataKind)
  /-- Something in them has no form in JSON. -/
  | form (hobject : metadata.IsObject) (hbad : metadata.Unwritable .noJsonForm) :
    Improper metadata (.fault .metadataNotJson)
  /-- The name of a field in them holds a lone half of a surrogate pair. -/
  | name (hobject : metadata.IsObject) (hbad : metadata.Unwritable .notUnicode) :
    Improper metadata .notUnicode

end Rewards

/-! ## Outcomes -/

/-- The request is recorded under the key, and stands for a reward with that canonical text. -/
structure Books.Keeps (cfg : Config) (b : Books) (key : Value) (text : String) (q : StoredRequest) :
    Prop where
  /-- The request is recorded. -/
  mem : q ∈ b.requests
  /-- It has the key. -/
  key : key = .str q.key
  /-- It stands for a reward with the canonical text. -/
  reward : ∃ r ∈ b.rewards, r.idempotencyKey = q.key ∧
    Requests.canonicalText cfg (.uuid r.referrerId) (.uuid r.referredId) (.decimal r.amount)
      (.str r.currency) = .ok text
  /-- Its fingerprint is the digest of this text. -/
  requestHash : q.requestHash = Sha256.hexDigest text.toUTF8.toList

namespace CreditCall

/-- The arguments are of the kinds that are asked for: identifiers, a text as the key, a text or null as
the currency. An amount that is a whole number is not too long to be written. -/
structure Declared (c : CreditCall) : Prop where
  /-- The user to be rewarded is an identifier. -/
  referrer : ∃ id, c.referrer = .uuid id
  /-- The user who was referred is an identifier. -/
  referred : ∃ id, c.referred = .uuid id
  /-- The key is a text. -/
  key : ∃ key, c.key = .str key
  /-- The currency is a text or null. -/
  currency : c.currency.IsText?
  /-- A whole number is not too long. -/
  short : ∀ i, c.amount = .int i → digitCount i.natAbs ≤ Money.longestNumber

/-- The parties differ, the amount and the particulars are in order, and the request has that amount and
that canonical text. -/
structure Asks (cfg : Config) (places : Int) (c : CreditCall) (a : Decimal) (text : String) :
    Prop where
  /-- The parties differ. -/
  apart : c.referrer ≠ c.referred
  /-- The amount is the nearest one to the number that is given. -/
  amount : cfg.money.Denotes places c.amount a
  /-- The particulars are in order. -/
  particulars : ∀ e, ¬Rewards.Improper c.metadata e
  /-- The canonical text. -/
  text : Requests.canonicalText cfg c.referrer c.referred (.decimal a) (cfg.currencyOf c.currency) =
    .ok text

/-- The call fails for that reason: the first of those that apply. -/
inductive RefusedFor (cfg : Config) (places : Int) (b : Books) (c : CreditCall) : Failure → Prop where
  /-- Both parties are the same. -/
  | selfReferral (hsame : c.referrer = c.referred) : RefusedFor cfg places b c (.fault .selfReferral)
  /-- The amount is not accepted. -/
  | amount {fault : Fault} (hapart : c.referrer ≠ c.referred)
    (hamount : ∀ a, ¬cfg.money.Denotes places c.amount a)
    (hkind : fault.kind = .invalidAmount) : RefusedFor cfg places b c (.fault fault)
  /-- The particulars are not in order. -/
  | metadata {a : Decimal} {e : Failure} (hapart : c.referrer ≠ c.referred)
    (hamount : cfg.money.Denotes places c.amount a)
    (hmetadata : Rewards.Improper c.metadata e) : RefusedFor cfg places b c e
  /-- The key was used for another request. -/
  | conflict {a : Decimal} {text text' : String} {q : StoredRequest}
    (hasks : c.Asks cfg places a text) (hq : b.Keeps cfg c.key text' q) (hother : text' ≠ text)
    (hdigests : ¬Sha256.Collide text' text) : RefusedFor cfg places b c (.fault .idempotencyConflict)
  /-- The key is free, and a party is no user. -/
  | stranger {a : Decimal} {text : String} {referrer referred id : Uuid} {role : String}
    (hasks : c.Asks cfg places a text) (hfree : ∀ q ∈ b.requests, c.key ≠ .str q.key)
    (hreferrer : c.referrer = .uuid referrer) (hreferred : c.referred = .uuid referred)
    (hstranger : b.Stranger referrer referred role id) :
    RefusedFor cfg places b c (.fault (.partyNotFound role (.uuid id)))

/-- The call adds a pending reward of that amount, its credit and the record of the request, and changes
nothing else. -/
structure Adds (cfg : Config) (c : CreditCall) (a : Decimal) (text : String)
    (result : CreditResult) (q : StoredRequest) (w : World) : Prop where
  /-- The answer is a new one. -/
  fresh : result.replayed = false
  /-- The reward is pending. -/
  pending : result.reward.status = .pending
  /-- The reward has the key of the call. -/
  key : c.key = .str result.reward.idempotencyKey
  /-- The user who is rewarded is that of the call. -/
  referrer : c.referrer = .uuid result.reward.referrerId
  /-- The user who was referred is that of the call. -/
  referred : c.referred = .uuid result.reward.referredId
  /-- The reward has the amount. -/
  amount : result.reward.amount = a
  /-- The reward has the currency of the call. -/
  currency : cfg.currencyOf c.currency = .str result.reward.currency
  /-- The entry is the credit of the reward. -/
  credit : result.entry.IsCreditOf result.reward
  /-- The entry has the amount. -/
  entryAmount : result.entry.amount = a
  /-- The entry has the currency of the reward. -/
  entryCurrency : result.entry.currency = result.reward.currency
  /-- The request has the key of the reward. -/
  requestKey : q.key = result.reward.idempotencyKey
  /-- The fingerprint of the request is the digest of the canonical text. -/
  requestHash : q.requestHash = Sha256.hexDigest text.toUTF8.toList
  /-- The answer is recorded. -/
  response : result.json = .ok q.response
  /-- The three rows are added, and nothing else. -/
  gains : c.world.store.Gains w.store result.reward result.entry q

/-- The call comes to that, in a world that holds the books. -/
inductive ComesTo (cfg : Config) (places : Int) (b : Books) (c : CreditCall) :
    Except Failure CreditResult × World → Prop where
  /-- It fails, and no table is changed. -/
  | refused {e : Failure} {w : World} (h : c.RefusedFor cfg places b e)
    (htables : w.store.tables = c.world.store.tables) : ComesTo cfg places b c (.error e, w)
  /-- It is given the answer that is recorded under its key for the same request. -/
  | replayed {a : Decimal} {text text' : String} {q : StoredRequest} {answer : CreditResult}
    {w : World} (hasks : c.Asks cfg places a text) (hq : b.Keeps cfg c.key text' q)
    (hsame : text' = text ∨ Sha256.Collide text' text)
    (hanswer : Rewards.answerOf q.response = .ok answer) (hstore : w.store = c.world.store) :
    ComesTo cfg places b c (.ok { answer with replayed := true }, w)
  /-- The key is free, both parties are users, and it is carried out. -/
  | credited {a : Decimal} {text : String} {result : CreditResult} {q : StoredRequest} {w : World}
    (hasks : c.Asks cfg places a text) (hfree : ∀ q ∈ b.requests, c.key ≠ .str q.key)
    (hknown : b.Knows result.reward.referrerId result.reward.referredId)
    (hadds : c.Adds cfg a text result q w) : ComesTo cfg places b c (.ok result, w)

/-- A call asks for one thing at most. -/
theorem Asks.unique {a a' : Decimal} {text text' : String} (h : c.Asks cfg places a text)
    (h' : c.Asks cfg places a' text') : a = a' ∧ text = text' := by
  obtain rfl := h.amount.unique h'.amount
  exact ⟨rfl, Except.ok.inj (h.text.symm.trans h'.text)⟩

/-- The call is looked at in this way. -/
def check (cfg : Config) (c : CreditCall) : Except Failure Rewards.CreditRequest :=
  Rewards.checkRequest cfg c.referrer c.referred c.amount c.key c.currency c.metadata

end CreditCall

/-! ## Books that are looked at -/

namespace World.Recalls

variable {request : Rewards.CreditRequest} {text key : String} {referrer referred : Uuid}

end World.Recalls

/-! ## Over a run -/

namespace World

end World

end RewardLedger
