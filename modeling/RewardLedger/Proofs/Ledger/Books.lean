import Mathlib.Logic.Relation
import RewardLedger.Proofs.Ledger.Rows
import RewardLedger.Proofs.Money
import RewardLedger.Proofs.Operation

/-!
# The books and their steps

What a store holds, as records: the books. Every operation moves the books along by steps
(`Books.Step`), each of which says all that it changes and under which conditions, so that a property
of the books that every step keeps holds after every run. Which steps there can be depends on what
may be asked from outside (`Permission`).

`World.Holds` ties a world to books: the store is sound and declared as it should be, its rows stand
for the records of the books, and a transaction that is open leads back to where it started.
`World.Undone` is what is left to say after a failure: inside a transaction only that it can be taken
back, outside of one that nothing has happened but that identifiers were given out. `ends_atomic` is
the one place where the two meet.
-/

namespace RewardLedger

/-! ## Books -/

/-- All records that a store holds, and how many identifiers have been given out. -/
structure Books where
  /-- The users, in the order in which they were added. -/
  users : List User := []
  /-- The ledger entries, in the order in which they were added. -/
  entries : List LedgerEntry := []
  /-- The rewards, in the order in which they were added. -/
  rewards : List Reward := []
  /-- The recorded requests, in the order in which they were added. -/
  requests : List StoredRequest := []
  /-- The number of identifiers given out. -/
  issued : Nat := 0
  deriving Repr, Inhabited

/-- What may be asked from outside. -/
structure Permission where
  /-- Entries of that type may be posted by hand, with that reward and that entry to take back. -/
  posts : EntryType → Option Uuid → Option Uuid → Prop
  /-- Entries of rewards may be taken back by hand on behalf of the reward. -/
  onBehalf : Prop
  /-- Requests may be recorded by hand. -/
  records : Prop

/-- The entry, made void if it is the one with the identifier. -/
def LedgerEntry.voided (id : Uuid) (e : LedgerEntry) : LedgerEntry :=
  if e.id = id then { e with status := .void } else e

namespace LedgerEntry

/-- Making an entry void changes only whether it counts. -/
theorem voided_eq (id : Uuid) (e : LedgerEntry) :
    e.voided id = { e with status := (e.voided id).status } := by
  unfold voided
  split <;> rfl

/-- Making an entry void keeps its identifier. -/
@[simp] theorem voided_id (id : Uuid) (e : LedgerEntry) : (e.voided id).id = e.id := by
  rw [voided_eq]

/-- Making an entry void keeps the reward that it belongs to. -/
@[simp] theorem voided_rewardId (id : Uuid) (e : LedgerEntry) :
    (e.voided id).rewardId = e.rewardId := by
  rw [voided_eq]

/-- Making an entry void leaves the others as they are. -/
theorem voided_of_ne {id : Uuid} {e : LedgerEntry} (h : e.id ≠ id) : e.voided id = e := if_neg h

/-- Making an entry void makes it void. -/
theorem voided_self (e : LedgerEntry) : e.voided e.id = { e with status := .void } := if_pos rfl

end LedgerEntry

/-- The reward, changed if it is the one with the identifier. -/
def Reward.changed (id : Uuid) (change : Reward → Reward) (r : Reward) : Reward :=
  if r.id = id then change r else r

namespace Reward

/-- Changing a reward without its identifier keeps the identifiers of rewards. -/
theorem changed_id {f : Reward → Reward} (hf : ∀ r, (f r).id = r.id) (id : Uuid) (r : Reward) :
    (r.changed id f).id = r.id := by
  unfold changed
  split
  · exact hf r
  · rfl

/-- Changing a reward leaves the others as they are. -/
theorem changed_of_ne {id : Uuid} {r : Reward} (h : r.id ≠ id) (f : Reward → Reward) :
    r.changed id f = r := if_neg h

/-- Changing a reward changes it. -/
theorem changed_self (r : Reward) (f : Reward → Reward) : r.changed r.id f = f r := if_pos rfl

end Reward

/-- The user, renamed if it is the one with the identifier. -/
def User.renamed (id : Uuid) (name : Option String) (u : User) : User :=
  if u.id = id then { u with name } else u

/-- The text names a currency itself, so that the usual one does not stand in for it. -/
def Config.Names (cfg : Config) (currency : String) : Prop :=
  cfg.currencyOf (.str currency) = .str currency

/-- A currency that a value was taken to name is named by its text. -/
theorem Config.names_of_currencyOf {cfg : Config} {v : Value} {currency : String}
    (h : cfg.currencyOf v = .str currency) : cfg.Names currency := by
  unfold Names Config.currencyOf Value.orElse at *
  by_cases ht : (Value.str currency).truthy = true
  · rw [if_pos ht]
  · rw [if_neg ht]
    by_cases hv : v.truthy = true
    · rw [if_pos hv] at h
      rw [h] at hv
      exact absurd hv ht
    · rw [if_neg hv] at h
      exact h

namespace Books

/-- There is a user with the identifier. -/
def HasUser (b : Books) (id : Uuid) : Prop := ∃ u ∈ b.users, u.id = id

/-- Both parties are users. -/
def Knows (b : Books) (referrer referred : Uuid) : Prop := b.HasUser referrer ∧ b.HasUser referred

/-- The entry may be posted: its identifier is a new one, its user is there, its amount is settled,
its currency is named, and what it takes back is there and counts. -/
structure CanPost (cfg : Config) (b : Books) (e : LedgerEntry) : Prop where
  /-- The identifier is a new one. -/
  fresh : b.issued < e.id.value
  /-- The user is there. -/
  user : ∃ u ∈ b.users, u.id = e.userId
  /-- The amount is settled. -/
  amount : cfg.money.Settled e.amount
  /-- The currency is named. -/
  currency : cfg.Names e.currency
  /-- The entry counts. -/
  posted : e.status = .posted
  /-- What it takes back is there and counts. -/
  target : ∀ id, e.reversalOf = some id → ∃ o ∈ b.entries, o.id = id ∧ o.status = .posted

/-- The entry takes the other one back. -/
structure Reverses (reversal e : LedgerEntry) : Prop where
  /-- It is a reversal. -/
  entryType : reversal.entryType = .reversal
  /-- It concerns the same user. -/
  userId : reversal.userId = e.userId
  /-- It belongs to the same reward. -/
  rewardId : reversal.rewardId = e.rewardId
  /-- It has the same amount. -/
  amount : reversal.amount = e.amount
  /-- It has the same currency. -/
  currency : reversal.currency = e.currency
  /-- It points at the entry. -/
  reversalOf : reversal.reversalOf = some e.id

/-- The reward has been credited by the entry, the request has been recorded with the answer, and
nothing else has happened but that identifiers were given out. -/
structure Credited (cfg : Config) (b b' : Books) (r : Reward) (e : LedgerEntry)
    (q : StoredRequest) : Prop where
  /-- The reward, the entry and the request stand behind the others. -/
  eq : b' = { b with
    rewards := b.rewards ++ [r], entries := b.entries ++ [e], requests := b.requests ++ [q],
    issued := b'.issued }
  /-- The identifier of the reward is a new one. -/
  fresh : b.issued < r.id.value
  /-- The identifier of the reward has been given out. -/
  le : r.id.value ≤ b'.issued
  /-- No reward has the key. -/
  keyFree : ∀ r' ∈ b.rewards, r'.idempotencyKey ≠ r.idempotencyKey
  /-- No request with the key is recorded. -/
  requestFree : ∀ q' ∈ b.requests, q'.key ≠ r.idempotencyKey
  /-- The reward starts as pending. -/
  pending : r.status = .pending
  /-- The amount is settled. -/
  settled : cfg.money.Settled r.amount
  /-- The user who was referred is there. -/
  party : ∃ u ∈ b.users, u.id = r.referredId
  /-- The entry could be posted. -/
  can : b.CanPost cfg e
  /-- The identifier of the entry has been given out. -/
  entryLe : e.id.value ≤ b'.issued
  /-- The entry is a credit. -/
  entryType : e.entryType = .credit
  /-- The entry concerns the user who is rewarded. -/
  userId : e.userId = r.referrerId
  /-- The entry belongs to the reward. -/
  rewardId : e.rewardId = some r.id
  /-- The entry has the amount of the reward. -/
  amount : e.amount = r.amount
  /-- The entry has the currency of the reward. -/
  currency : e.currency = r.currency
  /-- The entry takes nothing back. -/
  reversalOf : e.reversalOf = none
  /-- The request has the key of the reward. -/
  key : q.key = r.idempotencyKey
  /-- The request has the fingerprint of the reward. -/
  requestHash : Requests.fingerprint cfg (.uuid r.referrerId) (.uuid r.referredId)
    (.decimal r.amount) (.str r.currency) = .ok q.requestHash
  /-- The answer is that to a request that is new. -/
  response : (CreditResult.mk r e false).json = .ok q.response

/-- The reversal is posted and the entry that it takes back is void. -/
def reversed (b : Books) (e reversal : LedgerEntry) (n : Nat) : Books :=
  { b with entries := (b.entries ++ [reversal]).map (.voided e.id), issued := n }

/-- The reward is changed. -/
def withReward (b : Books) (id : Uuid) (change : Reward → Reward) : Books :=
  { b with rewards := b.rewards.map (.changed id change) }

/-- One step of the books. -/
inductive Step (cfg : Config) (p : Permission) : Books → Books → Prop where
  /-- Identifiers are given out. -/
  | issue {b : Books} {n : Nat} (hn : b.issued ≤ n) : Step cfg p b { b with issued := n }
  /-- A user is added. -/
  | addUser {b : Books} {u : User} {n : Nat} (hid : b.issued < u.id.value) (hn : u.id.value ≤ n) :
    Step cfg p b { b with users := b.users ++ [u], issued := n }
  /-- A user gets another name. -/
  | rename {b : Books} {id : Uuid} {name : Option String} :
    Step cfg p b { b with users := b.users.map (.renamed id name) }
  /-- An entry is posted by hand. -/
  | post {b : Books} {e : LedgerEntry} {n : Nat} (hp : p.posts e.entryType e.rewardId e.reversalOf)
    (he : b.CanPost cfg e) (hn : e.id.value ≤ n) :
    Step cfg p b { b with entries := b.entries ++ [e], issued := n }
  /-- An entry is taken back. -/
  | takeBack {b : Books} {e reversal : LedgerEntry} {n : Nat} (he : e ∈ b.entries)
    (hp : e.rewardId = none ∨ p.onBehalf) (hposted : e.status = .posted)
    (hfree : ∀ o ∈ b.entries, o.reversalOf ≠ some e.id) (hr : Reverses reversal e)
    (hpost : b.CanPost cfg reversal) (hn : reversal.id.value ≤ n) :
    Step cfg p b (b.reversed e reversal n)
  /-- A reward is credited. -/
  | credit {b b' : Books} {r : Reward} {e : LedgerEntry} {q : StoredRequest}
    (h : Credited cfg b b' r e q) : Step cfg p b b'
  /-- A reward is confirmed. -/
  | confirm {b : Books} {r : Reward} {now : Instant} (hr : r ∈ b.rewards)
    (hmove : r.status.canMove .confirmed = true) :
    Step cfg p b (b.withReward r.id fun r =>
      { r with status := .confirmed, confirmedAt := some now })
  /-- A reward is paid out. -/
  | pay {b : Books} {r : Reward} {e : LedgerEntry} {now : Instant} {n : Nat} (hr : r ∈ b.rewards)
    (hmove : r.status.canMove .paid = true) (hpost : b.CanPost cfg e) (hn : e.id.value ≤ n)
    (htype : e.entryType = .debit) (huser : e.userId = r.referrerId)
    (htag : e.rewardId = some r.id) (hamount : e.amount = r.amount)
    (hcurrency : e.currency = r.currency) (hof : e.reversalOf = none) :
    Step cfg p b ({ b with entries := b.entries ++ [e], issued := n }.withReward r.id fun r =>
      { r with status := .paid, paidAt := some now })
  /-- A reward is taken back, together with a credit of it. -/
  | reverse {b : Books} {r : Reward} {e reversal : LedgerEntry} {now : Instant}
    {reason : Option String} {n : Nat} (hr : r ∈ b.rewards)
    (hmove : r.status.canMove .reversed = true) (he : e ∈ b.entries)
    (htag : e.rewardId = some r.id) (htype : e.entryType = .credit)
    (hposted : e.status = .posted) (hfree : ∀ o ∈ b.entries, o.reversalOf ≠ some e.id)
    (hreverses : Reverses reversal e) (hpost : b.CanPost cfg reversal)
    (hn : reversal.id.value ≤ n) :
    Step cfg p b ((b.reversed e reversal n).withReward r.id fun r =>
      { r with status := .reversed, reversedAt := some now, reversalReason := reason })
  /-- A request is recorded by hand. -/
  | record {b : Books} {q : StoredRequest} (hp : p.records)
    (hkey : ∀ q' ∈ b.requests, q'.key ≠ q.key) :
    Step cfg p b { b with requests := b.requests ++ [q] }

/-- Any number of steps of the books. -/
def Steps (cfg : Config) (p : Permission) : Books → Books → Prop :=
  Relation.ReflTransGen (Step cfg p)

/-- The identifiers of the records have been given out, the amounts are settled, and the currencies
are named. -/
structure Proper (cfg : Config) (b : Books) : Prop where
  /-- The identifiers of users have been given out. -/
  users : ∀ u ∈ b.users, u.id.value ≤ b.issued
  /-- The identifiers of entries have been given out. -/
  entries : ∀ e ∈ b.entries, e.id.value ≤ b.issued
  /-- The identifiers of rewards have been given out. -/
  rewards : ∀ r ∈ b.rewards, r.id.value ≤ b.issued
  /-- The amounts of entries are settled. -/
  entryAmounts : ∀ e ∈ b.entries, cfg.money.Settled e.amount
  /-- The amounts of rewards are settled. -/
  rewardAmounts : ∀ r ∈ b.rewards, cfg.money.Settled r.amount
  /-- The currencies of entries are named. -/
  entryCurrencies : ∀ e ∈ b.entries, cfg.Names e.currency
  /-- The currencies of rewards are named. -/
  rewardCurrencies : ∀ r ∈ b.rewards, cfg.Names r.currency

/-- Giving out identifiers keeps books proper. -/
theorem Proper.issue {cfg : Config} {b : Books} (h : b.Proper cfg) {n : Nat}
    (hn : b.issued ≤ n) : Proper cfg { b with issued := n } where
  users u hu := Nat.le_trans (h.users u hu) hn
  entries e he := Nat.le_trans (h.entries e he) hn
  rewards r hr := Nat.le_trans (h.rewards r hr) hn
  entryAmounts := h.entryAmounts
  rewardAmounts := h.rewardAmounts
  entryCurrencies := h.entryCurrencies
  rewardCurrencies := h.rewardCurrencies

/-- Adding a user keeps books proper. -/
theorem Proper.addUser {cfg : Config} {b : Books} (h : b.Proper cfg) {u : User} {n : Nat}
    (hn : b.issued ≤ n) (hid : u.id.value ≤ n) :
    Proper cfg { b with users := b.users ++ [u], issued := n } := by
  have hissue := h.issue hn
  exact ⟨forall_mem_concat hissue.users hid, hissue.entries, hissue.rewards, h.entryAmounts,
    h.rewardAmounts, h.entryCurrencies, h.rewardCurrencies⟩

/-- Renaming users keeps books proper. -/
theorem Proper.renamed {cfg : Config} {b : Books} (h : b.Proper cfg) (id : Uuid)
    (name : Option String) :
    Proper cfg { b with users := b.users.map (.renamed id name) } := by
  refine ⟨fun x hx => ?_, h.entries, h.rewards, h.entryAmounts, h.rewardAmounts,
    h.entryCurrencies, h.rewardCurrencies⟩
  obtain ⟨y, hy, rfl⟩ := List.mem_map.1 hx
  have hid : (y.renamed id name).id = y.id := by
    unfold User.renamed
    split <;> rfl
  rw [hid]
  exact h.users y hy

/-- An identifier that has not been given out is that of no reward. -/
theorem Proper.reward_ne {cfg : Config} {b : Books} (h : b.Proper cfg) {id : Uuid}
    (hid : b.issued < id.value) : ∀ r ∈ b.rewards, r.id ≠ id := by
  rintro r hr rfl
  exact absurd (h.rewards r hr) (Nat.not_le_of_lt hid)

/-- Adding a reward with a settled amount and a named currency keeps books proper. -/
theorem Proper.addReward {cfg : Config} {b : Books} (h : b.Proper cfg) {r : Reward} {n : Nat}
    (hn : b.issued ≤ n) (hid : r.id.value ≤ n) (hamount : cfg.money.Settled r.amount)
    (hcurrency : cfg.Names r.currency) :
    Proper cfg { b with rewards := b.rewards ++ [r], issued := n } := by
  have hissue := h.issue hn
  exact ⟨hissue.users, hissue.entries, forall_mem_concat hissue.rewards hid, h.entryAmounts,
    forall_mem_concat h.rewardAmounts hamount, h.entryCurrencies,
    forall_mem_concat h.rewardCurrencies hcurrency⟩

/-- Changing a reward without its identifier, its amount and its currency keeps books proper. -/
theorem Proper.withReward {cfg : Config} {b : Books} (h : b.Proper cfg) {id : Uuid}
    {f : Reward → Reward} (hid : ∀ r, (f r).id = r.id) (hamount : ∀ r, (f r).amount = r.amount)
    (hcurrency : ∀ r, (f r).currency = r.currency) : (b.withReward id f).Proper cfg := by
  have hrewards : ∀ x ∈ (b.withReward id f).rewards,
      ∃ y ∈ b.rewards, x.id = y.id ∧ x.amount = y.amount ∧ x.currency = y.currency := by
    intro x hx
    obtain ⟨y, hy, rfl⟩ := List.mem_map.1 hx
    unfold Reward.changed
    split
    · exact ⟨y, hy, hid y, hamount y, hcurrency y⟩
    · exact ⟨y, hy, rfl, rfl, rfl⟩
  refine ⟨h.users, h.entries, fun x hx => ?_, h.entryAmounts, fun x hx => ?_, h.entryCurrencies,
    fun x hx => ?_⟩
  · obtain ⟨y, hy, heq, -, -⟩ := hrewards x hx
    rw [heq]
    exact h.rewards y hy
  · obtain ⟨y, hy, -, heq, -⟩ := hrewards x hx
    rw [heq]
    exact h.rewardAmounts y hy
  · obtain ⟨y, hy, -, -, heq⟩ := hrewards x hx
    rw [heq]
    exact h.rewardCurrencies y hy

/-- Recording a request keeps books proper. -/
theorem Proper.record {cfg : Config} {b : Books} (h : b.Proper cfg) (q : StoredRequest) :
    Proper cfg { b with requests := b.requests ++ [q] } :=
  ⟨h.users, h.entries, h.rewards, h.entryAmounts, h.rewardAmounts, h.entryCurrencies,
    h.rewardCurrencies⟩

/-- The rows of the store stand for the records of the books. -/
structure Held (b : Books) (s : Store) : Prop where
  /-- The rows of users. -/
  users : s.Lists b.users
  /-- The rows of entries. -/
  entries : s.Lists b.entries
  /-- The rows of rewards. -/
  rewards : s.Lists b.rewards
  /-- The rows of recorded requests. -/
  requests : s.Lists b.requests

/-- A store that is alike holds the same books. -/
theorem Held.of_alike {b : Books} {s s' : Store} (h : b.Held s) (ha : s'.Alike s) : b.Held s' :=
  ⟨h.users.of_alike ha, h.entries.of_alike ha, h.rewards.of_alike ha, h.requests.of_alike ha⟩

/-- A store with the same tables holds the same books. -/
theorem Held.of_tables_eq {b : Books} {s s' : Store} (h : b.Held s) (ht : s'.tables = s.tables) :
    b.Held s' :=
  h.of_alike (.of_tables_eq ht)

end Books

/-! ## Worlds -/

/-- The tables are declared as those of the ledger. -/
def Store.Declared (s : Store) : Prop :=
  ∀ name, (s.table? name).map Table.schema = (Store.ledger.table? name).map Table.schema

/-- A table of the store is declared as the one of the ledger. -/
theorem Store.Declared.schema_eq {s : Store} (h : s.Declared) (name : String) {t t₀ : Table}
    (ht : s.table? name = some t) (ht₀ : Store.ledger.table? name = some t₀) :
    t.schema = t₀.schema := by
  have hd := h name
  rw [ht, ht₀] at hd
  exact Option.some.inj hd

/-- What fits a table of the ledger fits the table of the store that is declared as that one. -/
theorem Store.Declared.fitsTable {s : Store} (h : s.Declared) {name : String} {t₀ : Table}
    (ht₀ : Store.ledger.table? name = some t₀) {row : Fields}
    (hkey : KeyKind.OrNull Value.IsPlain (row.get t₀.primaryKey))
    (hindexes : ∀ ix ∈ t₀.schema.indexes, row.FitsKey Value.IsPlain ix.2) :
    s.FitsTable Value.IsPlain name row := by
  intro t ht
  have hschema := h.schema_eq name ht ht₀
  rw [show t.primaryKey = t₀.primaryKey from congrArg Schema.primaryKey hschema, hschema]
  exact ⟨hkey, hindexes⟩

/-- A store that follows is declared in the same way. -/
theorem Store.Declared.follows {K : Value → Prop} {s s' : Store} (h : s.Declared)
    (hs : s.Follows K s') : s'.Declared :=
  fun name => (hs.schema_eq name).trans (h name)

/-- Without a base no transaction is open; with one, an open transaction leads back to it. -/
def Store.Within (base : Option Store) (s : Store) : Prop :=
  match base with
  | none => s.undo = none
  | some s₀ => Store.Since Value.IsPlain s₀ s

namespace World

/-- The world holds the books, and a transaction is open if there is a base for it. -/
structure Holds (cfg : Config) (base : Option Store) (b : Books) (w : World) : Prop where
  /-- The store is sound. -/
  sound : w.store.Sound Value.IsPlain
  /-- The tables are declared as those of the ledger. -/
  declared : w.store.Declared
  /-- The rows stand for the records. -/
  held : b.Held w.store
  /-- The identifiers are counted. -/
  issued : b.issued = w.issued
  /-- The books are proper. -/
  proper : b.Proper cfg
  /-- A transaction is open if there is a base for it. -/
  within : w.store.Within base

/-- What is left to say after a failure: in a transaction it can be taken back, and outside of one
nothing has happened but that identifiers were given out. -/
def Undone (cfg : Config) (base : Option Store) (b : Books) (w : World) : Prop :=
  match base with
  | none => ∃ n, b.issued ≤ n ∧ w.Holds cfg none { b with issued := n }
  | some s₀ => w.store.Sound Value.IsPlain ∧ Store.Since Value.IsPlain s₀ w.store ∧
      w.store.Declared ∧ b.issued ≤ w.issued

variable {cfg : Config} {base : Option Store} {b b' : Books} {w w' : World}

/-- Only the store and the number of identifiers matter for what a world holds. -/
theorem Holds.congr (h : w.Holds cfg base b) (hs : w'.store = w.store)
    (hi : w'.issued = w.issued) : w'.Holds cfg base b := by
  obtain ⟨h1, h2, h3, h4, h5, h6⟩ := h
  exact ⟨hs ▸ h1, hs ▸ h2, hs ▸ h3, h4.trans hi.symm, h5, hs ▸ h6⟩

/-- In a world that holds the books nothing has happened. -/
theorem Holds.undone (h : w.Holds cfg base b) : w.Undone cfg base b := by
  cases base with
  | none => exact ⟨b.issued, Nat.le_refl _, h⟩
  | some s₀ => exact ⟨h.sound, h.within, h.declared, Nat.le_of_eq h.issued⟩

/-- What is undone after identifiers were given out is undone before that. -/
theorem Undone.of_issue {n : Nat} (hn : b.issued ≤ n) (h : w.Undone cfg base { b with issued := n }) :
    w.Undone cfg base b := by
  cases base with
  | none =>
    obtain ⟨m, hm, hw⟩ := h
    exact ⟨m, Nat.le_trans hn hm, hw⟩
  | some s₀ => exact ⟨h.1, h.2.1, h.2.2.1, Nat.le_trans hn h.2.2.2⟩

/-- What can be taken back can be taken back to books with fewer identifiers given out. -/
theorem Undone.of_le {s₀ : Store} (hi : b.issued ≤ b'.issued) (h : w.Undone cfg (some s₀) b') :
    w.Undone cfg (some s₀) b :=
  ⟨h.1, h.2.1, h.2.2.1, Nat.le_trans hi h.2.2.2⟩

/-- The books with more identifiers given out. -/
theorem Holds.issue (h : w.Holds cfg base b) {n : Nat} (hn : w.issued ≤ n) :
    ({ w with issued := n } : World).Holds cfg base { b with issued := n } where
  sound := h.sound
  declared := h.declared
  held := ⟨h.held.users, h.held.entries, h.held.rewards, h.held.requests⟩
  issued := rfl
  proper := h.proper.issue (h.issued ▸ hn)
  within := h.within

/-- Inside a transaction another one opens nothing. -/
theorem enter_of_within {s₀ : Store} (h : w.store.Within (some s₀)) : w.enter = w := by
  obtain ⟨us, hus, -⟩ : ∃ us, w.store.undo = some us ∧ _ := h
  exact enter_of_inTransaction (Option.isSome_iff_exists.2 ⟨us, hus⟩)

/-- Opening a transaction leads from a world that holds books to one that does. -/
theorem Holds.enter (h : w.Holds cfg base b) :
    w.enter.Holds cfg (some (base.getD w.store)) b := by
  cases base with
  | none =>
    rw [enter_of_undo_none h.within]
    exact ⟨h.sound.of_tables_eq rfl (Nat.le_refl _), h.declared, h.held.of_tables_eq rfl, h.issued,
      h.proper, Store.since_opened w.store⟩
  | some s₀ =>
    rw [enter_of_within h.within]
    exact h

/-- A transaction that is part of another one is closed with that one. -/
theorem leave_of_within {s₀ : Store} (h : w.store.Within (some s₀)) (keep : Bool) :
    World.leave w w' keep = w' := by
  obtain ⟨us, hus, -⟩ : ∃ us, w.store.undo = some us ∧ _ := h
  exact leave_of_inTransaction (Option.isSome_iff_exists.2 ⟨us, hus⟩) keep

/-- Keeping a transaction leads from a world that holds books to one that does. -/
theorem Holds.leave (h : w.Holds cfg base b)
    (h' : w'.Holds cfg (some (base.getD w.store)) b') :
    (World.leave w w' true).Holds cfg base b' := by
  cases base with
  | none =>
    rw [leave_kept h.within]
    exact ⟨h'.sound.of_tables_eq rfl (Nat.le_refl _), h'.declared, h'.held.of_tables_eq rfl,
      h'.issued, h'.proper, rfl⟩
  | some s₀ =>
    rw [leave_of_within h.within]
    exact h'

/-- Giving a transaction up that is not part of another one leads back to the books before it, but
for the identifiers. -/
theorem Holds.rollBack (h : w.Holds cfg none b) (h' : w'.Undone cfg (some w.store) b) :
    (World.leave w w' false).Holds cfg none { b with issued := w'.issued } := by
  obtain ⟨hsound, hsince, -, hissued⟩ := h'
  obtain ⟨hsound', halike, hundo⟩ := hsince.rolledBack hsound
  rw [leave_givenUp h.within]
  refine ⟨hsound', fun name => ?_, ?_, rfl, h.proper.issue hissued, hundo⟩
  · have hfollows : w.store.Follows Value.IsPlain { w'.store.rolledBack with undo := none } :=
      .of_alike h.sound (hsound'.of_tables_eq rfl (Nat.le_refl _)) halike h.within.symm
    exact (hfollows.schema_eq name).trans (h.declared name)
  · have hheld := h.held.of_alike halike
    exact ⟨hheld.users, hheld.entries, hheld.rewards, hheld.requests⟩

/-- Giving a transaction up leads back to the books before it, but for the identifiers. -/
theorem Undone.leave (h : w.Holds cfg base b)
    (h' : w'.Undone cfg (some (base.getD w.store)) b) :
    (World.leave w w' false).Undone cfg base b := by
  cases base with
  | none => exact ⟨_, h'.2.2.2, h.rollBack h'⟩
  | some s₀ =>
    rw [leave_of_within h.within]
    exact h'

end World

namespace Op

variable {α : Type} {cfg : Config} {base : Option Store} {b : Books} {w : World}

/-- A transaction on books ends well if its body does inside the transaction; if the body fails, so
that what it did can be taken back, it is. -/
theorem ends_atomic {op : Op α} {Q : α → Books → Prop} (h : w.Holds cfg base b)
    (hop : op.Ends w.enter
      (fun a w' => ∃ b', w'.Holds cfg (some (base.getD w.store)) b' ∧ Q a b')
      fun _ w' => w'.Undone cfg (some (base.getD w.store)) b) :
    (transaction op).Ends w (fun a w' => ∃ b', w'.Holds cfg base b' ∧ Q a b')
      fun _ w' => w'.Undone cfg base b := by
  refine ends_transaction (hop.mono ?_ fun _ _ hundone => hundone.leave h)
  rintro a w' ⟨b', hw', hQ⟩
  exact ⟨b', h.leave hw', hQ⟩

end Op

end RewardLedger
