import RewardLedger.Proofs.Ledger.Effect
import RewardLedger.Proofs.Ledger.Posting

/-!
# Crediting rewards

A request for a credit adds a reward, its credit and the record of the request, all in one
transaction, or is answered as it was answered before (`Books.CreditOutcome`). A request whose
currency is no text cannot be carried out: its rows are added and cannot be read as records, so the
transaction is taken back (`keeps_createCredit`).

A taken key can be found in two places only, in the rewards and among the recorded requests, and
looking for a recorded request comes first. So where every reward has a recorded request, no credit
ever ends with a violated unique constraint (`ends_credit`).
-/

namespace RewardLedger

variable {cfg : Config} {p : Permission} {base : Option Store} {s₀ : Store} {b b' : Books}
  {w w' : World}

open Op

/-! ## What is to be taken back anyway -/

/-- Inside a transaction another one adds nothing. -/
theorem keeps_transaction {α : Type} {op : Op α} (h : op.Keeps (World.Undone cfg (some s₀) b)) :
    (transaction op).Keeps (World.Undone cfg (some s₀) b) := by
  intro w hw
  have hwithin : w.store.Within (some s₀) := hw.2.1
  refine ends_transaction ?_
  rw [World.enter_of_within hwithin]
  refine (h w hw).mono ?_ ?_
  · intro _ w' hw'
    rwa [World.leave_of_within hwithin]
  · intro _ w' hw'
    rwa [World.leave_of_within hwithin]

/-- A row whose keys are of the kind can be added and taken back. -/
theorem keeps_insert {name : String} {row : Fields}
    (hf : ∀ s : Store, s.Declared → s.FitsTable Value.IsPlain name row) :
    (change (Store.insert name row)).Keeps (World.Undone cfg (some s₀) b) := by
  rintro w ⟨hsound, hsince, hdeclared, hissued⟩
  refine ends_change (fun columns s hrun => ?_) fun e s hrun => ?_
  · have hfollows := Store.follows_of_run_insert hsound (hf _ hdeclared) hrun
    exact ⟨hfollows.sound, hfollows.since s₀ hsince, hdeclared.follows hfollows, hissued⟩
  · have hfollows := Store.follows_of_run_insert hsound (hf _ hdeclared) hrun
    exact ⟨hfollows.sound, hfollows.since s₀ hsince, hdeclared.follows hfollows, hissued⟩

namespace Ledger

/-- An entry that takes nothing back can be added and taken back, whatever it is made from. -/
theorem keeps_createEntry {user entryType amount : Value} {details : EntryDetails}
    (hof : details.reversalOf = .null) :
    (createEntry cfg user entryType amount details).Keeps (World.Undone cfg (some s₀) b) := by
  have hrests := World.restsOnStore_undone cfg (some s₀) b
  have hnone : details.reversalOf = .ofUuid? none := hof
  refine keeps_bind (keeps_ofExcept _) fun value => ?_
  refine keeps_bind (keeps_transaction ?_) fun stored => ?_
  · refine keeps_bind (keeps_requireUser _) fun _ => ?_
    rw [hof]
    refine keeps_bind (keeps_pure _) fun _ => ?_
    refine keeps_bind (keeps_freshId hrests) fun id => ?_
    refine keeps_bind (keeps_ofExcept _) fun metadata => ?_
    refine keeps_bind (keeps_readClock hrests) fun now => ?_
    exact keeps_onDuplicate (keeps_insert fun s hs => fitsTable_entryRow hs hnone)
      (keeps_refuse _)
  · refine keeps_bind (keeps_ofExcept _) fun name => ?_
    exact keeps_bind (keeps_log hrests _ _ _) fun _ => keeps_ofExcept _

/-- A credit that takes nothing back can be added and taken back, whatever it is made from. -/
theorem keeps_createCredit {user amount : Value} {details : EntryDetails}
    (hof : details.reversalOf = .null) :
    (createCredit cfg user amount details).Keeps (World.Undone cfg (some s₀) b) :=
  keeps_bind (keeps_ofExcept _) fun _ => keeps_createEntry hof

end Ledger

/-! ## Requests -/

namespace Requests

/-- What is known of a request is the request that is recorded with its key, if there is one; a request
with another fingerprint is refused. -/
theorem ends_check (h : w.Holds cfg base b) (key hash : String) :
    (check (.str key) (.str hash)).Ends w
      (fun standing w' => w' = w ∧ match standing with
        | .fresh => ∀ q ∈ b.requests, q.key ≠ key
        | .answered response => ∃ q ∈ b.requests, q.key = key ∧ q.requestHash = hash ∧
          q.response = response)
      fun e w' => w'.Holds cfg base b ∧ e = .fault .idempotencyConflict ∧
        ∃ q ∈ b.requests, q.key = key ∧ q.requestHash ≠ hash := by
  have hhashable : (Value.str key).hashable = true := rfl
  obtain ⟨found, hget⟩ := h.held.requests.exists_get hhashable
  refine ends_bind (ends_query_ok hget ?_)
  cases found with
  | none =>
    refine ends_pure ⟨rfl, fun q hq hkey => ?_⟩
    exact h.held.requests.of_get_none h.sound hget q hq (congrArg Value.str hkey.symm)
  | some columns =>
    obtain ⟨q, hq, hrow, hkey⟩ := h.held.requests.of_get_some h.sound hget
    have hrow : q.IsRow columns := hrow
    have hkey : q.key = key := (Value.str.inj hkey).symm
    -- the request that is found is answered if it has the fingerprint, and refused if not
    have hsame : columns.columnIs "request_hash" (.str hash) =
        .ok ((Value.str q.requestHash).sameKey (.str hash)) := by
      rw [Fields.columnIs, Fields.column, hrow.requestHash]
      exact Value.equalTo_str _ _
    have hresponse : columns.column "response" = .ok q.response := by
      rw [Fields.column, hrow.response]
    refine ends_bind (ends_ofExcept_ok hsame ?_)
    cases heq : (Value.str q.requestHash).sameKey (.str hash) with
    | false =>
      refine ends_bind (ends_log (ends_refuse ⟨h.congr rfl rfl, rfl, q, hq, hkey, ?_⟩))
      rintro rfl
      exact absurd (heq.symm.trans (Value.sameKey_str_iff.2 rfl)) Bool.false_ne_true
    | true =>
      refine ends_bind (ends_ofExcept_ok hresponse (ends_pure ⟨rfl, q, hq, hkey, ?_, rfl⟩))
      exact (Value.str.inj (Value.sameKey_str_iff.1 heq)).symm

/-- The row of a request that is being recorded. -/
def recordRow (key hash : String) (response : Value) (now expiry : Instant) : Fields :=
  [("key", .str key), ("request_hash", .str hash), ("response", response),
    ("created_at", .instant now), ("expires_at", .instant expiry)]

/-- The row of a request has a key that the table of requests can have. -/
theorem fitsTable_recordRow {s : Store} (h : s.Declared) (key hash : String) (response : Value)
    (now expiry : Instant) :
    s.FitsTable Value.IsPlain requestsTable (recordRow key hash response now expiry) :=
  h.fitsTable rfl (by exact Or.inr trivial) fun _ hix => nomatch hix

/-- The table of requests has the keys of the requests as its primary keys, and no indexes. -/
theorem schema_requests (h : w.Holds cfg base b) {t : Table}
    (ht : w.store.table? requestsTable = some t) :
    t.primaryKey = "key" ∧ t.schema.indexes = [] :=
  have hschema := h.schema_eq requestsTable ht rfl
  ⟨congrArg Schema.primaryKey hschema, congrArg Schema.indexes hschema⟩

/-- If no row is found under a key, no recorded request has it. -/
theorem keyFree_of_find? (h : w.Holds cfg base b) {t : Table}
    (ht : w.store.table? requestsTable = some t) {key : String}
    (hfree : t.find? (.str key) = none) : ∀ q ∈ b.requests, q.key ≠ key := by
  intro q hq hkey
  obtain ⟨row, hrow, hR⟩ := h.held.requests.exists_row ht hq
  have hne := Table.find?_none hfree row hrow
  rw [Store.key_eq_keyOf (h.sound _ t ht).1 (schema_requests h ht).1 hrow hR] at hne
  have hsame : (Value.str q.key).sameKey (.str key) = true :=
    Value.sameKey_str_iff.2 (congrArg Value.str hkey.symm)
  exact absurd (hne.symm.trans hsame) Bool.false_ne_true

/-- Only a recorded request with the key is in the way of a request. -/
theorem exists_key_of_duplicate (h : w.Holds cfg base b) {key hash : String} {response : Value}
    {now expiry : Instant} {table index : String} {taken : List Value} {s : Store}
    (hrun : (Store.insert requestsTable (recordRow key hash response now expiry)).run.run w.store =
      (.error (.duplicate table index taken), s)) : ∃ q ∈ b.requests, q.key = key := by
  obtain ⟨t, ht, row, hrow, hcase⟩ := Store.of_run_insert_duplicate h.sound
    (fitsTable_recordRow h.declared key hash response now expiry) hrun
  obtain ⟨hprimary, hindexes⟩ := schema_requests h ht
  obtain ⟨q, hq, hQ⟩ := h.held.requests.exists_record ht hrow
  rcases hcase with hsame | ⟨ix, hix, -⟩
  · rw [Store.key_eq_keyOf (h.sound _ t ht).1 hprimary hrow hQ, hprimary] at hsame
    exact ⟨q, hq, (Value.str.inj (Value.sameKey_str_iff.1 hsame)).symm⟩
  · rw [hindexes] at hix
    cases hix

/-- Recording a request with an object as its answer records it, if none is recorded with its key. -/
theorem ends_record (h : w.Holds cfg base b) (key hash : String) (answer : Fields) :
    (record cfg (.str key) (.str hash) (.object answer)).Ends w
      (fun _ w' => ∃ q, w'.Holds cfg base { b with requests := b.requests ++ [q] } ∧
        q.key = key ∧ q.requestHash = hash ∧ q.response = .object answer ∧
        ∀ q' ∈ b.requests, q'.key ≠ key)
      fun e w' => w'.Holds cfg base b ∧
        (e.isDuplicate = true → ∃ q ∈ b.requests, q.key = key) := by
  refine ends_bind (ends_readClock (fun now clock _ => ?_) fun _ => ⟨h, fun he => nomatch he⟩)
  have hread : ({ w with clock } : World).Holds cfg base b := h.congr rfl rfl
  cases now.later? cfg.retention with
  | none => exact ends_throw ⟨hread, fun he => nomatch he⟩
  | some expiry =>
    refine ends_bind (ends_insert hread (fitsTable_recordRow h.declared _ _ _ _ _) ?_ ?_)
    · -- the key was free, as the row has been added under it
      intro t columns ht hfree _ hcolumns hfollows
      let q : StoredRequest := ⟨key, hash, .object answer, now, expiry⟩
      have hrow : q.IsRow columns := by
        rw [hcolumns]
        exact ⟨rfl, rfl, rfl, rfl, rfl⟩
      have hheld : ∀ key, Books.Held { b with requests := b.requests ++ [q] }
          (w.store.inserted requestsTable key columns) := fun key =>
        ⟨h.held.users.inserted_of_ne (by decide) _ _,
          h.held.entries.inserted_of_ne (by decide) _ _,
          h.held.rewards.inserted_of_ne (by decide) _ _, h.held.requests.inserted hrow key⟩
      have hholds := hread.follows hfollows (hheld _) h.issued (h.proper.record q)
      have hrecord : recordOf columns = .ok ⟨key, hash, answer, now, expiry⟩ := by
        rw [hcolumns]
        rfl
      rw [(schema_requests h ht).1] at hfree
      rw [hrecord]
      exact ends_ofExcept (fun _ _ => ⟨q, hholds, rfl, rfl, rfl, keyFree_of_find? h ht hfree⟩)
        fun _ he => nomatch he
    · intro e s hrun hs
      refine ⟨hs, fun he => ?_⟩
      cases e with
      | duplicate table index taken => exact exists_key_of_duplicate h hrun
      | _ => cases he

end Requests

/-! ## Adding a reward -/

/-- A reward has the key that its row has in the index. -/
theorem Reward.IsRow.hasKey_iff {r : Reward} {columns : Fields} (h : r.IsRow columns)
    (key : String) :
    columns.hasKey ["idempotency_key"] [.str key] = true ↔ r.idempotencyKey = key := by
  have hget : columns.get "idempotency_key" = .str r.idempotencyKey := by
    rw [Fields.get, h.idempotencyKey]
    rfl
  rw [Fields.hasKey, Fields.keyIn?, List.map_singleton, hget]
  simp [Value.isNull, Value.sameKeys, Value.sameKey_str]

/-- The reward has the parties, the amount and the currency of the request. -/
structure Reward.Meets (r : Reward) (request : Rewards.CreditRequest) : Prop where
  /-- The user who is rewarded is the same. -/
  referrer : request.referrer = .uuid r.referrerId
  /-- The user who was referred is the same. -/
  referred : request.referred = .uuid r.referredId
  /-- The amount is the same. -/
  amount : r.amount = request.amount
  /-- The currency is the same. -/
  currency : request.currency = .str r.currency

/-- The reward is one that can be added for the request, its identifier being one of the first that
are given out. -/
structure Books.Begins (b : Books) (request : Rewards.CreditRequest) (r : Reward) (n : Nat) : Prop where
  /-- The identifier is a new one. -/
  fresh : b.issued < r.id.value
  /-- The identifier has been given out. -/
  le : r.id.value ≤ n
  /-- The key is that of the request. -/
  key : request.key = .str r.idempotencyKey
  /-- No reward has the key. -/
  keyFree : ∀ r' ∈ b.rewards, r'.idempotencyKey ≠ r.idempotencyKey
  /-- The reward starts as pending. -/
  pending : r.status = .pending
  /-- It is what the request asks for. -/
  meets : r.Meets request

namespace Rewards

/-- The row of a reward that is being added. -/
def rewardRow (id : Uuid) (request : CreditRequest) (now : Instant) : Fields :=
  [("id", .uuid id), ("idempotency_key", request.key), ("referrer_id", request.referrer),
    ("referred_id", request.referred), ("status", .str RewardStatus.pending.name),
    ("amount", .decimal request.amount), ("currency", request.currency),
    ("metadata", request.metadata), ("created_at", .instant now)]

/-- The request is in order and has the key. -/
structure CreditRequest.InOrder (cfg : Config) (request : CreditRequest) (key : String) : Prop where
  /-- It has the key. -/
  key : request.key = .str key
  /-- The amount is settled. -/
  settled : cfg.money.Settled request.amount
  /-- The amount is a finite number. -/
  isFinite : request.amount.isFinite = true
  /-- The further particulars are an object. -/
  metadata : request.metadata.IsObject
  /-- The further particulars can be written in JSON. -/
  writable : ∃ v, request.metadata.jsonForm = .ok v
  /-- The currency is one that a value names. -/
  currency : ∃ v, request.currency = cfg.currencyOf v
  /-- It has its fingerprint. -/
  fingerprint : Requests.fingerprint cfg request.referrer request.referred
    (.decimal request.amount) request.currency = .ok request.fingerprint

/-- Particulars that were found in order are an object that can be written in JSON. -/
theorem isObject_of_checkMetadata {metadata m : Value} (h : checkMetadata metadata = .ok m) :
    m.IsObject ∧ ∃ v, m.jsonForm = .ok v := by
  have hjson : ∀ v, requireJson v = .ok m → m = v ∧ ∃ w, v.jsonForm = .ok w := fun v hv => by
    unfold requireJson at hv
    split at hv
    · rename_i w hw
      exact ⟨(Except.ok.inj hv).symm, w, hw⟩
    · cases hv
    · cases hv
  unfold checkMetadata at h
  split at h
  · cases h
    exact ⟨trivial, _, rfl⟩
  · obtain ⟨rfl, hwritable⟩ := hjson _ h
    exact ⟨trivial, hwritable⟩
  · obtain ⟨rfl, hwritable⟩ := hjson _ h
    exact ⟨trivial, hwritable⟩
  · cases h

/-- A request that is found in order is made from what its arguments come to. -/
theorem exists_of_checkRequest {referrer referred amount key currency metadata : Value}
    {request : CreditRequest}
    (h : checkRequest cfg referrer referred amount key currency metadata = .ok request) :
    ∃ value found hash, cfg.money.positive amount = .ok value ∧
      checkMetadata metadata = .ok found ∧
      Requests.fingerprint cfg referrer referred (.decimal value) (cfg.currencyOf currency) =
        .ok hash ∧
      request = ⟨referrer, referred, value, cfg.currencyOf currency, key, hash, found⟩ := by
  unfold checkRequest at h
  -- nothing is found in order unless each of the checks passes
  cases hsame : referrer.equalTo referred with
  | error e =>
    rw [hsame] at h
    cases h
  | ok same =>
    rw [hsame] at h
    cases same with
    | true => cases h
    | false =>
      cases hvalue : cfg.money.positive amount with
      | error e =>
        rw [hvalue] at h
        cases h
      | ok value =>
        rw [hvalue] at h
        cases hmeta : checkMetadata metadata with
        | error e =>
          rw [hmeta] at h
          cases h
        | ok found =>
          rw [hmeta] at h
          cases hhash : Requests.fingerprint cfg referrer referred (.decimal value)
              (cfg.currencyOf currency) with
          | error e =>
            simp [bind, Except.bind, hhash] at h
          | ok hash =>
            simp only [bind, Except.bind, hhash] at h
            cases h
            exact ⟨value, found, hash, rfl, rfl, hhash, rfl⟩

/-- A request that was found in order is in order, and is made from the arguments. -/
theorem of_checkRequest {referrer referred amount currency metadata : Value} {key : String}
    {request : CreditRequest}
    (h : checkRequest cfg referrer referred amount (.str key) currency metadata = .ok request) :
    request.InOrder cfg key ∧ request.referrer = referrer ∧ request.referred = referred ∧
      cfg.money.positive amount = .ok request.amount ∧
      request.currency = cfg.currencyOf currency := by
  obtain ⟨value, found, hash, hvalue, hmeta, hhash, rfl⟩ := exists_of_checkRequest h
  obtain ⟨hsettled, hfinite⟩ := Money.settled_of_positive hvalue
  obtain ⟨hobject, hwritable⟩ := isObject_of_checkMetadata hmeta
  exact ⟨⟨rfl, hsettled, hfinite, hobject, hwritable, ⟨_, rfl⟩, hhash⟩, rfl, rfl, hvalue, rfl⟩

variable {request : CreditRequest} {key : String}

/-- The row of a reward has keys that the table of rewards can have. -/
theorem fitsTable_rewardRow {s : Store} (h : s.Declared) (hkey : request.key = .str key)
    (id : Uuid) (now : Instant) :
    s.FitsTable Value.IsPlain rewardsTable (rewardRow id request now) := by
  refine h.fitsTable rfl ?_ fun ix hix c hc => ?_
  · exact Or.inr trivial
  rw [List.mem_singleton.1 hix, List.mem_singleton] at hc
  rw [hc]
  show KeyKind.OrNull _ request.key
  rw [hkey]
  exact Or.inr trivial

/-- The row of a reward stands for the reward that was asked for. -/
theorem exists_isRow_rewardRow (hr : request.InOrder cfg key) {currency : String}
    (hcurrency : request.currency = .str currency) {referrer referred : Uuid}
    (hreferrer : request.referrer = .uuid referrer) (hreferred : request.referred = .uuid referred)
    (id : Uuid) (now : Instant) (seq : Nat) :
    ∃ r : Reward, r.id = id ∧
      r.IsRow ((rewardRow id request now).put sequenceColumn (.int seq)) ∧
      request.key = .str r.idempotencyKey ∧ r.status = .pending ∧ r.Meets request := by
  refine ⟨⟨id, key, referrer, referred, .pending, request.amount, currency, request.metadata, now,
    none, none, none, none⟩, rfl, ?_, hr.key, rfl, hreferrer, hreferred, rfl, hcurrency⟩
  rw [rewardRow, hr.key, hcurrency, hreferrer, hreferred]
  exact ⟨rfl, rfl, rfl, rfl, rfl, rfl, hr.isFinite, rfl, rfl, hr.metadata, rfl, rfl, rfl, rfl, rfl⟩

/-- Only a reward with the key is in the way of a reward. -/
theorem exists_key_of_duplicate (h : w.Holds cfg base b) (hkey : request.key = .str key) {id : Uuid}
    (hid : ∀ r ∈ b.rewards, r.id ≠ id) {now : Instant} {table index : String} {taken : List Value}
    {s : Store}
    (hrun : (Store.insert rewardsTable (rewardRow id request now)).run.run w.store =
      (.error (.duplicate table index taken), s)) :
    ∃ r ∈ b.rewards, r.idempotencyKey = key := by
  obtain ⟨t, ht, row, hrow, hcase⟩ :=
    Store.of_run_insert_duplicate h.sound (fitsTable_rewardRow h.declared hkey id now) hrun
  have hschema := h.schema_eq rewardsTable ht rfl
  obtain ⟨r, hr, hR⟩ := h.held.rewards.exists_record ht hrow
  have hprimary : t.primaryKey = "id" := congrArg Schema.primaryKey hschema
  rcases hcase with hsame | ⟨ix, hix, own, hown, hhas⟩
  · -- the identifier is a new one, so no row has it
    rw [Store.key_eq_keyOf (h.sound _ t ht).1 hprimary hrow hR, hprimary] at hsame
    have hrid : Value.uuid id = .uuid r.id := Value.sameKey_uuid_iff.1 hsame
    exact absurd (Value.uuid.inj hrid).symm (hid r hr)
  · rw [hschema] at hix
    rw [List.mem_singleton.1 hix] at hown hhas
    have hkeys : (rewardRow id request now).keyIn? ["idempotency_key"] = some [.str key] := by
      rw [rewardRow, hkey]
      rfl
    rw [Option.some.inj (hown.symm.trans hkeys)] at hhas
    exact ⟨r, hr, (Reward.IsRow.hasKey_iff hR key).1 hhas⟩

/-- If no index refuses the row of a reward, no reward has its key. -/
theorem keyFree_of_refusal? (h : w.Holds cfg base b) (hkey : request.key = .str key) {t : Table}
    (ht : w.store.table? rewardsTable = some t) {id : Uuid} {now : Instant} {seq : Nat}
    (hn : t.refusal? rewardsTable ((rewardRow id request now).put sequenceColumn (.int seq)) =
      none) : ∀ r ∈ b.rewards, r.idempotencyKey ≠ key := by
  have hindexes : t.indexes.map (fun ix => (ix.name, ix.columns)) =
      [("idempotency_key", ["idempotency_key"])] :=
    congrArg Schema.indexes (h.schema_eq rewardsTable ht rfl)
  obtain ⟨ix, rest, hsplit, hix, -⟩ := List.map_eq_cons_iff.1 hindexes
  have hmem : ix ∈ t.indexes := by
    rw [hsplit]
    exact List.mem_cons_self
  have hcolumns : ix.columns = ["idempotency_key"] := congrArg Prod.snd hix
  have hplain : KeyKind.All Value.IsPlain [.str key] := fun v hv => by
    rw [List.mem_singleton.1 hv]
    trivial
  have hseq : sequenceColumn ∉ ix.columns := by
    rw [hcolumns]
    decide
  have hfits := ((fitsTable_rewardRow h.declared hkey id now t ht).2 _ (Table.mem_schema hmem)).put
    hseq (.int seq)
  have hkeyIn : (rewardRow id request now).keyIn? ["idempotency_key"] = some [.str key] := by
    rw [rewardRow, hkey]
    rfl
  -- the new row has the key in the only index, so no other row has it there
  have hown : ((rewardRow id request now).put sequenceColumn (.int seq)).hasKey ix.columns
      [.str key] = true := by
    rw [Fields.hasKey, Fields.keyIn?_put_of_notMem hseq, hcolumns, hkeyIn]
    exact KeyKind.Exact.sameKeys_refl hplain
  have hapart := (h.sound _ t ht).1.apart_of_refusal?_eq_none hn hmem hfits hplain hown
  intro r hr hrkey
  obtain ⟨row, hrow, hR⟩ := h.held.rewards.exists_row ht hr
  have hhas := hapart row hrow
  rw [hcolumns, (Reward.IsRow.hasKey_iff hR key).2 hrkey] at hhas
  cases hhas

/-- Adding the row of a reward adds a pending reward, unless a reward with the key is there. -/
theorem ends_insertReward (h : w.Holds cfg base b) (hr : request.InOrder cfg key)
    {currency : String} (hcurrency : request.currency = .str currency) {referrer referred : Uuid}
    (hreferrer : request.referrer = .uuid referrer)
    (hreferred : request.referred = .uuid referred) :
    (insertReward request).Ends w
      (fun columns w' => ∃ (r : Reward) (n : Nat),
        w'.Holds cfg base { b with rewards := b.rewards ++ [r], issued := n } ∧
        b.Begins request r n ∧ r.IsRow columns)
      fun e w' => w'.HoldsBeside cfg base b ∧
        (e.isDuplicate = true → ∃ r ∈ b.rewards, r.idempotencyKey = key) := by
  have hle : b.issued ≤ w.issued + 1 := h.issued ▸ Nat.le_succ _
  have hlt : b.issued < w.issued + 1 := h.issued ▸ Nat.lt_succ_self _
  have hnext : ({ w with issued := w.issued + 1 } : World).Holds cfg base
      { b with issued := w.issued + 1 } := h.issue (Nat.le_succ _)
  refine ends_bind (ends_freshId ?_)
  refine ends_bind (ends_readClock (fun now clock _ => ?_)
    fun _ => ⟨⟨_, hle, hnext⟩, fun he => nomatch he⟩)
  have hread : ({ w with issued := w.issued + 1, clock } : World).Holds cfg base
      { b with issued := w.issued + 1 } := hnext.congr rfl rfl
  refine ends_insert hread (fitsTable_rewardRow hread.declared hr.key _ now) ?_ ?_
  · -- the index of keys did not refuse the row, so no reward has the key
    intro t columns ht _ hn hcolumns hfollows
    obtain ⟨r, hid, hrow, hkey, hpending, hmeets⟩ := exists_isRow_rewardRow hr hcurrency hreferrer
      hreferred ⟨w.issued + 1⟩ now w.store.nextSeq
    rw [← hcolumns] at hrow
    have hfree : ∀ r' ∈ b.rewards, r'.idempotencyKey ≠ r.idempotencyKey :=
      keyFree_of_refusal? h hkey ht (hcolumns ▸ hn)
    refine ⟨r, w.issued + 1, hread.follows hfollows ?_ rfl ?_,
      ⟨hid ▸ hlt, hid ▸ Nat.le_refl _, hkey, hfree, hpending, hmeets⟩, hrow⟩
    · exact ⟨h.held.users.inserted_of_ne (by decide) _ _,
        h.held.entries.inserted_of_ne (by decide) _ _, h.held.rewards.inserted hrow _,
        h.held.requests.inserted_of_ne (by decide) _ _⟩
    · obtain ⟨v, hv⟩ := hr.currency
      refine h.proper.addReward hle (hid ▸ Nat.le_refl _) (hmeets.amount ▸ hr.settled) ?_
      exact Config.names_of_currencyOf (hv.symm.trans hmeets.currency)
  · -- the identifier is new, so a taken key can only be the one of the request
    intro e s hrun hs
    refine ⟨⟨_, hle, hs⟩, fun he => ?_⟩
    have hnew : ∀ r ∈ b.rewards, r.id ≠ ⟨w.issued + 1⟩ := h.proper.reward_ne hlt
    cases e with
    | duplicate table index taken => exact exists_key_of_duplicate h hr.key hnew hrun
    | _ => cases he

/-! ## Carrying a request out -/

/-- A party that is required is a user. -/
theorem ends_requireParty (h : w.Holds cfg base b) (role : String) (id : Value) :
    (requireParty role id).Ends w (fun _ w' => w' = w ∧ ∃ u ∈ b.users, id = .uuid u.id)
      fun e w' => w' = w ∧ e.isDuplicate = false :=
  ((Ledger.ends_userOrRefuse h id _).and (Ledger.neverDuplicate_userOrRefuse id _ w)).mono
    (fun _ _ hgood => hgood.1) fun _ _ hbad => hbad

/-- What is done for two parties is done for two users, or refused before anything is done. -/
theorem ends_requireParties (h : w.Holds cfg base b) {role role' : String} {id id' : Value}
    {α : Type} {op : Op α} {good : α → World → Prop} {bad : Failure → World → Prop}
    (hop : ∀ u ∈ b.users, id = .uuid u.id → ∀ u' ∈ b.users, id' = .uuid u'.id → op.Ends w good bad)
    (hrefused : ∀ e, e.isDuplicate = false → bad e w) :
    (do
      requireParty role id
      requireParty role' id'
      op).Ends w good bad := by
  have hbad : ∀ (e : Failure) (w' : World), w' = w ∧ e.isDuplicate = false → bad e w' := by
    rintro e _ ⟨rfl, he⟩
    exact hrefused e he
  refine ends_bind ((ends_requireParty h role id).mono ?_ hbad)
  rintro _ _ ⟨rfl, u, hu, hid⟩
  refine ends_bind ((ends_requireParty h role' id').mono ?_ hbad)
  rintro _ _ ⟨rfl, u', hu', hid'⟩
  exact hop u hu hid u' hu' hid'

end Rewards

/-- A reward that was added, the credit that was posted for it and the record of the request make a
credited reward. -/
theorem Books.Begins.credited {request : Rewards.CreditRequest} {key : String} {r : Reward} {n : Nat}
    {e : LedgerEntry} {q : StoredRequest} (h : b.Begins request r n) (hr : request.InOrder cfg key)
    (hposted : Books.Posted cfg { b with rewards := b.rewards ++ [r], issued := n } b' e)
    (hparty : ∃ u ∈ b.users, request.referred = .uuid u.id)
    (huser : request.referrer = .uuid e.userId) (htype : e.entryType = .credit)
    (hpositive : cfg.money.positive (.decimal request.amount) = .ok e.amount)
    (hcurrency : e.currency = r.currency) (htag : e.rewardId = some r.id)
    (hof : e.reversalOf = none) (hfree : ∀ q' ∈ b.requests, q'.key ≠ key) (hqkey : q.key = key)
    (hqhash : q.requestHash = request.fingerprint)
    (hresponse : (CreditResult.mk r e false).json = .ok q.response) :
    b.Credited cfg { b' with requests := b'.requests ++ [q] } r e q := by
  have hkey : r.idempotencyKey = key := Value.str.inj (h.key.symm.trans hr.key)
  have hamount : e.amount = r.amount := by
    rw [h.meets.amount]
    exact hr.settled.eq_of_positive hpositive
  have hn : b.issued ≤ n := Nat.le_trans (Nat.le_of_lt h.fresh) h.le
  have hle : n ≤ b'.issued := Nat.le_trans (Nat.le_of_lt hposted.can.fresh) hposted.le
  obtain ⟨u, hu, huid⟩ := hparty
  exact {
    eq := by rw [hposted.eq]
    fresh := h.fresh
    le := Nat.le_trans h.le hle
    keyFree := h.keyFree
    requestFree := fun q' hq' => hkey ▸ hfree q' hq'
    pending := h.pending
    settled := h.meets.amount ▸ hr.settled
    party := ⟨u, hu, Value.uuid.inj (huid.symm.trans h.meets.referred)⟩
    can := {
      hposted.can with
      fresh := Nat.lt_of_le_of_lt hn hposted.can.fresh
      target := fun id hid => by
        rw [hof] at hid
        cases hid }
    entryLe := hposted.le
    entryType := htype
    userId := Value.uuid.inj (huser.symm.trans h.meets.referrer)
    rewardId := htag
    amount := hamount
    currency := hcurrency
    reversalOf := hof
    key := hqkey.trans hkey.symm
    requestHash := by
      rw [← h.meets.referrer, ← h.meets.referred, h.meets.amount, ← h.meets.currency, hqhash]
      exact hr.fingerprint
    response := hresponse }

/-- An answer in JSON is an object. -/
theorem CreditResult.exists_of_json {r : CreditResult} {v : Value} (h : r.json = .ok v) :
    ∃ answer, v = .object answer := by
  unfold json at h
  cases hreward : r.reward.json with
  | error e =>
    rw [hreward] at h
    cases h
  | ok reward =>
    rw [hreward] at h
    cases hentry : r.entry.json with
    | error e =>
      rw [hentry] at h
      cases h
    | ok entry =>
      rw [hentry] at h
      cases h
      exact ⟨_, rfl⟩

namespace Rewards

variable {request : CreditRequest} {key : String}

/-- A request in order whose currency is a text is carried out as a whole, or it can be taken back;
and if it meets a violated unique constraint, a reward with its key is there. -/
theorem ends_creditFresh_of_text (h : w.Holds cfg (some s₀) b) (hr : request.InOrder cfg key)
    {currency : String} (hcurrency : request.currency = .str currency)
    (hfree : ∀ q ∈ b.requests, q.key ≠ key) :
    (creditFresh cfg request).Ends w
      (fun result w' => ∃ b' q, w'.Holds cfg (some s₀) b' ∧
        b.Credited cfg b' result.reward result.entry q ∧ result.replayed = false ∧
        result.reward.idempotencyKey = key ∧ q.requestHash = request.fingerprint)
      fun e w' => w'.Undone cfg (some s₀) b ∧
        (e.isDuplicate = true → ∃ r ∈ b.rewards, r.idempotencyKey = key) := by
  have hcredit : cfg.currencyOf request.currency = .str currency := by
    obtain ⟨v, hv⟩ := hr.currency
    rw [hcurrency]
    exact Config.names_of_currencyOf (hv.symm.trans hcurrency)
  -- each part that fails leaves the books as they were but for identifiers, and only the record of
  -- the request is written under a key that could be taken; that key is free
  refine ends_requireParties h (fun referrer _ hreferrer referred hreferred hreferredId => ?_)
    fun e he => ⟨h.undone, Failure.absurd_isDuplicate he⟩
  -- the reward
  refine ends_bind ((ends_insertReward h hr hcurrency hreferrer hreferredId).mono ?_ ?_)
  swap
  · rintro e w' ⟨⟨n, hn, hw'⟩, he⟩
    exact ⟨hw'.undone.of_le hn, he⟩
  rintro row w₁ ⟨r, n, hw₁, hbegins, hrow⟩
  have hn : b.issued ≤ n := Nat.le_trans (Nat.le_of_lt hbegins.fresh) hbegins.le
  have hid : row.get "id" = .ofUuid? (some r.id) := by
    rw [Fields.get, hrow.id]
    rfl
  -- its credit
  refine ends_bind (((Ledger.ends_createCredit hw₁ hcredit hid).and
    (Ledger.neverDuplicate_createCredit _ _ _ _ w₁)).mono ?_ ?_)
  swap
  · rintro e w' ⟨hundone, he⟩
    exact ⟨hundone.of_le hn, Failure.absurd_isDuplicate he⟩
  rintro e w₂ ⟨⟨b₂, hw₂, hposted, huser, htype, hpositive, hecurrency, htag, hof⟩, -⟩
  have hle₂ : n ≤ b₂.issued := Nat.le_trans (Nat.le_of_lt hposted.can.fresh) hposted.le
  have hundone₂ : w₂.Undone cfg (some s₀) b := hw₂.undone.of_le (Nat.le_trans hn hle₂)
  refine ends_bind (ends_ofExcept_ok (rewardOf_eq hrow) ?_)
  refine ends_bind (ends_ofExcept (fun response hresponse => ?_)
    fun e he => ⟨hundone₂, Failure.absurd_isDuplicate ((noFault_creditResult_json _).noDuplicate e he)⟩)
  obtain ⟨answer, rfl⟩ := CreditResult.exists_of_json hresponse
  rw [hr.key]
  -- the record of the request
  have hrequests : b₂.requests = b.requests := by
    rw [hposted.eq]
  refine ends_bind (ends_map ((Requests.ends_record hw₂ key request.fingerprint answer).mono ?_ ?_))
  swap
  · rintro e w' ⟨hw', he⟩
    refine ⟨hw'.undone.of_le (Nat.le_trans hn hle₂), fun hd => ?_⟩
    obtain ⟨q, hq, hqkey⟩ := he hd
    rw [hrequests] at hq
    exact absurd hqkey (hfree q hq)
  rintro _ w' ⟨q, hw', hqkey, hqhash, hqresponse, -⟩
  have hkey : r.idempotencyKey = key := Value.str.inj (hbegins.key.symm.trans hr.key)
  have hcredited := hbegins.credited hr hposted ⟨referred, hreferred, hreferredId⟩ huser htype
    hpositive (hecurrency.trans (Value.str.inj (hcurrency.symm.trans hbegins.meets.currency))) htag
    (Value.eq_none_of_null_eq hof) hfree hqkey hqhash (hresponse.trans (congrArg Except.ok hqresponse.symm))
  exact ends_pure ⟨_, q, hw', hcredited, rfl, hkey, hqhash⟩

end Rewards

/-- A row that is read as a reward has no currency that is no text. -/
theorem Reward.exists_text_of_ofRow {columns : Fields} {r : Reward} {currency : Value}
    (h : Reward.ofRow columns = .valid r) (hc : columns.find? "currency" = some currency) :
    ∃ s, currency = .str s := by
  unfold Reward.ofRow at h
  -- the currency comes before the further particulars and five instants and texts
  iterate 6
    obtain ⟨_, _, h, -, -⟩ := Checked.seq_eq_valid.1 h
  obtain ⟨_, s, -, hs, -⟩ := Checked.seq_eq_valid.1 h
  rw [Fields.defaulting, hc] at hs
  cases currency with
  | str text => exact ⟨text, rfl⟩
  | _ => cases hs

namespace Rewards

variable {request : CreditRequest} {key : String}

/-- The row of a reward in whatever currency can be added and taken back, and only a reward with the
key is in its way. -/
theorem ends_insertReward_undone (h : w.Holds cfg (some s₀) b) (hkey : request.key = .str key) :
    (insertReward request).Ends w
      (fun columns w' => w'.Undone cfg (some s₀) b ∧
        columns.find? "currency" = some request.currency)
      fun e w' => w'.Undone cfg (some s₀) b ∧
        (e.isDuplicate = true → ∃ r ∈ b.rewards, r.idempotencyKey = key) := by
  have hlt : b.issued < w.issued + 1 := h.issued ▸ Nat.lt_succ_self _
  have hnext : ({ w with issued := w.issued + 1 } : World).Undone cfg (some s₀) b :=
    World.restsOnStore_undone cfg (some s₀) b (w := w) rfl (Nat.le_succ _) h.undone
  refine ends_bind (ends_freshId ?_)
  refine ends_bind (ends_readClock (fun now clock _ => ?_) fun _ => ⟨hnext, fun he => nomatch he⟩)
  have hundone : ({ w with issued := w.issued + 1, clock } : World).Undone cfg (some s₀) b := hnext
  have hkept : (change (Store.insert rewardsTable
      (rewardRow ⟨w.issued + 1⟩ request now))).Keeps (World.Undone cfg (some s₀) b) :=
    keeps_insert fun s hs => fitsTable_rewardRow hs hkey ⟨w.issued + 1⟩ now
  refine ((hkept _ hundone).and (ends_change (fun columns s hrun => ?_) fun e s hrun => ?_)).mono
    (fun _ _ hgood => hgood) fun _ _ hbad => hbad
  · obtain ⟨t, -, -, -, -, rfl, -⟩ := Store.of_run_insert_ok hrun
    rfl
  · intro he
    have hnew : ∀ r ∈ b.rewards, r.id ≠ ⟨w.issued + 1⟩ := h.proper.reward_ne hlt
    cases e with
    | duplicate table index taken => exact exists_key_of_duplicate h hkey hnew hrun
    | _ => cases he

/-- A request whose currency is no text cannot be carried out, and what was done can be taken
back. -/
theorem ends_creditFresh_of_not_text (h : w.Holds cfg (some s₀) b) (hkey : request.key = .str key)
    (hcurrency : ∀ currency, request.currency ≠ .str currency) :
    (creditFresh cfg request).Ends w (fun _ _ => False)
      fun e w' => w'.Undone cfg (some s₀) b ∧
        (e.isDuplicate = true → ∃ r ∈ b.rewards, r.idempotencyKey = key) := by
  refine ends_requireParties h (fun _ _ _ _ _ _ => ?_)
    fun e he => ⟨h.undone, Failure.absurd_isDuplicate he⟩
  refine ends_bind ((ends_insertReward_undone h hkey).mono ?_ fun _ _ he => he)
  rintro row w₁ ⟨hw₁, hrow⟩
  refine ends_bind (((Ledger.keeps_createCredit rfl w₁ hw₁).and
    (Ledger.neverDuplicate_createCredit _ _ _ _ w₁)).mono ?_ ?_)
  swap
  · rintro e w' ⟨hw', he⟩
    exact ⟨hw', Failure.absurd_isDuplicate he⟩
  rintro entry w₂ ⟨hw₂, -⟩
  refine ends_bind (ends_ofExcept (fun r hr => ?_) fun e he =>
    ⟨hw₂, Failure.absurd_isDuplicate ((noFault_toExcept _).noDuplicate e he)⟩)
  -- the row cannot have been read as a reward
  unfold rewardOf at hr
  cases hread : Reward.ofRow row with
  | invalid issues =>
    rw [hread] at hr
    cases hr
  | valid r' =>
    obtain ⟨text, htext⟩ := Reward.exists_text_of_ofRow hread hrow
    exact absurd htext (hcurrency text)

/-- A request in order is carried out as a whole, or it can be taken back; and if it meets a violated
unique constraint, a reward with its key is there. -/
theorem ends_creditFresh (h : w.Holds cfg (some s₀) b) (hr : request.InOrder cfg key)
    (hfree : ∀ q ∈ b.requests, q.key ≠ key) :
    (creditFresh cfg request).Ends w
      (fun result w' => ∃ b' q, w'.Holds cfg (some s₀) b' ∧
        b.Credited cfg b' result.reward result.entry q ∧ result.replayed = false ∧
        result.reward.idempotencyKey = key ∧ q.requestHash = request.fingerprint)
      fun e w' => w'.Undone cfg (some s₀) b ∧
        (e.isDuplicate = true → ∃ r ∈ b.rewards, r.idempotencyKey = key) := by
  by_cases htext : ∃ currency, request.currency = .str currency
  · obtain ⟨currency, hcurrency⟩ := htext
    exact ends_creditFresh_of_text h hr hcurrency hfree
  · refine (ends_creditFresh_of_not_text h hr.key fun currency hc => htext ⟨currency, hc⟩).mono
      (fun _ _ hgood => hgood.elim) fun _ _ hbad => hbad

end Rewards

/-! ## Answers -/

/-- The answer that a recorded answer stands for. -/
def Rewards.answerOf (response : Value) : Except Failure CreditResult :=
  Checked.toExcept (Check.record CreditResult.ofFields response)

/-- What a request that succeeds comes to: either a reward has been credited for it, or it was
answered as the request that is recorded with its key and fingerprint. -/
inductive Books.CreditOutcome (cfg : Config) (request : Rewards.CreditRequest) (b : Books) :
    CreditResult → Books → Prop where
  /-- A reward has been credited. -/
  | credited {b' : Books} {r : Reward} {e : LedgerEntry} {q : StoredRequest}
    (h : b.Credited cfg b' r e q) (hkey : request.key = .str r.idempotencyKey)
    (hhash : q.requestHash = request.fingerprint) : CreditOutcome cfg request b ⟨r, e, false⟩ b'
  /-- The request was answered before. -/
  | replayed {q : StoredRequest} {result : CreditResult} (hq : q ∈ b.requests)
    (hkey : request.key = .str q.key) (hhash : q.requestHash = request.fingerprint)
    (hanswer : Rewards.answerOf q.response = .ok result) :
    CreditOutcome cfg request b { result with replayed := true } b

/-- Whatever a request comes to adds entries at most. -/
theorem Books.CreditOutcome.grown {request : Rewards.CreditRequest} {result : CreditResult}
    (h : b.CreditOutcome cfg request result b') :
    Relation.ReflTransGen (Books.Grow cfg p) b b' := by
  cases h with
  | @credited b' r e q h hkey hhash =>
    refine .single ⟨.credit h, [e], ?_, fun x hx => ?_⟩
    · rw [h.eq]
    · rw [List.mem_singleton.1 hx]
      exact h.can.posted
  | replayed => exact .refl

/-- Whatever a request comes to is a step of the books, or none. -/
theorem Books.CreditOutcome.steps {request : Rewards.CreditRequest} {result : CreditResult}
    (h : b.CreditOutcome cfg request result b') : b.Steps cfg p b' :=
  Books.steps_of_grow h.grown

namespace Rewards

variable {request : CreditRequest} {key : String}

/-- A recorded answer is given again, or cannot be read. -/
theorem ends_replay (h : w.Holds cfg base b) (request : CreditRequest) (response : Value) :
    (replay request response).Ends w
      (fun result w' => w'.Holds cfg base b ∧
        ∃ answer, answerOf response = .ok answer ∧ result = { answer with replayed := true })
      fun e w' => w'.Holds cfg base b ∧ e.isDuplicate = false := by
  refine ends_bind (ends_ofExcept (fun answer hanswer => ?_)
    fun e he => ⟨h, (noFault_toExcept _).noDuplicate e he⟩)
  exact ends_bind (ends_log (ends_pure ⟨h.congr rfl rfl, answer, hanswer, rfl⟩))

/-- A request ends as its transaction does, if that does not rest on the log. -/
theorem ends_creditOnce_of_transaction {good : CreditResult → World → Prop}
    {bad : Failure → World → Prop}
    (h : (Op.transaction do
      match ← Requests.check request.key (.str request.fingerprint) with
      | .answered response => replay request response
      | .fresh => creditFresh cfg request).Ends w
        (fun result w' => ∀ log, good result { w' with log }) bad) :
    (creditOnce cfg request).Ends w good bad := by
  refine ends_bind (h.mono (fun result w' hgood => ?_) fun _ _ hbad => hbad)
  cases result.replayed with
  | true => exact ends_pure (hgood w'.log)
  | false => exact ends_bind (ends_log (ends_pure (hgood _)))

/-- A request in order comes to what it should, or nothing happens; and if it meets a violated unique
constraint, a reward has its key and no recorded request does. -/
theorem ends_creditOnce (h : w.Holds cfg none b) (hr : request.InOrder cfg key) :
    (creditOnce cfg request).Ends w
      (fun result w' => ∃ b', w'.Holds cfg none b' ∧ b.CreditOutcome cfg request result b')
      fun e w' => w'.Undone cfg none b ∧ (e.isDuplicate = true →
        (∃ r ∈ b.rewards, r.idempotencyKey = key) ∧ ∀ q ∈ b.requests, q.key ≠ key) := by
  have henter : w.enter.Holds cfg (some w.store) b := h.enter
  refine ends_creditOnce_of_transaction (ends_transaction ?_)
  rw [hr.key]
  refine ends_bind ((Requests.ends_check henter key request.fingerprint).mono ?_ ?_)
  swap
  · rintro _ w' ⟨hw', rfl, -⟩
    exact ⟨hw'.undone.leave h, Failure.absurd_isDuplicate rfl⟩
  rintro standing w' ⟨rfl, hstanding⟩
  cases standing with
  | fresh =>
    refine (ends_creditFresh henter hr hstanding).mono ?_ ?_
    · rintro ⟨r, e, _⟩ w₁ ⟨b', q, hw₁, hcredited, rfl, hkey, hhash⟩
      exact fun log => ⟨b', (h.leave hw₁).congr rfl rfl, .credited hcredited (hkey ▸ hr.key) hhash⟩
    · rintro e w₁ ⟨hw₁, he⟩
      exact ⟨hw₁.leave h, fun hd => ⟨he hd, hstanding⟩⟩
  | answered response =>
    obtain ⟨q, hq, hkey, hhash, rfl⟩ := hstanding
    refine (ends_replay henter request q.response).mono ?_ ?_
    · rintro result w₁ ⟨hw₁, answer, hanswer, rfl⟩
      exact fun log => ⟨b, (h.leave hw₁).congr rfl rfl, .replayed hq (hkey ▸ hr.key) hhash hanswer⟩
    · rintro e w₁ ⟨hw₁, he⟩
      exact ⟨hw₁.undone.leave h, Failure.absurd_isDuplicate he⟩

/-- Where every reward has a recorded request, no request in order meets a violated unique
constraint. -/
theorem ends_creditOnce_of_keyed (h : w.Holds cfg none b)
    (hkeyed : ∀ r ∈ b.rewards, ∃ q ∈ b.requests, q.key = r.idempotencyKey)
    (hr : request.InOrder cfg key) :
    (creditOnce cfg request).Ends w
      (fun result w' => ∃ b', w'.Holds cfg none b' ∧ b.CreditOutcome cfg request result b')
      fun e w' => w'.Undone cfg none b ∧ e.isDuplicate = false := by
  refine (ends_creditOnce h hr).mono (fun _ _ hgood => hgood) fun e w' ⟨hw', he⟩ => ⟨hw', ?_⟩
  cases hd : e.isDuplicate with
  | false => rfl
  | true =>
    obtain ⟨⟨r, hrm, hrkey⟩, hfree⟩ := he hd
    obtain ⟨q, hq, hqkey⟩ := hkeyed r hrm
    exact absurd (hqkey.trans hrkey) (hfree q hq)

/-- Where every reward has a recorded request, a request for a credit comes to what it should or
nothing happens, and it never ends with a violated unique constraint. -/
theorem ends_credit (h : w.Holds cfg none b)
    (hkeyed : ∀ r ∈ b.rewards, ∃ q ∈ b.requests, q.key = r.idempotencyKey)
    (referrer referred amount : Value) (key : String) (currency metadata : Value) :
    (credit cfg referrer referred amount (.str key) currency metadata).Ends w
      (fun result w' => ∃ request b',
        checkRequest cfg referrer referred amount (.str key) currency metadata = .ok request ∧
        w'.Holds cfg none b' ∧ b.CreditOutcome cfg request result b')
      fun e w' => w'.Undone cfg none b ∧ e.isDuplicate = false := by
  refine ends_bind (ends_ofExcept (fun request hrequest => ?_)
    fun e he => ⟨h.undone, noDuplicate_checkRequest _ _ _ _ _ _ _ e he⟩)
  have hr := (of_checkRequest hrequest).1
  refine ends_onDuplicate ((ends_creditOnce_of_keyed h hkeyed hr).mono ?_ ?_)
  · rintro result w' ⟨b', hw', houtcome⟩
    exact ⟨request, b', hrequest, hw', houtcome⟩
  · rintro e w' ⟨hw', he⟩
    refine ⟨fun table index taken hdup => ?_, fun _ => ⟨hw', he⟩⟩
    rw [hdup] at he
    cases he

/-- A request for a credit comes to what it should, after a first attempt that was undone or without
one, or nothing happens. -/
theorem ends_credit_retried (h : w.Holds cfg none b) (referrer referred amount : Value)
    (key : String) (currency metadata : Value) :
    (credit cfg referrer referred amount (.str key) currency metadata).Ends w
      (fun result w' => ∃ request n b',
        checkRequest cfg referrer referred amount (.str key) currency metadata = .ok request ∧
        b.issued ≤ n ∧ w'.Holds cfg none b' ∧
        Books.CreditOutcome cfg request { b with issued := n } result b')
      fun _ w' => w'.Undone cfg none b := by
  refine ends_bind (ends_ofExcept (fun request hrequest => ?_) fun _ _ => h.undone)
  have hr := (of_checkRequest hrequest).1
  refine ends_onDuplicate ((ends_creditOnce h hr).mono ?_ ?_)
  · rintro result w' ⟨b', hw', houtcome⟩
    exact ⟨request, b.issued, b', hrequest, Nat.le_refl _, hw', houtcome⟩
  · rintro e w' ⟨⟨n, hn, hw'⟩, -⟩
    refine ⟨fun table index taken _ => ?_, fun _ => ⟨n, hn, hw'⟩⟩
    have hlogged : ∀ log, ({ w' with log } : World).Holds cfg none { b with issued := n } :=
      fun _ => hw'.congr rfl rfl
    refine ends_bind (ends_log ((ends_creditOnce (hlogged _) hr).mono ?_ ?_))
    · rintro result w'' ⟨b', hw'', houtcome⟩
      exact ⟨request, n, b', hrequest, hn, hw'', houtcome⟩
    · rintro e w'' ⟨hundone, -⟩
      exact hundone.of_issue hn

/-- A request for a credit adds an entry at most. -/
theorem grows_credit (referrer referred amount : Value) (key : String)
    (currency metadata : Value) :
    (credit cfg referrer referred amount (.str key) currency metadata).Grows cfg p := by
  refine grows_of_ends fun b w hw =>
    (ends_credit_retried hw referrer referred amount key currency metadata).mono ?_
      fun _ _ hundone => hundone
  rintro result w' ⟨request, n, b', -, hn, hw', houtcome⟩
  exact ⟨b', .head (.issue hn) houtcome.grown, hw'⟩

end Rewards

end RewardLedger
