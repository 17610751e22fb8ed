import RewardLedger.Ledger.Requests
import RewardLedger.Ledger.Rewards
import RewardLedger.Ledger.Users
import RewardLedger.Proofs.Ledger.Stored

/-!
# The rows of users, entries, rewards and recorded requests

Which columns stand for which record, and that reading such columns gives the record back. A reward
lacks the columns of what has not happened to it yet, or has null in them.
-/

namespace RewardLedger

/-- An optional instant, null standing for none. -/
def Value.ofInstant? (t : Option Instant) : Value := (t.map .instant).getD .null

/-- The value is an object, whatever its keys are. -/
def Value.IsObject : Value → Prop
  | .object _ | .map _ => True
  | _ => False

/-! ## Reading columns -/

namespace Fields

variable {α : Type} {columns : Fields} {name : String} {check : Check α} {a : α}

/-- A column that must be there is read by its check. -/
theorem required_eq {v : Value} (h : columns.find? name = some v) (hc : check v = .valid a) :
    columns.required name check = .valid a := by
  rw [required, h]
  dsimp only
  rw [hc]
  rfl

/-- A column that is there is read by its check. -/
theorem defaulting_eq {v : Value} {fallback : α} (h : columns.find? name = some v)
    (hc : check v = .valid a) : columns.defaulting name fallback check = .valid a := by
  rw [defaulting, h]
  dsimp only
  rw [hc]
  rfl

/-- A column that may be absent or null is read as nothing in both cases. -/
theorem defaulting_optional {o : Option α} {v : Value} (h : columns.get name = v)
    (hn : v = .null → o = none) (hc : Check.optional check v = .valid o) :
    columns.defaulting name none (Check.optional check) = .valid o := by
  rw [defaulting]
  unfold get at h
  cases hf : columns.find? name with
  | none =>
    rw [hf] at h
    rw [hn h.symm]
  | some w =>
    rw [hf, Option.getD_some] at h
    dsimp only
    rw [h, hc]
    rfl

end Fields

namespace Check

/-- An instant is read back. -/
theorem instant_instant (t : Instant) : instant (.instant t) = .valid t := rfl

/-- An optional identifier is read back. -/
theorem optional_ofUuid? (u : Option Uuid) : optional uuid (.ofUuid? u) = .valid u := by
  cases u <;> rfl

/-- An optional text is read back. -/
theorem optional_ofText? (s : Option String) : optional text (.ofText? s) = .valid s := by
  cases s <;> rfl

/-- An optional instant is read back. -/
theorem optional_ofInstant? (t : Option Instant) :
    optional instant (.ofInstant? t) = .valid t := by
  cases t <;> rfl

/-- A finite decimal is read back. -/
theorem decimal_of_isFinite {d : Decimal} (h : d.isFinite = true) :
    decimal (.decimal d) = .valid d := by
  rw [decimal, finiteDecimal, if_pos h]

/-- An object is read back. -/
theorem mapping_of_isObject {v : Value} (h : v.IsObject) : mapping v = .valid v := by
  cases v with
  | object _ | map _ => rfl
  | _ => exact h.elim

end Check

/-! ## Users -/

/-- The columns stand for the user. -/
structure User.IsRow (u : User) (columns : Fields) : Prop where
  id : columns.find? "id" = some (.uuid u.id)
  email : columns.find? "email" = some (.str u.email)
  name : columns.find? "name" = some (.ofText? u.name)
  createdAt : columns.find? "created_at" = some (.instant u.createdAt)

/-- Reading the row of a user gives the user. -/
theorem User.IsRow.ofRow {u : User} {columns : Fields} (h : u.IsRow columns) :
    User.ofRow columns = .valid u := by
  rw [User.ofRow, Fields.required_eq h.id (Check.uuid_uuid _), Fields.required_eq h.email (Check.text_str _),
    Fields.defaulting_eq h.name (Check.optional_ofText? u.name), Fields.required_eq h.createdAt (Check.instant_instant _)]
  rfl

instance : Stored User where
  tableName := usersTable
  keyColumn := "id"
  keyOf u := .uuid u.id
  IsRow := User.IsRow
  of_agrees ha h := ⟨ha.find?_of_some h.id, ha.find?_of_some h.email, ha.find?_of_some h.name,
    ha.find?_of_some h.createdAt⟩
  get_keyColumn h := by rw [Fields.get, h.id]; rfl
  sameKey_iff _ _ := Value.sameKey_uuid_iff
  hashable_keyOf _ := rfl

/-! ## Entries -/

/-- The columns stand for the entry. -/
structure LedgerEntry.IsRow (e : LedgerEntry) (columns : Fields) : Prop where
  id : columns.find? "id" = some (.uuid e.id)
  userId : columns.find? "user_id" = some (.uuid e.userId)
  rewardId : columns.find? "reward_id" = some (.ofUuid? e.rewardId)
  entryType : columns.find? "entry_type" = some (.str e.entryType.name)
  amount : columns.find? "amount" = some (.decimal e.amount)
  isFinite : e.amount.isFinite = true
  currency : columns.find? "currency" = some (.str e.currency)
  status : columns.find? "status" = some (.str e.status.name)
  reversalOf : columns.find? "reversal_of_entry_id" = some (.ofUuid? e.reversalOf)
  metadata : columns.find? "metadata" = some e.metadata
  isObject : e.metadata.IsObject
  createdAt : columns.find? "created_at" = some (.instant e.createdAt)

/-- The check of entries reads the row of an entry as the entry. -/
theorem LedgerEntry.IsRow.ofRow {e : LedgerEntry} {columns : Fields} (h : e.IsRow columns) :
    LedgerEntry.ofRow columns = .valid e := by
  rw [LedgerEntry.ofRow, Fields.required_eq h.id (Check.uuid_uuid _), Fields.required_eq h.userId (Check.uuid_uuid _),
    Fields.defaulting_eq h.rewardId (Check.optional_ofUuid? e.rewardId),
    Fields.required_eq h.entryType (Check.member_of_eq (EntryType.ofName?_name _)),
    Fields.required_eq h.amount (Check.decimal_of_isFinite h.isFinite),
    Fields.defaulting_eq h.currency (Check.text_str _),
    Fields.defaulting_eq h.status (Check.member_of_eq (EntryStatus.ofName?_name _)),
    Fields.defaulting_eq h.reversalOf (Check.optional_ofUuid? e.reversalOf),
    Fields.defaulting_eq h.metadata (Check.mapping_of_isObject h.isObject),
    Fields.required_eq h.createdAt (Check.instant_instant _)]
  rfl

instance : Stored LedgerEntry where
  tableName := entriesTable
  keyColumn := "id"
  keyOf e := .uuid e.id
  IsRow := LedgerEntry.IsRow
  of_agrees ha h := ⟨ha.find?_of_some h.id, ha.find?_of_some h.userId,
    ha.find?_of_some h.rewardId, ha.find?_of_some h.entryType, ha.find?_of_some h.amount,
    h.isFinite, ha.find?_of_some h.currency, ha.find?_of_some h.status,
    ha.find?_of_some h.reversalOf, ha.find?_of_some h.metadata, h.isObject,
    ha.find?_of_some h.createdAt⟩
  get_keyColumn h := by rw [Fields.get, h.id]; rfl
  sameKey_iff _ _ := Value.sameKey_uuid_iff
  hashable_keyOf _ := rfl

/-- Reading the row of an entry gives the entry. -/
theorem Ledger.entryOf_eq {e : LedgerEntry} {row : Fields} (h : e.IsRow row) :
    entryOf row = .ok e := by
  rw [entryOf, h.ofRow]
  rfl

/-! ## Rewards -/

/-- The columns stand for the reward. -/
structure Reward.IsRow (r : Reward) (columns : Fields) : Prop where
  id : columns.find? "id" = some (.uuid r.id)
  idempotencyKey : columns.find? "idempotency_key" = some (.str r.idempotencyKey)
  referrerId : columns.find? "referrer_id" = some (.uuid r.referrerId)
  referredId : columns.find? "referred_id" = some (.uuid r.referredId)
  status : columns.find? "status" = some (.str r.status.name)
  amount : columns.find? "amount" = some (.decimal r.amount)
  isFinite : r.amount.isFinite = true
  currency : columns.find? "currency" = some (.str r.currency)
  metadata : columns.find? "metadata" = some r.metadata
  isObject : r.metadata.IsObject
  createdAt : columns.find? "created_at" = some (.instant r.createdAt)
  confirmedAt : columns.get "confirmed_at" = .ofInstant? r.confirmedAt
  paidAt : columns.get "paid_at" = .ofInstant? r.paidAt
  reversedAt : columns.get "reversed_at" = .ofInstant? r.reversedAt
  reversalReason : columns.get "reversal_reason" = .ofText? r.reversalReason

/-- The check of rewards reads the row of a reward as the reward. -/
theorem Reward.IsRow.ofRow {r : Reward} {columns : Fields} (h : r.IsRow columns) :
    Reward.ofRow columns = .valid r := by
  have hinstant : ∀ {name : String} {t : Option Instant}, columns.get name = .ofInstant? t →
      columns.defaulting name none (Check.optional Check.instant) = .valid t := fun {_ t} ht =>
    Fields.defaulting_optional ht (fun hn => by cases t with
      | none => rfl
      | some _ => cases hn) (Check.optional_ofInstant? t)
  have hreason : columns.defaulting "reversal_reason" none (Check.optional Check.text) =
      .valid r.reversalReason :=
    Fields.defaulting_optional h.reversalReason (fun hn => by
      cases hr : r.reversalReason with
      | none => rfl
      | some _ =>
        rw [hr] at hn
        cases hn) (Check.optional_ofText? r.reversalReason)
  rw [Reward.ofRow, Fields.required_eq h.id (Check.uuid_uuid _), Fields.required_eq h.idempotencyKey (Check.text_str _),
    Fields.required_eq h.referrerId (Check.uuid_uuid _), Fields.required_eq h.referredId (Check.uuid_uuid _),
    Fields.required_eq h.status (Check.member_of_eq (RewardStatus.ofName?_name _)),
    Fields.required_eq h.amount (Check.decimal_of_isFinite h.isFinite),
    Fields.defaulting_eq h.currency (Check.text_str _),
    Fields.defaulting_eq h.metadata (Check.mapping_of_isObject h.isObject),
    Fields.required_eq h.createdAt (Check.instant_instant _), hinstant h.confirmedAt, hinstant h.paidAt,
    hinstant h.reversedAt, hreason]
  rfl

instance : Stored Reward where
  tableName := rewardsTable
  keyColumn := "id"
  keyOf r := .uuid r.id
  IsRow := Reward.IsRow
  of_agrees ha h := ⟨ha.find?_of_some h.id, ha.find?_of_some h.idempotencyKey,
    ha.find?_of_some h.referrerId, ha.find?_of_some h.referredId, ha.find?_of_some h.status,
    ha.find?_of_some h.amount, h.isFinite, ha.find?_of_some h.currency,
    ha.find?_of_some h.metadata, h.isObject, ha.find?_of_some h.createdAt,
    by rw [ha.get_eq]; exact h.confirmedAt, by rw [ha.get_eq]; exact h.paidAt,
    by rw [ha.get_eq]; exact h.reversedAt, by rw [ha.get_eq]; exact h.reversalReason⟩
  get_keyColumn h := by rw [Fields.get, h.id]; rfl
  sameKey_iff _ _ := Value.sameKey_uuid_iff
  hashable_keyOf _ := rfl

/-- Reading the row of a reward gives the reward. -/
theorem Rewards.rewardOf_eq {r : Reward} {row : Fields} (h : r.IsRow row) :
    rewardOf row = .ok r := by
  rw [rewardOf, Reward.IsRow.ofRow h]
  rfl

/-! ## Recorded requests -/

/-- A recorded request as it is stored: its answer may be any value. -/
structure StoredRequest where
  /-- The key of the request. -/
  key : String
  /-- The fingerprint of what was requested. -/
  requestHash : String
  /-- The answer. -/
  response : Value
  /-- When the request was carried out. -/
  createdAt : Instant
  /-- From when on the record may be removed. -/
  expiresAt : Instant
  deriving Repr, Inhabited

/-- The columns stand for the request. -/
structure StoredRequest.IsRow (q : StoredRequest) (columns : Fields) : Prop where
  key : columns.find? "key" = some (.str q.key)
  requestHash : columns.find? "request_hash" = some (.str q.requestHash)
  response : columns.find? "response" = some q.response
  createdAt : columns.find? "created_at" = some (.instant q.createdAt)
  expiresAt : columns.find? "expires_at" = some (.instant q.expiresAt)

instance : Stored StoredRequest where
  tableName := requestsTable
  keyColumn := "key"
  keyOf q := .str q.key
  IsRow := StoredRequest.IsRow
  of_agrees ha h := ⟨ha.find?_of_some h.key, ha.find?_of_some h.requestHash,
    ha.find?_of_some h.response, ha.find?_of_some h.createdAt, ha.find?_of_some h.expiresAt⟩
  get_keyColumn h := by rw [Fields.get, h.key]; rfl
  sameKey_iff _ _ := Value.sameKey_str_iff
  hashable_keyOf _ := rfl

end RewardLedger
