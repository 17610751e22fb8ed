import RewardLedger.Proofs.Ledger.Rows
import RewardLedger.Proofs.Number.DecimalText
import RewardLedger.Proofs.Uuid
import RewardLedger.Proofs.Value.Json

/-!
# Answers read back

An answer is kept in JSON and read back when it is given again (`CreditResult.exists_read`), provided
that its reward and its entry are portable: identifiers have 128 bits, the exponents of amounts can be
represented, and instants exist. What comes back has the same identifiers. It is not always the same
record, since an instant loses the seconds of its offset, but if the instants keep their zone it is
written in the same way.
-/

namespace RewardLedger

/-! ## Parts -/

/-- The identifier has 128 bits. -/
def Uuid.Portable (u : Uuid) : Prop := u.value < 2 ^ 128

/-- The number is finite and its exponents can be represented. -/
def Decimal.Portable (d : Decimal) : Prop :=
  ∃ negative c e, d = .finite negative c e ∧ Decimal.inExponentRange c e = true

/-- The instant exists and keeps its zone. -/
def Instant.Portable (t : Instant) : Prop := t.Valid ∧ t.KeepsZone

/-- The JSON form of an object is an object. -/
theorem Value.isObject_of_jsonForm {v w : Value} (h : v.jsonForm = .ok w) (hv : v.IsObject) :
    w.IsObject := by
  cases v with
  | object fields =>
    rw [jsonForm] at h
    obtain ⟨ws, -, h⟩ := exists_of_bind_eq_ok h
    cases h
    trivial
  | map entries =>
    rw [jsonForm] at h
    obtain ⟨ws, -, h⟩ := exists_of_bind_eq_ok h
    cases h
    trivial
  | _ => exact hv.elim

namespace Check

/-- The text of an identifier is read back. -/
theorem uuid_json {u : Uuid} (h : u.Portable) : uuid u.json = .valid u := by
  rw [Uuid.json, uuid, Uuid.ofText?_text h]

/-- The text of an optional identifier is read back. -/
theorem optional_uuid_json {o : Option Uuid} (h : ∀ u, o = some u → u.Portable) :
    optional uuid (.ofOption Uuid.json o) = .valid o := by
  cases o with
  | none => rfl
  | some u =>
    have hu := uuid_json (h u rfl)
    rw [Uuid.json] at hu
    rw [Value.ofOption, Uuid.json, optional, hu]
    · rfl
    · exact fun hnull => nomatch hnull

/-- The text of a decimal is read back. -/
theorem decimal_json {d : Decimal} (h : d.Portable) : decimal d.json = .valid d := by
  obtain ⟨negative, c, e, rfl, hrange⟩ := h
  have htext : (Decimal.finite negative c e).text.toList = (Decimal.finite negative c e).chars :=
    String.toList_ofList
  rw [Decimal.json, decimal, decimal.readDecimal, htext, Decimal.ofChars?_chars hrange]
  rfl

/-- The text of an instant is read as an instant, which has the same text if the zone is kept. -/
theorem exists_instant_json {t : Instant} (h : t.Valid) :
    ∃ t', instant t.json = .valid t' ∧ (t.KeepsZone → t'.json = t.json) := by
  refine ⟨t.inMinutes, ?_, fun hzone => ?_⟩
  · rw [Instant.json, instant, Instant.read_zuluText h]
  · rw [Instant.json, Instant.json, Instant.zuluText_inMinutes.2 hzone]

/-- The text of an optional instant is read as an optional instant, which has the same text if the zone
is kept. -/
theorem exists_optional_instant_json {o : Option Instant} (h : ∀ t, o = some t → t.Valid) :
    ∃ o', optional instant (.ofOption Instant.json o) = .valid o' ∧
      ((∀ t, o = some t → t.KeepsZone) →
        Value.ofOption Instant.json o' = .ofOption Instant.json o) := by
  cases o with
  | none => exact ⟨none, rfl, fun _ => rfl⟩
  | some t =>
    obtain ⟨t', hread, htext⟩ := exists_instant_json (h t rfl)
    refine ⟨some t', ?_, fun hzone => htext (hzone t rfl)⟩
    rw [Instant.json] at hread
    rw [Value.ofOption, Instant.json, optional, hread]
    · rfl
    · exact fun hnull => nomatch hnull

/-- An optional text is read back. -/
theorem optional_text_json (o : Option String) :
    optional text (.ofOption .str o) = .valid o := by
  cases o <;> rfl

end Check

/-! ## Entries and rewards -/

/-- What the entry consists of can be read back from JSON. -/
structure LedgerEntry.Portable (e : LedgerEntry) : Prop where
  id : e.id.Portable
  userId : e.userId.Portable
  rewardId : ∀ u, e.rewardId = some u → u.Portable
  amount : e.amount.Portable
  reversalOf : ∀ u, e.reversalOf = some u → u.Portable
  metadata : e.metadata.IsObject
  createdAt : e.createdAt.Valid

/-- An entry in JSON is read as an entry with the same identifier, which is written in the same way if
the zone is kept. -/
theorem LedgerEntry.Portable.exists_read {e : LedgerEntry} (h : e.Portable) {v : Value}
    (hv : e.json = .ok v) :
    ∃ e', Check.partsOf LedgerEntry.ofRow v = .valid e' ∧ e'.id = e.id ∧
      (e.createdAt.KeepsZone → e'.json = .ok v) := by
  obtain ⟨metadata, hmetadata, hv⟩ := exists_of_bind_eq_ok hv
  obtain rfl := Except.ok.inj hv
  obtain ⟨createdAt, hread, htext⟩ := Check.exists_instant_json h.createdAt
  have hobject := Value.isObject_of_jsonForm hmetadata h.metadata
  refine ⟨{ e with metadata, createdAt }, ?_, rfl, fun hzone => ?_⟩
  · rw [Check.partsOf, LedgerEntry.ofRow, Fields.required_eq rfl (Check.uuid_json h.id),
      Fields.required_eq rfl (Check.uuid_json h.userId),
      Fields.defaulting_eq rfl (Check.optional_uuid_json h.rewardId),
      Fields.required_eq rfl (Check.member_of_eq (EntryType.ofName?_name _)),
      Fields.required_eq rfl (Check.decimal_json h.amount),
      Fields.defaulting_eq rfl (Check.text_str _),
      Fields.defaulting_eq rfl (Check.member_of_eq (EntryStatus.ofName?_name _)),
      Fields.defaulting_eq rfl (Check.optional_uuid_json h.reversalOf),
      Fields.defaulting_eq rfl (Check.mapping_of_isObject hobject), Fields.required_eq rfl hread]
    rfl
  · rw [LedgerEntry.json]
    dsimp only
    rw [Value.jsonForm_of_jsonForm _ hmetadata, htext hzone]
    rfl

/-- All instants that a reward shows have the property. -/
structure Reward.Shows (P : Instant → Prop) (r : Reward) : Prop where
  createdAt : P r.createdAt
  confirmedAt : ∀ t, r.confirmedAt = some t → P t
  paidAt : ∀ t, r.paidAt = some t → P t
  reversedAt : ∀ t, r.reversedAt = some t → P t

/-- What holds of all instants that a reward shows may be weakened. -/
theorem Reward.Shows.mono {P Q : Instant → Prop} {r : Reward} (h : r.Shows P)
    (hPQ : ∀ t, P t → Q t) : r.Shows Q :=
  ⟨hPQ _ h.createdAt, fun t ht => hPQ t (h.confirmedAt t ht), fun t ht => hPQ t (h.paidAt t ht),
    fun t ht => hPQ t (h.reversedAt t ht)⟩

/-- What the reward consists of can be read back from JSON. -/
structure Reward.Portable (r : Reward) : Prop where
  id : r.id.Portable
  referrerId : r.referrerId.Portable
  referredId : r.referredId.Portable
  amount : r.amount.Portable
  metadata : r.metadata.IsObject
  instants : r.Shows Instant.Valid

/-- A reward in JSON is read as a reward with the same identifier, which is written in the same way if
the zones are kept. -/
theorem Reward.Portable.exists_read {r : Reward} (h : r.Portable) {v : Value}
    (hv : r.json = .ok v) :
    ∃ r', Check.partsOf Reward.ofRow v = .valid r' ∧ r'.id = r.id ∧
      (r.Shows Instant.KeepsZone → r'.json = .ok v) := by
  obtain ⟨metadata, hmetadata, hv⟩ := exists_of_bind_eq_ok hv
  obtain rfl := Except.ok.inj hv
  -- only the particulars and the instants may come back in another form
  obtain ⟨createdAt, hcreated, hcreatedText⟩ := Check.exists_instant_json h.instants.createdAt
  obtain ⟨confirmedAt, hconfirmed, hconfirmedText⟩ := Check.exists_optional_instant_json
    h.instants.confirmedAt
  obtain ⟨paidAt, hpaid, hpaidText⟩ := Check.exists_optional_instant_json
    h.instants.paidAt
  obtain ⟨reversedAt, hreversed, hreversedText⟩ := Check.exists_optional_instant_json
    h.instants.reversedAt
  have hobject := Value.isObject_of_jsonForm hmetadata h.metadata
  refine ⟨{ r with metadata, createdAt, confirmedAt, paidAt, reversedAt }, ?_, rfl, fun hzones => ?_⟩
  · rw [Check.partsOf, Reward.ofRow, Fields.required_eq rfl (Check.uuid_json h.id),
      Fields.required_eq rfl (Check.text_str _),
      Fields.required_eq rfl (Check.uuid_json h.referrerId),
      Fields.required_eq rfl (Check.uuid_json h.referredId),
      Fields.required_eq rfl (Check.member_of_eq (RewardStatus.ofName?_name _)),
      Fields.required_eq rfl (Check.decimal_json h.amount),
      Fields.defaulting_eq rfl (Check.text_str _),
      Fields.defaulting_eq rfl (Check.mapping_of_isObject hobject),
      Fields.required_eq rfl hcreated, Fields.defaulting_eq rfl hconfirmed,
      Fields.defaulting_eq rfl hpaid, Fields.defaulting_eq rfl hreversed,
      Fields.defaulting_eq rfl (Check.optional_text_json r.reversalReason)]
    rfl
  · rw [Reward.json]
    dsimp only
    rw [Value.jsonForm_of_jsonForm _ hmetadata, hcreatedText hzones.createdAt,
      hconfirmedText hzones.confirmedAt, hpaidText hzones.paidAt, hreversedText hzones.reversedAt]
    rfl

/-! ## Answers -/

/-- The instants that an answer shows. -/
def CreditResult.instants (r : CreditResult) : List Instant :=
  r.reward.createdAt :: r.entry.createdAt ::
    (r.reward.confirmedAt.toList ++ r.reward.paidAt.toList ++ r.reward.reversedAt.toList)

/-- The instants that an answer shows are those of its reward and its entry. -/
theorem CreditResult.forall_instants {r : CreditResult} {P : Instant → Prop} :
    (∀ t ∈ r.instants, P t) ↔ r.reward.Shows P ∧ P r.entry.createdAt := by
  simp only [instants, List.mem_cons, List.mem_append, Option.mem_toList]
  constructor
  · intro h
    exact ⟨⟨h _ (.inl rfl), fun t ht => h t (by tauto), fun t ht => h t (by tauto),
      fun t ht => h t (by tauto)⟩, h _ (.inr (.inl rfl))⟩
  · rintro ⟨⟨hcreated, hconfirmed, hpaid, hreversed⟩, hentry⟩ t ht
    rcases ht with rfl | rfl | (ht | ht) | ht
    · exact hcreated
    · exact hentry
    · exact hconfirmed t ht
    · exact hpaid t ht
    · exact hreversed t ht

/-- An answer in JSON is read as an answer with the same identifiers, which is written in the same way
if the zones are kept. -/
theorem CreditResult.exists_read {r : CreditResult} (hreward : r.reward.Portable)
    (hentry : r.entry.Portable) {v : Value} (hv : r.json = .ok v) :
    ∃ r', Check.record CreditResult.ofFields v = .valid r' ∧ r'.replayed = r.replayed ∧
      r'.reward.id = r.reward.id ∧ r'.entry.id = r.entry.id ∧
      ((∀ t ∈ r.instants, t.KeepsZone) → r'.json = .ok v) := by
  obtain ⟨rewardValue, hrewardValue, hv⟩ := exists_of_bind_eq_ok hv
  obtain ⟨entryValue, hentryValue, hv⟩ := exists_of_bind_eq_ok hv
  obtain rfl := Except.ok.inj hv
  obtain ⟨reward, hreadReward, hrewardId, hrewardJson⟩ := hreward.exists_read hrewardValue
  obtain ⟨entry, hreadEntry, hentryId, hentryJson⟩ := hentry.exists_read hentryValue
  refine ⟨⟨reward, entry, r.replayed⟩, ?_, rfl, hrewardId, hentryId, fun hzones => ?_⟩
  · rw [Check.record, CreditResult.ofFields, Fields.required_eq rfl hreadReward,
      Fields.required_eq rfl hreadEntry]
    rfl
  · rw [CreditResult.json]
    dsimp only
    rw [hrewardJson (forall_instants.1 hzones).1, hentryJson (forall_instants.1 hzones).2]
    rfl

end RewardLedger
