import Mathlib.Data.List.Nodup
import RewardLedger.Proofs.Ledger.Reversal
import RewardLedger.Proofs.Sorting

/-!
# What becomes of rewards

A reward is confirmed, paid out or taken back, each in one transaction and only from a state that can
be left for the new one. The row of the reward changes in its state, its times and its reason only
(`Reward.IsRow.moved`). Taking a reward back takes its oldest credit back with it, and taking that
credit back by hand takes the reward back.
-/

namespace RewardLedger

variable {cfg : Config} {p : Permission} {base : Option Store} {b b' : Books} {w w' : World}

open Op

/-! ## Entries of users and rewards -/

namespace Ledger

/-- The entries that are read from rows are those that the rows stand for. -/
theorem eq_of_entryOf {rows : List Fields} {es records : List LedgerEntry}
    (hread : List.Forall₂ (fun columns e => entryOf columns = .ok e) rows es)
    (hrows : List.Forall₂ (fun columns e => LedgerEntry.IsRow e columns) rows records) :
    es = records := by
  induction hread generalizing records with
  | nil =>
    cases hrows
    rfl
  | cons he _ ih =>
    cases hrows with
    | cons hrow hrest =>
      rw [entryOf_eq hrow] at he
      rw [Except.ok.inj he, ih hrest]

/-- The entries of rows, oldest first, are those that the rows stand for. -/
theorem perm_of_oldestFirst {rows : List Fields} {es records : List LedgerEntry}
    (h : oldestFirst rows = .ok es)
    (hrows : List.Forall₂ (fun columns e => LedgerEntry.IsRow e columns) rows records) :
    es.Perm records := by
  obtain ⟨sorted, hsorted, h⟩ := exists_of_bind_eq_ok h
  obtain ⟨records', hrecords', hperm⟩ :=
    List.perm_comp_forall₂ (perm_of_sortByKey hsorted) hrows
  rw [eq_of_entryOf (forall₂_of_mapM_eq_ok h) hrecords']
  exact hperm

/-- The entries whose rows have a value in a column, oldest first, are the entries of the books that
are told by it. -/
theorem ends_oldestFirst (h : w.Holds cfg base b) {column : String} {v : Value}
    {keep : LedgerEntry → Bool}
    (hkeep : ∀ e columns, LedgerEntry.IsRow e columns →
      columns.columnIs column v = .ok (keep e)) :
    (do Op.ofExcept (oldestFirst (← rowsWith column v)) : Op (List LedgerEntry)).Ends w
      (fun es w' => w' = w ∧ es.Perm (b.entries.filter keep)) fun _ w' => w' = w := by
  refine ends_bind (ends_query (fun rows hrows => ?_) fun _ _ => rfl)
  refine ends_ofExcept (fun es hes => ⟨rfl, ?_⟩) fun _ _ => rfl
  obtain ⟨kept, hkept, hstand⟩ := h.held.entries.select h.sound hkeep
  rw [show rows = kept from Except.ok.inj (hrows.symm.trans hkept)] at hes
  exact perm_of_oldestFirst hes hstand

/-- The entries of a user are the entries of the books that concern the user. -/
theorem ends_entriesForUser (h : w.Holds cfg base b) (user : Value) :
    (entriesForUser user).Ends w
      (fun es w' => w' = w ∧
        es.Perm (b.entries.filter fun e => (Value.uuid e.userId).sameKey user))
      fun _ w' => w' = w := by
  refine ends_oldestFirst h fun e columns he => ?_
  rw [Fields.columnIs, Fields.column, he.userId]
  exact Value.equalTo_uuid e.userId user

/-- The entries of a reward are the entries of the books that belong to the reward. -/
theorem ends_entriesForReward (h : w.Holds cfg base b) (reward : Value) :
    (entriesForReward reward).Ends w
      (fun es w' => w' = w ∧
        es.Perm (b.entries.filter fun e => (Value.ofUuid? e.rewardId).sameKey reward))
      fun _ w' => w' = w := by
  refine ends_oldestFirst h fun e columns he => ?_
  rw [Fields.columnIs, Fields.column, he.rewardId]
  cases e.rewardId with
  | none => exact Value.equalTo_null reward
  | some id => exact Value.equalTo_uuid id reward

end Ledger

/-! ## The row of a reward -/

/-- The columns of a reward that may change. -/
def Reward.changing : List String :=
  ["status", "confirmed_at", "paid_at", "reversed_at", "reversal_reason"]

/-- A row that changes only where a reward may change stands for the changed reward. -/
theorem Reward.IsRow.moved {r : Reward} {columns changes : Fields} (h : r.IsRow columns)
    (hnodup : changes.names.Nodup) (hnames : changes.names ⊆ Reward.changing)
    {status : RewardStatus} {confirmedAt paidAt reversedAt : Option Instant}
    {reason : Option String} (hstatus : changes.find? "status" = some (.str status.name))
    (hconfirmed : (changes.find? "confirmed_at").getD (columns.get "confirmed_at") =
      .ofInstant? confirmedAt)
    (hpaid : (changes.find? "paid_at").getD (columns.get "paid_at") = .ofInstant? paidAt)
    (hreversed : (changes.find? "reversed_at").getD (columns.get "reversed_at") =
      .ofInstant? reversedAt)
    (hreason : (changes.find? "reversal_reason").getD (columns.get "reversal_reason") =
      .ofText? reason) :
    Reward.IsRow { r with
      status, confirmedAt, paidAt, reversedAt, reversalReason := reason }
      (columns.putAll changes) := by
  -- a column stays unless it may change, and then it is what was given or what it was
  have hfixed : ∀ name, name ∉ changing →
      (columns.putAll changes).find? name = columns.find? name := fun name hn =>
    columns.find?_putAll_of_notMem fun hin => hn (hnames hin)
  have hset : ∀ name, (columns.putAll changes).get name =
      (changes.find? name).getD (columns.get name) := fun name => by
    rw [Fields.get, columns.find?_putAll_of_nodup hnodup name]
    cases changes.find? name <;> rfl
  have hnow : (columns.putAll changes).find? "status" = some (.str status.name) := by
    rw [columns.find?_putAll_of_nodup hnodup, hstatus]
    rfl
  exact {
    id := (hfixed _ (by decide)).trans h.id
    idempotencyKey := (hfixed _ (by decide)).trans h.idempotencyKey
    referrerId := (hfixed _ (by decide)).trans h.referrerId
    referredId := (hfixed _ (by decide)).trans h.referredId
    status := hnow
    amount := (hfixed _ (by decide)).trans h.amount
    isFinite := h.isFinite
    currency := (hfixed _ (by decide)).trans h.currency
    metadata := (hfixed _ (by decide)).trans h.metadata
    isObject := h.isObject
    createdAt := (hfixed _ (by decide)).trans h.createdAt
    confirmedAt := (hset _).trans hconfirmed
    paidAt := (hset _).trans hpaid
    reversedAt := (hset _).trans hreversed
    reversalReason := (hset _).trans hreason }

/-- The row of a reward that is confirmed. -/
theorem Reward.IsRow.confirmed {r : Reward} {columns : Fields} (h : r.IsRow columns) (now : Instant) :
    Reward.IsRow { r with status := .confirmed, confirmedAt := some now } (columns.putAll [
      ("status", .str RewardStatus.confirmed.name), ("confirmed_at", .instant now)]) := by
  have hnodup : ["status", "confirmed_at"].Nodup := by decide
  have hnames : ["status", "confirmed_at"] ⊆ Reward.changing := by decide
  exact h.moved (by exact hnodup) (by exact hnames) rfl rfl h.paidAt h.reversedAt h.reversalReason

/-- The row of a reward that is paid out. -/
theorem Reward.IsRow.paid {r : Reward} {columns : Fields} (h : r.IsRow columns) (now : Instant) :
    Reward.IsRow { r with status := .paid, paidAt := some now } (columns.putAll [
      ("status", .str RewardStatus.paid.name), ("paid_at", .instant now)]) := by
  have hnodup : ["status", "paid_at"].Nodup := by decide
  have hnames : ["status", "paid_at"] ⊆ Reward.changing := by decide
  exact h.moved (by exact hnodup) (by exact hnames) rfl h.confirmedAt rfl h.reversedAt
    h.reversalReason

/-- The row of a reward that is taken back. -/
theorem Reward.IsRow.reversed {r : Reward} {columns : Fields} (h : r.IsRow columns) (now : Instant)
    (reason : Option String) :
    Reward.IsRow { r with status := .reversed, reversedAt := some now, reversalReason := reason }
      (columns.putAll [("status", .str RewardStatus.reversed.name), ("reversed_at", .instant now),
        ("reversal_reason", .ofText? reason)]) := by
  have hnodup : ["status", "reversed_at", "reversal_reason"].Nodup := by decide
  have hnames : ["status", "reversed_at", "reversal_reason"] ⊆ Reward.changing := by decide
  exact h.moved (by exact hnodup) (by exact hnames) rfl h.confirmedAt h.paidAt rfl rfl

namespace Rewards

/-- Changes of a reward that stand for a function of it change its record by the function. -/
theorem ends_updateReward (h : w.Holds cfg base b) (id : Uuid) {changes : Fields}
    (hnames : changes.names ⊆ Reward.changing) {f : Reward → Reward}
    (hf : ∀ (r : Reward) columns, r.IsRow columns → (f r).IsRow (columns.putAll changes))
    (hproper : (b.withReward id f).Proper cfg) :
    (change (Store.update rewardsTable (.uuid id) changes)).Ends w
      (fun columns w' => w'.Holds cfg base (b.withReward id f) ∧
        ∃ r ∈ b.rewards, r.id = id ∧ (f r).IsRow columns)
      fun _ w' => w'.Holds cfg base b := by
  have hfree : ∀ ix ∈ [("idempotency_key", ["idempotency_key"])], ∀ c ∈ ix.2,
      c ∉ changes.names := fun ix hix c hc hcn => by
    rw [List.mem_singleton.1 hix, List.mem_singleton] at hc
    have hchanging := hnames hcn
    rw [hc] at hchanging
    exact absurd hchanging (by decide)
  refine (ends_updateRecord h h.held.rewards rfl hfree (f := .changed id f)
    (fun r columns hr hrow => ?_) (fun r hr => if_neg fun hrid => hr (congrArg Value.uuid hrid))
    (fun s hl ho => ?_) hproper rfl).mono ?_ fun _ _ hw' => hw'
  · rw [Reward.changed, if_pos (Value.uuid.inj hr)]
    exact hf r columns hrow
  · exact ⟨h.held.users.of_table?_eq (ho _ (by decide)),
      h.held.entries.of_table?_eq (ho _ (by decide)), hl,
      h.held.requests.of_table?_eq (ho _ (by decide))⟩
  · rintro columns w' ⟨hw', r, hr, hrid, hrow⟩
    rw [Reward.changed, if_pos (Value.uuid.inj hrid)] at hrow
    exact ⟨hw', r, hr, Value.uuid.inj hrid, hrow⟩

/-! ## Moving on -/

section

variable {α : Type} {id : Value} {target : RewardStatus} {op : Reward → Op α}
  {good : α → World → Prop} {bad : Failure → World → Prop}

/-- What is done to move a reward is done to one that is found in a row that can be read and that can
move, or refused before anything is done. -/
theorem ends_movable
    (hop : ∀ r found, w.store.get rewardsTable id = .ok (some found) → Reward.ofRow found = .valid r →
      r.status.canMove target = true → (op r).Ends w good bad)
    (hrefused : ∀ e, bad e w) :
    (do
      let r ← get id
      requireTransition r target
      op r).Ends w good bad := by
  refine ends_bind (ends_bind (ends_query (fun row hget => ?_) fun e _ => hrefused e))
  cases row with
  | none => exact ends_refuse (hrefused _)
  | some found =>
    refine ends_ofExcept (fun r hread => ?_) fun e _ => hrefused e
    unfold requireTransition
    cases hmove : r.status.canMove target with
    | true => exact hop r found hget (Checked.toExcept_eq_ok.1 hread) hmove
    | false => exact ends_bind (ends_refuse (hrefused _))

/-- In a world that holds books what is done to move a reward is done to one of the books. -/
theorem ends_movable_held (h : w.Holds cfg base b)
    (hop : ∀ r ∈ b.rewards, id = .uuid r.id → r.status.canMove target = true →
      (op r).Ends w good bad)
    (hrefused : ∀ e, bad e w) :
    (do
      let r ← get id
      requireTransition r target
      op r).Ends w good bad := by
  refine ends_movable (fun r found hget hread hmove => ?_) hrefused
  obtain ⟨r', hr', hrow, hid⟩ := h.held.rewards.of_get_some h.sound hget
  obtain rfl : r = r' := Checked.valid.inj (hread.symm.trans (Reward.IsRow.ofRow hrow))
  exact hop r hr' hid hmove

end

/-- Confirming a reward is a step of the books that changes no standing, or nothing happens. -/
theorem ends_confirm (h : w.Holds cfg base b) (id : Value) :
    (confirm id).Ends w (fun _ w' => ∃ b', b.Step cfg p b' ∧ b.SameStanding b' ∧ w'.Holds cfg base b')
      fun _ w' => w'.Undone cfg base b := by
  refine ends_bind ((ends_atomic (Q := fun columns b' => (b.Step cfg p b' ∧ b.SameStanding b') ∧
    ∃ r : Reward, r.IsRow columns) h ?_).mono ?_ fun _ _ hundone => hundone)
  · have henter := h.enter
    refine ends_movable_held henter ?_ fun _ => henter.undone
    rintro r hr rfl hmove
    refine ends_bind (ends_readClock (fun now clock _ => ?_) fun _ => henter.undone)
    have hread : ({ w.enter with clock } : World).Holds cfg (some (base.getD w.store)) b :=
      henter.congr rfl rfl
    have hnames : ["status", "confirmed_at"] ⊆ Reward.changing := by decide
    refine (ends_updateReward hread r.id (by exact hnames) (fun _ _ hrow => hrow.confirmed now)
      (h.proper.withReward (fun _ => rfl) (fun _ => rfl) fun _ => rfl)).mono ?_
      fun _ _ hw' => hw'.undone
    rintro columns w' ⟨hw', r', -, -, hrow⟩
    exact ⟨_, hw', ⟨.confirm hr hmove, rfl, rfl⟩, _, hrow⟩
  · rintro columns w' ⟨b', hw', ⟨hs, hsame⟩, r, hrow⟩
    exact ends_bind (ends_log (ends_ofExcept_ok (rewardOf_eq hrow)
      ⟨b', hs, hsame, hw'.congr rfl rfl⟩))

/-- Paying a reward out is a step of the books that changes no standing, or nothing happens. -/
theorem ends_pay (h : w.Holds cfg base b) (id : Value) :
    (pay cfg id).Ends w (fun _ w' => ∃ b', b.Step cfg p b' ∧ b.SameStanding b' ∧ w'.Holds cfg base b')
      fun _ w' => w'.Undone cfg base b := by
  refine ends_bind ((ends_atomic (Q := fun paid b' => (b.Step cfg p b' ∧ b.SameStanding b') ∧
    ∃ r : Reward, r.IsRow paid.1) h ?_).mono ?_ fun _ _ hundone => hundone)
  · -- inside the transaction: the reward can move, a debit is posted, and then it is moved
    have henter := h.enter
    refine ends_movable_held henter ?_ fun _ => henter.undone
    rintro r hr rfl hmove
    refine ends_bind (ends_readClock (fun now clock _ => ?_) fun _ => henter.undone)
    have hread : ({ w.enter with clock } : World).Holds cfg (some (base.getD w.store)) b :=
      henter.congr rfl rfl
    have htag : Value.uuid r.id = .ofUuid? (some r.id) := rfl
    have hnamed : cfg.currencyOf (.str r.currency) = .str r.currency :=
      h.proper.rewardCurrencies r hr
    refine ends_bind ((Ledger.ends_createDebit hread (by exact hnamed) htag).mono ?_
      fun _ _ hundone => hundone)
    rintro e w₁ ⟨b₁, hw₁, hposted, huser, htype, hpositive, hcurrency, htagged, hof⟩
    have hle : b.issued ≤ b₁.issued := Nat.le_trans (Nat.le_of_lt hposted.can.fresh) hposted.le
    have hnames : ["status", "paid_at"] ⊆ Reward.changing := by decide
    refine ends_bind ((ends_updateReward hw₁ r.id (by exact hnames) (fun _ _ hrow => hrow.paid now)
      (hw₁.proper.withReward (fun _ => rfl) (fun _ => rfl) fun _ => rfl)).mono ?_
      fun _ _ hw' => hw'.undone.of_le hle)
    rintro columns w' ⟨hw', r', -, -, hrow⟩
    have hamount : e.amount = r.amount := (h.proper.rewardAmounts r hr).eq_of_positive hpositive
    have hnothing : e.reversalOf = none := Value.eq_none_of_null_eq hof
    rw [hposted.eq] at hw'
    exact ends_pure ⟨_, hw', ⟨.pay hr hmove hposted.can hposted.le htype (Value.uuid.inj huser).symm
      htagged hamount hcurrency hnothing, rfl, rfl⟩, _, hrow⟩
  · rintro ⟨columns, e⟩ w' ⟨b', hw', ⟨hs, hsame⟩, r, hrow⟩
    refine ends_bind (ends_log (ends_bind (ends_ofExcept_ok (rewardOf_eq hrow) ?_)))
    exact ends_pure ⟨b', hs, hsame, hw'.congr rfl rfl⟩

/-! ## Taking back -/

/-- The oldest credit of a reward is a credit of the books that belongs to it. -/
theorem ends_oldestCredit (h : w.Holds cfg base b) (id : Uuid) :
    (oldestCredit (.uuid id)).Ends w
      (fun found w' => w' = w ∧ ∀ e, found = some e →
        e ∈ b.entries ∧ e.rewardId = some id ∧ e.entryType = .credit)
      fun _ w' => w' = w := by
  refine ends_bind ((Ledger.ends_entriesForReward h _).mono ?_ fun _ _ hw' => hw')
  rintro es w' ⟨rfl, hperm⟩
  refine ends_pure ⟨rfl, fun e he => ?_⟩
  have hmem := hperm.mem_iff.1 (List.mem_of_find?_eq_some he)
  have htype := List.find?_some he
  obtain ⟨hin, htag⟩ := List.mem_filter.1 hmem
  refine ⟨hin, ?_, of_decide_eq_true htype⟩
  cases hreward : e.rewardId with
  | none =>
    rw [hreward] at htag
    simp [Value.ofUuid?, Value.sameKey, Value.equals, Value.scalarEquals, Value.number?] at htag
  | some owner =>
    rw [hreward] at htag
    exact congrArg some (Value.uuid.inj (Value.sameKey_uuid_iff.1 htag)).symm

/-- No two entries have the same identifier. -/
theorem eq_of_entry_id (h : w.Holds cfg base b) {e e' : LedgerEntry} (he : e ∈ b.entries)
    (he' : e' ∈ b.entries) (hid : e.id = e'.id) : e = e' := by
  have hnodup : (b.entries.map Stored.keyOf).Nodup := by
    rw [List.Nodup, List.pairwise_map]
    exact h.held.entries.pairwise_keyOf h.sound
  exact List.inj_on_of_nodup_map hnodup he he' (congrArg Value.uuid hid)

/-- Taking a reward back is a step of the books that changes no standing, or nothing happens. -/
theorem ends_reverse (h : w.Holds cfg base b) (id : Value) (reason : Option String) :
    (reverse cfg id (.ofText? reason)).Ends w
      (fun _ w' => ∃ b', b.Step cfg p b' ∧ b.SameStanding b' ∧ w'.Holds cfg base b')
      fun _ w' => w'.Undone cfg base b := by
  refine ends_bind ((ends_atomic (Q := fun taken b' => (b.Step cfg p b' ∧ b.SameStanding b') ∧
    ∃ r : Reward, r.IsRow taken.1) h ?_).mono ?_ fun _ _ hundone => hundone)
  · -- inside the transaction: the reward can move, its credit is taken back, and then it is moved
    have henter := h.enter
    refine ends_movable_held henter ?_ fun _ => henter.undone
    rintro r hr rfl hmove
    refine ends_bind ((ends_oldestCredit henter r.id).mono ?_ ?_)
    swap
    · rintro _ _ rfl
      exact henter.undone
    rintro found _ ⟨rfl, hfound⟩
    cases found with
    | none => exact ends_refuse henter.undone
    | some e =>
      obtain ⟨he, htag, htype⟩ := hfound e rfl
      refine ends_bind ((Ledger.ends_reverseEntry henter _ _ _).mono ?_
        fun _ _ hundone => hundone)
      rintro reversal w₁ ⟨b₁, hw₁, e', htook, hid, -⟩
      -- the entry that was taken back is the credit that was found
      obtain rfl := eq_of_entry_id henter he htook.mem (Value.uuid.inj hid)
      have hle : b.issued ≤ b₁.issued := Nat.le_trans (Nat.le_of_lt htook.can.fresh) htook.le
      refine ends_bind (ends_readClock (fun now clock _ => ?_) fun _ => hw₁.undone.of_le hle)
      have hread : ({ w₁ with clock } : World).Holds cfg (some (base.getD w.store)) b₁ :=
        hw₁.congr rfl rfl
      have hnames : ["status", "reversed_at", "reversal_reason"] ⊆ Reward.changing := by decide
      refine ends_bind ((ends_updateReward hread r.id (by exact hnames)
        (fun _ _ hrow => hrow.reversed now reason)
        (hw₁.proper.withReward (fun _ => rfl) (fun _ => rfl) fun _ => rfl)).mono ?_
        fun _ _ hw' => hw'.undone.of_le hle)
      rintro columns w' ⟨hw', r', -, -, hrow⟩
      rw [htook.eq] at hw'
      exact ends_pure ⟨_, hw', ⟨.reverse hr hmove he htag htype htook.posted htook.free
        htook.reverses htook.can htook.le, rfl, rfl⟩, _, hrow⟩
  · rintro ⟨columns, reversal⟩ w' ⟨b', hw', ⟨hs, hsame⟩, r, hrow⟩
    refine ends_bind (ends_log (ends_bind (ends_ofExcept_ok (rewardOf_eq hrow) ?_)))
    exact ends_pure ⟨b', hs, hsame, hw'.congr rfl rfl⟩

/-- Finding the reward whose oldest credit an entry is does not change the world. -/
theorem ends_rewardCreditedBy (h : w.Holds cfg base b) (e : LedgerEntry) (id : Value) :
    (rewardCreditedBy e id).Ends w (fun _ w' => w' = w) fun _ w' => w' = w := by
  unfold rewardCreditedBy
  cases e.rewardId with
  | none => exact ends_pure rfl
  | some owner =>
    refine ends_bind ((ends_oldestCredit h owner).mono ?_ fun _ _ hw' => hw')
    rintro found w' ⟨rfl, -⟩
    cases found with
    | none => exact ends_pure rfl
    | some credit =>
      refine ends_bind (ends_ofExcept (fun same _ => ?_) fun _ _ => rfl)
      cases same with
      | true => exact ends_pure rfl
      | false => exact ends_pure rfl

/-- Taking an entry back takes its reward back with it, or the entry belongs to no reward. -/
theorem ends_reverseEntry (h : w.Holds cfg base b) (id : Value) (reason : Option String) :
    (reverseEntry cfg id (.ofText? reason)).Ends w
      (fun _ w' => ∃ b', b.Step cfg p b' ∧ b.SameStanding b' ∧ w'.Holds cfg base b')
      fun _ w' => w'.Undone cfg base b := by
  refine (ends_atomic (Q := fun _ b' => b.Step cfg p b' ∧ b.SameStanding b') h ?_).mono
    (fun _ _ ⟨b', hw', hs, hsame⟩ => ⟨b', hs, hsame, hw'⟩) fun _ _ hundone => hundone
  have henter := h.enter
  refine ends_bind ((Ledger.ends_getEntry henter id).mono ?_ ?_)
  swap
  · rintro _ w' rfl
    exact henter.undone
  rintro e w' ⟨rfl, -, rfl⟩
  refine ends_bind ((ends_rewardCreditedBy henter e _).mono ?_ ?_)
  swap
  · rintro _ w' rfl
    exact henter.undone
  rintro found w' rfl
  -- the credit of a reward is taken back with the reward, and any other entry alone
  cases found with
  | some owner =>
    refine ends_bind ((ends_reverse (p := p) henter _ reason).mono ?_ fun _ _ hundone => hundone)
    rintro result w' ⟨b', hs, hsame, hw'⟩
    exact ends_pure ⟨b', hw', hs, hsame⟩
  | none =>
    refine (Ledger.ends_reverseEntry henter _ _ .null).mono ?_ fun _ _ hundone => hundone
    rintro reversal w' ⟨b', hw', e', htook, -, howner⟩
    refine ⟨b', hw', htook.step (.inl ?_), htook.sameStanding⟩
    cases hreward : e'.rewardId with
    | none => rfl
    | some owner => cases howner owner hreward

end Rewards

end RewardLedger
