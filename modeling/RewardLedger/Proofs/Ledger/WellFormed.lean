import RewardLedger.Proofs.Ledger.Pairs
import RewardLedger.Proofs.Ledger.Progress
import RewardLedger.Settings

/-!
# The ledger is well formed

Whatever route an amount takes to a row, it was rounded to the scale and accepted, so it is a
positive multiple of the smallest amount that fits the precision (`Money.Settled.isAmount`). An entry
or a reward is only added for users that are there, and users stay (`Books.Peopled.step`); with what
is known of reversals (`Books.Paired`) nothing in the books points at something that is not there.

Two things are not said by the steps of the books: that no two users have the same email, which the
index of the table sees to (`World.Holds.nodup_emails`), and that the parties of a reward differ,
which its row tells (`World.Holds.parties_ne`).
-/

namespace RewardLedger

variable {cfg : Config} {p : Permission} {base : Option Store} {b b' : Books} {w : World}

/-! ## Amounts -/

/-- The number is positive, with so many places behind the point and at most so many digits. -/
def Decimal.IsAmount (places : Int) (digits : Nat) (d : Decimal) : Prop :=
  ∃ c, d = .finite false c (-places) ∧ 0 < c ∧ digitCount c ≤ digits

namespace Money

variable {m : Money} {a : Decimal} {places : Int}

/-- The smallest amount is the power of ten with the places of the scale, unless there are so many
that it cannot be written. -/
theorem exponent_of_quantum {c : Nat} {t : Int} (hscale : m.scale = some places)
    (hplaces : places ≤ 1000026) (h : m.quantum = .ok (.finite false c t)) : t = -places := by
  rw [quantum, hscale] at h
  cases hp : DecimalContext.standard.powerOfTen (-places) with
  | error cause => simp [hp, Except.mapError] at h
  | ok x =>
    simp only [hp, Except.mapError, Except.ok.injEq] at h
    subst h
    unfold DecimalContext.powerOfTen at hp
    split at hp
    · cases hp
    unfold DecimalContext.fit at hp
    rw [if_neg (by decide)] at hp
    split at hp
    · cases hp
    split at hp
    · -- only a smaller number than that would be rounded
      rename_i hsmall
      exact absurd hsmall.2 (by simp only [DecimalContext.tiny, DecimalContext.standard]; omega)
    rw [DecimalContext.fitPrecision_of_le _ _ _ (by decide)] at hp
    cases hp
    rfl

/-- A settled amount is a positive multiple of the smallest amount that fits the precision. -/
theorem Settled.isAmount (h : m.Settled a) (hscale : m.scale = some places)
    (hplaces : places ≤ 1000026) : a.IsAmount places m.context.precision := by
  obtain ⟨q, t, hquantum, negative, n, ha⟩ := h.onScale
  obtain ⟨c, t', rfl, hc, hdigits, -, -⟩ := h.fits
  cases ha
  exact ⟨n, by rw [exponent_of_quantum hscale hplaces hquantum], Nat.pos_of_ne_zero hc, hdigits⟩

end Money

/-- What is accepted as a number between two bounds is one. -/
theorem Check.of_intBetween {least greatest i : Int} {v : Value}
    (h : intBetween least greatest v = .valid i) : least ≤ i ∧ i ≤ greatest := by
  unfold intBetween at h
  cases hv : int v with
  | invalid _ =>
    rw [hv] at h
    cases h
  | valid n =>
    rw [hv] at h
    dsimp only [Checked.andThen] at h
    split at h
    · cases h
    · split at h
      · cases h
      · cases h
        omega

/-- Settings only ever give scales from zero to eight. -/
theorem Settings.scale_of_read {values : Fields} {env : List (String × String)} {s : Settings}
    (h : read values env = .valid s) (hcfg : s.config = .ok cfg) :
    ∃ places, cfg.money.scale = some places ∧ 0 ≤ places ∧ places ≤ 8 := by
  refine ⟨s.moneyScale, ?_, ?_⟩
  · unfold config money Money.make at hcfg
    split at hcfg
    · simp only [bind, Except.bind] at hcfg
      split at hcfg
      · cases hcfg
      · cases hcfg
        rfl
    · split at hcfg <;> cases hcfg
  · unfold read at h
    -- the settings that come after the scale, and the scale
    iterate 5
      rw [Checked.seq_eq_valid] at h
      obtain ⟨_, _, h, -, rfl⟩ := h
    rw [Checked.seq_eq_valid] at h
    obtain ⟨_, places, h, hplaces, rfl⟩ := h
    iterate 2
      rw [Checked.seq_eq_valid] at h
      obtain ⟨_, _, h, -, rfl⟩ := h
    rw [Checked.map_eq_valid] at h
    obtain ⟨_, -, rfl⟩ := h
    show 0 ≤ places ∧ places ≤ 8
    unfold setting at hplaces
    split at hplaces
    · exact Check.of_intBetween (Checked.under_eq_valid.1 hplaces)
    · cases hplaces
      decide

/-! ## Users -/

namespace Books

/-- The users of entries and rewards are there. -/
structure Peopled (b : Books) : Prop where
  /-- The users of entries are there. -/
  entries : ∀ e ∈ b.entries, b.HasUser e.userId
  /-- Both parties of rewards are there. -/
  rewards : ∀ r ∈ b.rewards, b.Knows r.referrerId r.referredId

/-- Users stay. -/
theorem Step.hasUser (hs : Step cfg p b b') {id : Uuid} (h : b.HasUser id) : b'.HasUser id := by
  cases hs with
  | addUser _ _ =>
    obtain ⟨u, hu, hid⟩ := h
    exact ⟨u, List.mem_append_left _ hu, hid⟩
  | @rename who name =>
    obtain ⟨u, hu, hid⟩ := h
    refine ⟨u.renamed who name, List.mem_map_of_mem hu, ?_⟩
    rw [← hid]
    unfold User.renamed
    split <;> rfl
  | credit hc =>
    rw [hc.eq]
    exact h
  | _ => exact h

namespace Peopled

/-- Empty books refer to no users. -/
theorem empty : Peopled {} :=
  ⟨fun _ h => absurd h List.not_mem_nil, fun _ h => absurd h List.not_mem_nil⟩

/-- Adding an entry of a user who is there keeps the users of entries. -/
theorem entries_append (h : b.Peopled) {new : LedgerEntry} (huser : b.HasUser new.userId) :
    ∀ e ∈ b.entries ++ [new], b.HasUser e.userId :=
  forall_mem_concat h.entries huser

/-- Taking an entry back keeps the users of entries. -/
theorem entries_reversed (h : b.Peopled) {e reversal : LedgerEntry}
    (huser : b.HasUser reversal.userId) (n : Nat) :
    ∀ x ∈ (b.reversed e reversal n).entries, b.HasUser x.userId := by
  intro x hx
  obtain ⟨y, hy, rfl⟩ := List.mem_map.1 hx
  rw [LedgerEntry.voided_eq]
  exact h.entries_append huser y hy

/-- The users of entries are there after every step. -/
theorem entries_step (h : b.Peopled) (hs : Step cfg p b b') :
    ∀ e ∈ b'.entries, b.HasUser e.userId := by
  cases hs with
  | issue | addUser | rename | confirm | record => exact h.entries
  | post _ hpost _ => exact h.entries_append hpost.user
  | pay _ _ hpost => exact h.entries_append hpost.user
  | credit hc =>
    rw [hc.eq]
    exact h.entries_append hc.can.user
  | takeBack _ _ _ _ _ hpost _ => exact h.entries_reversed hpost.user _
  | reverse _ _ _ _ _ _ _ _ hpost _ => exact h.entries_reversed hpost.user b.issued

/-- Changing a reward but not its parties keeps the parties of rewards. -/
theorem rewards_withReward (h : b.Peopled) (id : Uuid) {f : Reward → Reward}
    (hf : ∀ r, (f r).referrerId = r.referrerId ∧ (f r).referredId = r.referredId) :
    ∀ r ∈ (b.withReward id f).rewards, b.Knows r.referrerId r.referredId := by
  intro r hr
  obtain ⟨x, hx, rfl⟩ := List.mem_map.1 hr
  unfold Reward.changed
  split
  · rw [(hf x).1, (hf x).2]
    exact h.rewards x hx
  · exact h.rewards x hx

/-- The parties of rewards are there after every step. -/
theorem rewards_step (h : b.Peopled) (hs : Step cfg p b b') :
    ∀ r ∈ b'.rewards, b.Knows r.referrerId r.referredId := by
  cases hs with
  | issue | addUser | rename | post | takeBack | record => exact h.rewards
  | confirm | pay | reverse => exact h.rewards_withReward _ fun _ => ⟨rfl, rfl⟩
  | credit hc =>
    rw [hc.eq]
    -- the credit of the reward is posted for the one who is rewarded
    exact forall_mem_concat h.rewards ⟨hc.userId ▸ hc.can.user, hc.party⟩

/-- Every step keeps the users of entries and the parties of rewards. -/
theorem step (h : b.Peopled) (hs : Step cfg p b b') : b'.Peopled where
  entries e he := hs.hasUser (h.entries_step hs e he)
  rewards r hr := (h.rewards_step hs r hr).imp hs.hasUser hs.hasUser

end Peopled

end Books

namespace World

/-- No two users have the same email. -/
theorem Holds.nodup_emails (h : w.Holds cfg base b) : (b.users.map User.email).Nodup := by
  have husers := h.held.users
  obtain ⟨t, ht, -⟩ := id husers
  have hindex : ("email", ["email"]) ∈ t.schema.indexes := by
    rw [h.schema_eq usersTable ht rfl]
    exact List.mem_singleton_self _
  have hkey : ∀ (u : User) columns, Stored.IsRow u columns → ∀ key,
      some [Value.str u.email] = some key → KeyKind.All Value.IsPlain key ∧
        columns.hasKey ["email"] key = true := by
    rintro u columns (hrow : u.IsRow columns) key ⟨⟩
    refine ⟨fun v hv => by rw [List.mem_singleton.1 hv]; trivial, ?_⟩
    rw [Fields.hasKey, Fields.keyIn?, List.map_singleton, Fields.get, hrow.email]
    simp [Value.isNull, Value.sameKeys, Value.sameKey_str]
  rw [List.Nodup, List.pairwise_map]
  refine (husers.pairwise_hasKey h.sound ht hindex hkey).imp fun hne hemail => ?_
  exact hne _ rfl (by rw [hemail])

/-- The parties of a reward differ. -/
theorem Holds.parties_ne (h : w.Holds cfg base b) (hr : w.store.AreRewards) :
    ∀ r ∈ b.rewards, r.referrerId ≠ r.referredId := by
  intro r hmem
  obtain ⟨t, ht, -⟩ := id h.held.rewards
  obtain ⟨row, hrow, hisRow⟩ := h.held.rewards.exists_row ht hmem
  have hisRow : r.IsRow row.columns := hisRow
  obtain ⟨x, y, hne, hx, hy⟩ := (hr row (by rw [Store.rewards_eq ht]; exact hrow)).parties
  rw [Fields.get, hisRow.referrerId] at hx
  rw [Fields.get, hisRow.referredId] at hy
  cases hx
  cases hy
  exact hne

end World

/-! ## Runs -/

/-- A call with arguments of their types that goes past the services only looks something up. -/
theorem Call.Allowed.ofServices {call : Call} (h : call.Allowed p) : call.OfServices := by
  cases call with
  | store => exact h
  | _ => trivial

namespace Books

/-- All amounts of the books have that many places and at most so many digits, and nothing in the
books points at something that is not there. -/
structure WellFormed (places : Int) (digits : Nat) (b : Books) : Prop where
  /-- The amounts of entries. -/
  entryAmounts : ∀ e ∈ b.entries, e.amount.IsAmount places digits
  /-- The amounts of rewards. -/
  rewardAmounts : ∀ r ∈ b.rewards, r.amount.IsAmount places digits
  /-- The users of entries are there. -/
  entryUsers : ∀ e ∈ b.entries, b.HasUser e.userId
  /-- What an entry points at is there. -/
  targets : ∀ e ∈ b.entries, ∀ id, e.reversalOf = some id → ∃ o ∈ b.entries, o.id = id
  /-- The parties of rewards are there, and they differ. -/
  parties : ∀ r ∈ b.rewards,
    b.Knows r.referrerId r.referredId ∧ r.referrerId ≠ r.referredId
  /-- No two users have the same email. -/
  emails : (b.users.map User.email).Nodup

end Books

namespace World

/-- After every run of calls with arguments of their types the ledger is well formed, for every
precision and every scale whose smallest amount can be written. Settings only give scales that are
far smaller than that (`Settings.scale_of_read`). -/
theorem wellFormed_of_run {places : Int} (hw : w.IsNew) {turns : List Turn}
    (hscale : cfg.money.scale = some places) (hplaces : places ≤ 1000026)
    (hturns : ∀ t ∈ turns, t.call.Allowed .full) :
    ∃ b : Books, b.Held (w.run cfg turns).store ∧
      b.WellFormed places cfg.money.context.precision := by
  obtain ⟨b, hsteps, hholds⟩ : ∃ b, Books.Steps cfg .full {} b ∧
      (w.run cfg turns).Holds cfg none b := exists_steps_of_run hw hturns
  obtain ⟨-, hpaired, hpeopled⟩ := hsteps.keeps (I := fun b => b.Paired .full ∧ b.Peopled) .empty
    ⟨.empty, .empty⟩ fun _ _ hb h hs => ⟨h.1.step hb hs, h.2.step hs⟩
  have hservices : ∀ t ∈ turns, t.call.OfServices := fun t ht => (hturns t ht).ofServices
  have hrewards := (hw.keepsRewards.run cfg hservices).areRewards
  refine ⟨b, hholds.held, fun e he => ?_, fun r hr => ?_, hpeopled.entries, hpaired.targets,
    fun r hr => ?_, hholds.nodup_emails⟩
  · exact (hholds.proper.entryAmounts e he).isAmount hscale hplaces
  · exact (hholds.proper.rewardAmounts r hr).isAmount hscale hplaces
  · exact ⟨hpeopled.rewards r hr, hholds.parties_ne hrewards r hr⟩

/-- The ledger is well formed after a reward was confirmed and taken back. -/
theorem wellFormed_of_confirmedAndTakenBack :
    (∀ t ∈ Turn.confirmedAndTakenBack, t.call.Allowed .full) ∧
      ∃ b : Books, b.Held ((fresh { now := ⟨0, some 0⟩, step := 1 }).run .rupees
        Turn.confirmedAndTakenBack).store ∧ b.WellFormed 2 28 := by
  have hallowed : ∀ t ∈ Turn.confirmedAndTakenBack, t.call.Allowed .full := by
    intro t ht
    simp only [Turn.confirmedAndTakenBack, List.mem_cons, List.not_mem_nil, or_false] at ht
    rcases ht with rfl | rfl | rfl | rfl | rfl | rfl
    · exact ⟨none, rfl⟩
    · exact ⟨none, rfl⟩
    · exact ⟨"k", rfl⟩
    · trivial
    · exact ⟨some "fraud", rfl⟩
    · trivial
  have hscale : Config.rupees.money.scale = some 2 := rfl
  exact ⟨hallowed, wellFormed_of_run (isNew_fresh _) hscale (by decide) hallowed⟩

end World

end RewardLedger
