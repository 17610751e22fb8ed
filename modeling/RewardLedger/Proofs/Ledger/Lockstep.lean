import RewardLedger.Proofs.Ledger.Steps
import RewardLedger.Proofs.Run

/-!
# Rewards and entries in lockstep

The entries that belong to a reward are exactly those that its state implies (`Reward.Backed`): the
credit, then the debit that paid it out or the reversal that took it back. Every step keeps this as
long as nobody posts entries for a reward, or takes them back on its behalf, from outside
(`Books.Lockstep.step`): what is posted or taken back by hand then belongs to no reward, and each
step of a reward adds the entry that its new state asks for.
-/

namespace RewardLedger

variable {cfg : Config} {p : Permission} {b b' : Books}

/-! ## What a state implies -/

/-- The entry is of that type and status and has the user, the amount and the currency of the
reward. -/
structure LedgerEntry.Carries (e : LedgerEntry) (r : Reward) (t : EntryType) (s : EntryStatus) :
    Prop where
  /-- The type. -/
  entryType : e.entryType = t
  /-- The status. -/
  status : e.status = s
  /-- The entry concerns the user who is rewarded. -/
  userId : e.userId = r.referrerId
  /-- The entry has the amount of the reward. -/
  amount : e.amount = r.amount
  /-- The entry has the currency of the reward. -/
  currency : e.currency = r.currency

/-- The entries are those that the state of the reward implies. -/
def Reward.Backed (r : Reward) (es : List LedgerEntry) : Prop :=
  match r.status with
  | .pending | .confirmed => ∃ c, es = [c] ∧ c.Carries r .credit .posted
  | .paid => ∃ c d, es = [c, d] ∧ c.Carries r .credit .posted ∧ d.Carries r .debit .posted
  | .reversed => ∃ c v, es = [c, v] ∧ c.Carries r .credit .void ∧ v.Carries r .reversal .posted ∧
      v.reversalOf = some c.id

namespace RewardStatus

/-- Only what is pending can be confirmed. -/
theorem eq_of_canMove_confirmed {s : RewardStatus} (h : s.canMove .confirmed = true) :
    s = .pending := by
  cases s <;> first | rfl | cases h

/-- Only what is confirmed can be paid out. -/
theorem eq_of_canMove_paid {s : RewardStatus} (h : s.canMove .paid = true) : s = .confirmed := by
  cases s <;> first | rfl | cases h

/-- Only what is pending or confirmed can be taken back. -/
theorem eq_of_canMove_reversed {s : RewardStatus} (h : s.canMove .reversed = true) :
    s = .pending ∨ s = .confirmed := by
  cases s <;> first | exact .inl rfl | exact .inr rfl | cases h

end RewardStatus

/-- A reward that is pending or confirmed is backed by its credit alone. -/
theorem Reward.Backed.of_open {r : Reward} {es : List LedgerEntry} (h : r.Backed es)
    (hs : r.status = .pending ∨ r.status = .confirmed) :
    ∃ c, es = [c] ∧ c.Carries r .credit .posted := by
  unfold Backed at h
  rcases hs with hs | hs
  · rw [hs] at h
    exact h
  · rw [hs] at h
    exact h

namespace Books

/-- The entries that belong to the reward. -/
def tagged (b : Books) (id : Uuid) : List LedgerEntry :=
  b.entries.filter fun e => e.rewardId = some id

/-- An entry that is added belongs to its reward. -/
theorem tagged_addEntry (b : Books) {e : LedgerEntry} {id : Uuid} (h : e.rewardId = some id)
    (n : Nat) :
    tagged { b with entries := b.entries ++ [e], issued := n } id = b.tagged id ++ [e] := by
  rw [tagged, List.filter_append, List.filter_singleton, decide_eq_true h]
  rfl

/-- An entry that is added belongs to no other reward. -/
theorem tagged_addEntry_of_ne (b : Books) {e : LedgerEntry} {id : Uuid} (h : e.rewardId ≠ some id)
    (n : Nat) : tagged { b with entries := b.entries ++ [e], issued := n } id = b.tagged id := by
  rw [tagged, List.filter_append, List.filter_singleton, decide_eq_false h]
  exact List.append_nil _

/-- Making an entry void keeps the rewards that entries belong to. -/
theorem tagged_voided (b : Books) (voided id : Uuid) :
    tagged { b with entries := b.entries.map (.voided voided) } id =
      (b.tagged id).map (.voided voided) := by
  rw [tagged, List.filter_map]
  congr 1
  refine List.filter_congr fun e _ => ?_
  rw [Function.comp_apply, LedgerEntry.voided_rewardId]

/-- Making an entry void leaves entries as they are among which it is not. -/
theorem map_voided_of_ne {es : List LedgerEntry} {id : Uuid} (h : ∀ e ∈ es, e.id ≠ id) :
    es.map (.voided id) = es := by
  refine (List.map_congr_left fun e he => ?_).trans (List.map_id es)
  exact LedgerEntry.voided_of_ne (h e he)

/-- Making an entry void leaves the entries of rewards as they are that it does not belong to. -/
theorem Numbered.map_voided_tagged (h : b.Numbered) {e : LedgerEntry} (he : e ∈ b.entries)
    {id : Uuid} (hne : e.rewardId ≠ some id) :
    (b.tagged id).map (.voided e.id) = b.tagged id := by
  refine map_voided_of_ne fun x hx hid => hne ?_
  obtain ⟨hmem, htag⟩ := List.mem_filter.1 hx
  rw [← h.eq_of_entry_id hmem he hid]
  exact of_decide_eq_true htag

/-- Taking an entry back leaves the entries of rewards as they are that it does not belong to. -/
theorem Numbered.tagged_reversed_of_ne (h : b.Numbered) {e reversal : LedgerEntry}
    (he : e ∈ b.entries) (hr : Reverses reversal e) {id : Uuid} (hne : e.rewardId ≠ some id)
    (n : Nat) : (b.reversed e reversal n).tagged id = b.tagged id := by
  have hother : reversal.rewardId ≠ some id := by rwa [hr.rewardId]
  have hadd := b.tagged_addEntry_of_ne hother n
  exact (tagged_voided { b with entries := b.entries ++ [reversal], issued := n } e.id id).trans
    (hadd ▸ h.map_voided_tagged he hne)

/-- The entries of a reward whose only entry is taken back are that entry, now void, and the
reversal. -/
theorem tagged_reversed (b : Books) {e reversal : LedgerEntry} {id : Uuid}
    (hr : Reverses reversal e) (htag : e.rewardId = some id) (htagged : b.tagged id = [e])
    (hne : reversal.id ≠ e.id) (n : Nat) :
    (b.reversed e reversal n).tagged id = [{ e with status := .void }, reversal] := by
  have hadd := b.tagged_addEntry (hr.rewardId.trans htag) n
  rw [htagged] at hadd
  refine (tagged_voided { b with entries := b.entries ++ [reversal], issued := n } e.id id).trans ?_
  rw [hadd, List.cons_append, List.nil_append, List.map_cons, List.map_singleton,
    LedgerEntry.voided_self, LedgerEntry.voided_of_ne hne]

/-! ## Lockstep -/

/-- The entries of each reward are those that its state implies. -/
def Backed (b : Books) : Prop := ∀ r ∈ b.rewards, r.Backed (b.tagged r.id)

/-- An identifier that has not been given out tags no entry. -/
theorem Owned.tagged_eq_nil (h : b.Owned) (hb : b.Numbered) {id : Uuid}
    (hid : b.issued < id.value) : b.tagged id = [] := by
  refine List.filter_eq_nil_iff.2 fun e he htag => ?_
  obtain ⟨r, hr, heq⟩ := h e he id (of_decide_eq_true htag)
  exact hb.reward_ne hid r hr heq

namespace Backed

/-- Changes of entries that belong to no reward leave rewards backed. -/
theorem of_tagged_eq (h : b.Backed) (hrewards : b'.rewards = b.rewards)
    (htagged : ∀ id, b'.tagged id = b.tagged id) : b'.Backed := by
  intro r hr
  rw [htagged]
  exact h r (hrewards ▸ hr)

/-- Changing the state of a reward together with its entries leaves rewards backed if the entries are
those that the new state implies. -/
theorem withReward (h : b.Backed) (hb : b.Numbered) {r : Reward} (hr : r ∈ b.rewards)
    {f : Reward → Reward} (hf : ∀ r, (f r).id = r.id) {es : List LedgerEntry} {n : Nat}
    (hbacked : (f r).Backed (tagged { b with entries := es, issued := n } r.id))
    (hothers : ∀ id, id ≠ r.id → tagged { b with entries := es, issued := n } id = b.tagged id) :
    (Books.withReward { b with entries := es, issued := n } r.id f).Backed := by
  intro x hx
  obtain ⟨y, hy, rfl⟩ := List.mem_map.1 hx
  rw [Reward.changed_id hf]
  by_cases hid : y.id = r.id
  · rw [hb.eq_of_reward_id hy hr hid, Reward.changed_self]
    exact hbacked
  · rw [Reward.changed_of_ne hid]
    have htagged : (Books.withReward { b with entries := es, issued := n } r.id f).tagged y.id =
        b.tagged y.id := hothers y.id hid
    rw [htagged]
    exact h y hy

/-- Crediting a reward leaves rewards backed: the reward is new, so its credit is its only entry. -/
theorem credit (h : b.Backed) (howned : b.Owned) (hb : b.Numbered) {r : Reward} {e : LedgerEntry}
    {q : StoredRequest} (hc : Credited cfg b b' r e q) : b'.Backed := by
  have hrewards : b'.rewards = b.rewards ++ [r] := by rw [hc.eq]
  have hentries : b'.entries = b.entries ++ [e] := by rw [hc.eq]
  intro x hx
  rw [hrewards] at hx
  rcases List.mem_append.1 hx with hx | hx
  · have hne : e.rewardId ≠ some x.id := fun htag =>
      hb.reward_ne hc.fresh x hx (Option.some.inj (htag.symm.trans hc.rewardId))
    have hold : b'.tagged x.id = b.tagged x.id := by
      rw [tagged, hentries]
      exact b.tagged_addEntry_of_ne hne b.issued
    rw [hold]
    exact h x hx
  · have hnew : b'.tagged r.id = [e] := by
      have hadd := b.tagged_addEntry hc.rewardId b.issued
      rw [howned.tagged_eq_nil hb hc.fresh] at hadd
      rw [tagged, hentries]
      exact hadd
    rw [List.mem_singleton.1 hx, hnew, Reward.Backed, hc.pending]
    exact ⟨e, rfl, hc.entryType, hc.can.posted, hc.userId, hc.amount, hc.currency⟩

/-- Confirming a reward leaves rewards backed: its credit alone backs it before and after. -/
theorem confirm (h : b.Backed) (hb : b.Numbered) {r : Reward} (hr : r ∈ b.rewards)
    (hmove : r.status.canMove .confirmed = true) (now : Instant) :
    (b.withReward r.id fun r =>
      { r with status := .confirmed, confirmedAt := some now }).Backed := by
  obtain ⟨c, hone, hcarries⟩ := (h r hr).of_open
    (.inl (RewardStatus.eq_of_canMove_confirmed hmove))
  have hid : ∀ r : Reward, ({ r with
      status := .confirmed, confirmedAt := some now } : Reward).id = r.id := fun _ => rfl
  refine h.withReward hb hr hid ?_ fun _ _ => rfl
  exact ⟨c, hone, hcarries.entryType, hcarries.status, hcarries.userId, hcarries.amount,
    hcarries.currency⟩

/-- Paying a reward out leaves rewards backed: the debit stands behind the credit. -/
theorem pay (h : b.Backed) (hb : b.Numbered) {r : Reward} (hr : r ∈ b.rewards)
    (hmove : r.status.canMove .paid = true) {e : LedgerEntry} (hposted : e.status = .posted)
    (htype : e.entryType = .debit) (huser : e.userId = r.referrerId)
    (htag : e.rewardId = some r.id) (hamount : e.amount = r.amount)
    (hcurrency : e.currency = r.currency) (now : Instant) (n : Nat) :
    ({ b with entries := b.entries ++ [e], issued := n }.withReward r.id fun r =>
      { r with status := .paid, paidAt := some now }).Backed := by
  obtain ⟨c, hone, hcarries⟩ := (h r hr).of_open
    (.inr (RewardStatus.eq_of_canMove_paid hmove))
  have hid : ∀ r : Reward, ({ r with
      status := .paid, paidAt := some now } : Reward).id = r.id := fun _ => rfl
  refine h.withReward hb hr hid ?_ fun id hne => ?_
  · rw [b.tagged_addEntry htag, hone]
    exact ⟨c, e, rfl, ⟨hcarries.entryType, hcarries.status, hcarries.userId, hcarries.amount,
      hcarries.currency⟩, htype, hposted, huser, hamount, hcurrency⟩
  · refine b.tagged_addEntry_of_ne (fun htag' => hne ?_) n
    exact Option.some.inj (htag'.symm.trans htag)

/-- Taking a reward back leaves rewards backed: its credit is its only entry, so that is the one that
becomes void, and the reversal stands behind it. -/
theorem reverse (h : b.Backed) (hb : b.Numbered) {r : Reward} (hr : r ∈ b.rewards)
    (hmove : r.status.canMove .reversed = true) {e reversal : LedgerEntry} (he : e ∈ b.entries)
    (htag : e.rewardId = some r.id) (hreverses : Reverses reversal e)
    (hposted : reversal.status = .posted) (hfresh : b.issued < reversal.id.value)
    (now : Instant) (reason : Option String) (n : Nat) :
    ((b.reversed e reversal n).withReward r.id fun r =>
      { r with status := .reversed, reversedAt := some now, reversalReason := reason }).Backed := by
  obtain ⟨c, hone, hcarries⟩ := (h r hr).of_open (RewardStatus.eq_of_canMove_reversed hmove)
  have hmem : e ∈ b.tagged r.id := List.mem_filter.2 ⟨he, decide_eq_true htag⟩
  obtain rfl : e = c := List.mem_singleton.1 (hone ▸ hmem)
  have hne : reversal.id ≠ e.id := fun hid => hb.entry_ne hfresh e he hid.symm
  have hid : ∀ r : Reward, ({ r with
      status := .reversed, reversedAt := some now, reversalReason := reason } : Reward).id = r.id :=
    fun _ => rfl
  have hothers : ∀ id, id ≠ r.id → tagged { b with
      entries := (b.reversed e reversal n).entries, issued := n } id = b.tagged id := by
    refine fun id hother => hb.tagged_reversed_of_ne he hreverses (fun htag' => hother ?_) n
    exact Option.some.inj (htag'.symm.trans htag)
  refine h.withReward hb hr hid ?_ hothers
  have htagged := b.tagged_reversed hreverses htag hone hne n
  refine ⟨_, _, htagged, ⟨hcarries.entryType, rfl, hcarries.userId, hcarries.amount,
    hcarries.currency⟩, ⟨hreverses.entryType, hposted, ?_, ?_, ?_⟩, hreverses.reversalOf⟩
  · exact hreverses.userId.trans hcarries.userId
  · exact hreverses.amount.trans hcarries.amount
  · exact hreverses.currency.trans hcarries.currency

end Backed

/-- The entries of each reward are those that its state implies, and entries belong to rewards that
are there. -/
structure Lockstep (b : Books) : Prop where
  /-- The entries of a reward are those that its state implies. -/
  backed : b.Backed
  /-- Entries belong to rewards that are there. -/
  owned : b.Owned

namespace Lockstep

/-- Empty books are in lockstep. -/
theorem empty : Lockstep {} := ⟨fun _ h => absurd h List.not_mem_nil, .empty⟩

/-- Every step keeps lockstep where what is posted by hand belongs to no reward and nothing is taken
back by hand on behalf of one. -/
theorem step (hp : ∀ t tag of, p.posts t tag of → tag = none) (hbehalf : ¬p.onBehalf)
    (hb : b.Numbered) (h : b.Lockstep) (hs : Step cfg p b b') : b'.Lockstep := by
  refine ⟨?_, h.owned.step hp hs⟩
  cases hs with
  | issue | addUser | rename | record => exact h.backed.of_tagged_eq rfl fun _ => rfl
  | @post e n hposts _ _ =>
    have htag : ∀ id, e.rewardId ≠ some id := fun id hid =>
      nomatch (hp _ _ _ hposts).symm.trans hid
    exact h.backed.of_tagged_eq rfl fun id => b.tagged_addEntry_of_ne (htag id) n
  | @takeBack e reversal n he howner _ _ hreverses _ _ =>
    have htag : ∀ id, e.rewardId ≠ some id := fun id hid =>
      howner.elim (fun hnone => nomatch hnone.symm.trans hid) hbehalf
    exact h.backed.of_tagged_eq rfl fun id => hb.tagged_reversed_of_ne he hreverses (htag id) n
  | credit hc => exact h.backed.credit h.owned hb hc
  | confirm hr hmove => exact h.backed.confirm hb hr hmove _
  | pay hr hmove hpost _ htype huser htag hamount hcurrency _ =>
    exact h.backed.pay hb hr hmove hpost.posted htype huser htag hamount hcurrency _ _
  | reverse hr hmove he htag _ _ _ hreverses hpost _ =>
    exact h.backed.reverse hb hr hmove he htag hreverses hpost.posted hpost.fresh _ _ _

end Lockstep

end Books

/-! ## Runs -/

/-- What may be asked for from outside where rewards are left to their own operations: entries that
are posted by hand belong to no reward, and entries of rewards are not taken back by hand. -/
def Permission.untagged : Permission where
  posts _ tag _ := tag = none
  onBehalf := False
  records := True

/-- After every run that leaves rewards to their own operations, the entries of each reward are
exactly those that its state implies, and no entry belongs to a reward that is not there. -/
theorem World.lockstep_of_run {w : World} (hw : w.IsNew) {turns : List Turn}
    (hturns : ∀ t ∈ turns, t.call.Allowed .untagged) :
    ∃ b : Books, b.Held (w.run cfg turns).store ∧ b.Lockstep := by
  obtain ⟨b, hsteps, hholds⟩ : ∃ b, Books.Steps cfg .untagged {} b ∧
      (w.run cfg turns).Holds cfg none b := exists_steps_of_run hw hturns
  refine ⟨b, hholds.held, (hsteps.keeps .empty .empty fun b b' hb h hs => ?_).2⟩
  exact Books.Lockstep.step (fun _ _ _ => id) id hb h hs

/-- The reward of two users is credited and confirmed, and one of its entries is asked to be taken
back by hand, which is refused. -/
def Turn.reversalByHand : List Turn :=
  let clock : Clock := { now := ⟨0, some 0⟩, step := 1 }
  [⟨clock, .createUser (.str "a@x.org") .null⟩, ⟨clock, .createUser (.str "b@x.org") .null⟩,
    ⟨clock, .creditReward (.uuid ⟨1⟩) (.uuid ⟨2⟩) (.str "10.00") (.str "k") .null .null⟩,
    ⟨clock, .confirmReward (.uuid ⟨3⟩)⟩, ⟨clock, .reverseEntry (.uuid ⟨4⟩) .null .null⟩]

/-- The run with a reversal by hand leaves rewards to their own operations, so it keeps lockstep. -/
theorem World.lockstep_of_reversalByHand :
    (∀ t ∈ Turn.reversalByHand, t.call.Allowed .untagged) ∧
      ∃ b : Books, b.Held
        ((fresh { now := ⟨0, some 0⟩, step := 1 }).run .rupees Turn.reversalByHand).store ∧
        b.Lockstep := by
  have hallowed : ∀ t ∈ Turn.reversalByHand, t.call.Allowed .untagged := by
    intro t ht
    simp only [Turn.reversalByHand, List.mem_cons, List.not_mem_nil, or_false] at ht
    rcases ht with rfl | rfl | rfl | rfl | rfl
    · exact ⟨none, rfl⟩
    · exact ⟨none, rfl⟩
    · exact ⟨"k", rfl⟩
    · trivial
    · exact .inl rfl
  exact ⟨hallowed, lockstep_of_run (isNew_fresh _) hallowed⟩

end RewardLedger
