import Mathlib.Algebra.Order.BigOperators.Group.List
import RewardLedger.Proofs.Ledger.Balance
import RewardLedger.Proofs.Ledger.Lockstep

/-!
# Balances are what is outstanding

As rewards and entries move in lockstep, the entries of a reward add its amount to the balance of the
user who is rewarded while it is pending or confirmed, and nothing once it is paid out or taken back
(`Reward.Backed.sum_share`). So a balance is the sum of the open rewards and of what was posted by
hand (`Books.Lockstep.sum_share`), and never negative if nothing was.
-/

namespace RewardLedger

variable {cfg : Config} {p : Permission} {b b' : Books} {user : Uuid} {currency : String}

/-! ## Sums over entries and rewards -/

/-- Only one reward has an identifier, so a sum over rewards in which only that one counts is its
part. -/
theorem Reward.sum_ite_id {rs : List Reward} (hnodup : (rs.map Reward.id).Nodup) {r : Reward}
    (hr : r ∈ rs) (x : ℚ) : (rs.map fun r' => if r'.id = r.id then x else 0).sum = x := by
  have hcount : (rs.map Reward.id).count r.id = 1 :=
    List.count_eq_one_of_mem hnodup (List.mem_map_of_mem hr)
  have hsum := List.sum_map_ite_eq (rs.map Reward.id) (fun _ => x) (fun _ => (0 : ℚ)) r.id
  rw [hcount, one_nsmul, sub_zero, List.sum_map_zero, add_zero, List.map_map] at hsum
  exact hsum

/-- Summing over those items that are kept is summing over all of them where the others count as
zero. -/
theorem sum_map_filter {α : Type} (items : List α) (keep : α → Bool) (f : α → ℚ) :
    ((items.filter keep).map f).sum = (items.map fun a => if keep a then f a else 0).sum := by
  induction items with
  | nil => rfl
  | cons a rest ih =>
    rw [List.filter_cons, List.map_cons, List.sum_cons, ← ih]
    by_cases ha : keep a = true
    · rw [if_pos ha, if_pos ha, List.map_cons, List.sum_cons]
    · rw [if_neg ha, if_neg ha, zero_add]

/-- A sum over entries is the sum over those of each reward and over those of none, where entries
belong to rewards that are there. -/
theorem LedgerEntry.sum_by_reward {es : List LedgerEntry} {rs : List Reward}
    (hnodup : (rs.map Reward.id).Nodup)
    (howned : ∀ e ∈ es, ∀ id, e.rewardId = some id → ∃ r ∈ rs, r.id = id)
    (f : LedgerEntry → ℚ) :
    (es.map f).sum =
      (rs.map fun r => ((es.filter fun e => e.rewardId = some r.id).map f).sum).sum +
        ((es.filter fun e => e.rewardId = none).map f).sum := by
  simp only [sum_map_filter]
  -- by induction on the entries: each counts for one reward, as no two rewards have its tag, or for
  -- none
  induction es with
  | nil => simp
  | cons e rest ih =>
    have hrest := ih fun x hx => howned x (List.mem_cons_of_mem _ hx)
    simp only [List.map_cons, List.sum_cons, List.sum_map_add]
    rw [hrest]
    cases htag : e.rewardId with
    | none =>
      simp only [reduceCtorEq, decide_false, Bool.false_eq_true, if_false, decide_true, if_true,
        List.sum_map_zero]
      ring
    | some id =>
      obtain ⟨r, hr, rfl⟩ := howned e List.mem_cons_self id htag
      have hone : (rs.map fun r' => if decide (some r.id = some r'.id) = true then f e else 0).sum =
          f e := by
        refine Eq.trans ?_ (Reward.sum_ite_id hnodup hr (f e))
        congr 1
        refine List.map_congr_left fun r' _ => ?_
        by_cases hid : r'.id = r.id
        · rw [if_pos hid, if_pos (decide_eq_true (congrArg some hid.symm))]
        · rw [if_neg hid, if_neg fun htrue =>
            hid (Option.some.inj (of_decide_eq_true htrue)).symm]
      rw [hone, if_neg (fun htrue => nomatch of_decide_eq_true htrue), zero_add, add_assoc]

/-! ## What entries add -/

/-- What the entry adds to the balance of the user in the currency. -/
def LedgerEntry.share (user : Uuid) (currency : String) (e : LedgerEntry) : ℚ :=
  if e.userId = user ∧ e.currency = currency then e.posting.effect else 0

/-- What the reward adds to the balance of the user in the currency: its amount while it is pending
or confirmed. -/
def Reward.share (user : Uuid) (currency : String) (r : Reward) : ℚ :=
  if r.referrerId = user ∧ r.currency = currency ∧ (r.status = .pending ∨ r.status = .confirmed)
  then r.amount.toRat else 0

/-- An entry that carries a reward adds the amount of the reward, takes it, or does neither. -/
theorem LedgerEntry.Carries.share_eq {e : LedgerEntry} {r : Reward} {t : EntryType}
    {s : EntryStatus} (h : e.Carries r t s) :
    e.share user currency = if r.referrerId = user ∧ r.currency = currency
      then Posting.effect ⟨t, s, r.amount⟩ else 0 := by
  rw [LedgerEntry.share, h.userId, h.currency, posting, h.entryType, h.status, h.amount]

/-- The entries that the state of a reward implies add what the reward does. -/
theorem Reward.Backed.sum_share {r : Reward} {es : List LedgerEntry} (h : r.Backed es) :
    (es.map (LedgerEntry.share user currency)).sum = r.share user currency := by
  unfold Reward.share
  cases hs : r.status with
  | pending | confirmed =>
    obtain ⟨c, rfl, hc⟩ := h.of_open (by simp [hs])
    rw [List.map_singleton, List.sum_singleton, hc.share_eq]
    by_cases hshare : r.referrerId = user ∧ r.currency = currency
    · rw [if_pos hshare, if_pos ⟨hshare.1, hshare.2, by simp⟩]
      rfl
    · rw [if_neg hshare, if_neg fun hall => hshare ⟨hall.1, hall.2.1⟩]
  | paid =>
    rw [Reward.Backed, hs] at h
    obtain ⟨c, d, rfl, hc, hd⟩ := h
    rw [if_neg (by simp), List.map_cons, List.map_singleton, List.sum_cons, List.sum_singleton,
      hc.share_eq, hd.share_eq]
    by_cases hshare : r.referrerId = user ∧ r.currency = currency
    · rw [if_pos hshare, if_pos hshare]
      exact add_neg_cancel _
    · rw [if_neg hshare, if_neg hshare, add_zero]
  | reversed =>
    rw [Reward.Backed, hs] at h
    obtain ⟨c, v, rfl, hc, hv, -⟩ := h
    rw [if_neg (by simp), List.map_cons, List.map_singleton, List.sum_cons, List.sum_singleton,
      hc.share_eq, hv.share_eq]
    by_cases hshare : r.referrerId = user ∧ r.currency = currency
    · rw [if_pos hshare, if_pos hshare]
      exact add_zero _
    · rw [if_neg hshare, if_neg hshare, add_zero]

namespace Books

/-- What the rewards of the user in the currency come to that are pending or confirmed. -/
def openRewards (b : Books) (user : Uuid) (currency : String) : ℚ :=
  ((b.rewards.filter fun r => r.referrerId = user ∧ r.currency = currency ∧
    (r.status = .pending ∨ r.status = .confirmed)).map fun r => r.amount.toRat).sum

/-- What the entries of the type come to that count for the user in the currency and belong to no
reward. -/
def untagged (b : Books) (t : EntryType) (user : Uuid) (currency : String) : ℚ :=
  ((b.entries.filter fun e => e.rewardId = none ∧ e.entryType = t ∧ e.status = .posted ∧
    e.userId = user ∧ e.currency = currency).map fun e => e.amount.toRat).sum

/-- The rewards add what the open ones of the user in the currency come to. -/
theorem sum_share_rewards (b : Books) :
    (b.rewards.map (Reward.share user currency)).sum = b.openRewards user currency := by
  rw [openRewards, sum_map_filter]
  congr 1
  refine List.map_congr_left fun r _ => ?_
  simp only [Reward.share, decide_eq_true_eq]

/-- The entries that belong to no reward add what their credits come to and take what their debits
come to. -/
theorem sum_share_untagged (b : Books) :
    ((b.entries.filter fun e => e.rewardId = none).map (LedgerEntry.share user currency)).sum =
      b.untagged .credit user currency - b.untagged .debit user currency := by
  have hsplit : ∀ e : LedgerEntry,
      (if decide (e.rewardId = none) = true then e.share user currency else 0) =
        (if decide (e.rewardId = none ∧ e.entryType = .credit ∧ e.status = .posted ∧
          e.userId = user ∧ e.currency = currency) = true then e.amount.toRat else 0) -
        (if decide (e.rewardId = none ∧ e.entryType = .debit ∧ e.status = .posted ∧
          e.userId = user ∧ e.currency = currency) = true then e.amount.toRat else 0) := by
    intro e
    simp only [LedgerEntry.share, LedgerEntry.posting, Posting.effect, decide_eq_true_eq]
    cases e.entryType <;> cases e.status <;> split_ifs <;> simp_all
  rw [untagged, untagged, sum_map_filter, sum_map_filter, sum_map_filter]
  generalize b.entries = es
  induction es with
  | nil => exact (sub_zero _).symm
  | cons e rest ih =>
    simp only [List.map_cons, List.sum_cons]
    rw [ih, hsplit]
    ring

/-- The entries of books in lockstep add what the open rewards come to and what was posted by
hand. -/
theorem Lockstep.sum_share (h : b.Lockstep) (hb : b.Numbered) :
    (b.entries.map (LedgerEntry.share user currency)).sum = b.openRewards user currency +
      (b.untagged .credit user currency - b.untagged .debit user currency) := by
  rw [LedgerEntry.sum_by_reward hb.rewardIds h.owned, sum_share_untagged, ← sum_share_rewards]
  congr 2
  exact List.map_congr_left fun r hr => (h.backed r hr).sum_share

/-- What open rewards come to is not negative, since their amounts are not. -/
theorem Proper.openRewards_nonneg (h : b.Proper cfg) (user : Uuid) (currency : String) :
    0 ≤ b.openRewards user currency := by
  refine List.sum_nonneg fun x hx => ?_
  obtain ⟨r, hr, rfl⟩ := List.mem_map.1 hx
  exact (h.rewardAmounts r (List.mem_filter.1 hr).1).toRat_pos.le

/-- Without entries that are posted by hand there is nothing that belongs to no reward. -/
theorem untagged_eq_zero (h : ∀ e ∈ b.entries, e.rewardId ≠ none) (t : EntryType) (user : Uuid)
    (currency : String) : b.untagged t user currency = 0 := by
  have hnone : (b.entries.filter fun e => e.rewardId = none ∧ e.entryType = t ∧
      e.status = .posted ∧ e.userId = user ∧ e.currency = currency) = [] :=
    List.filter_eq_nil_iff.2 fun e he htrue => h e he (of_decide_eq_true htrue).1
  rw [untagged, hnone]
  rfl

/-- Where nothing is posted by hand, every step keeps that all entries belong to rewards. -/
theorem Step.rewardId_ne_none (hp : ∀ t tag of, ¬p.posts t tag of) (hbehalf : ¬p.onBehalf)
    (h : ∀ e ∈ b.entries, e.rewardId ≠ none) (hs : Step cfg p b b') :
    ∀ e ∈ b'.entries, e.rewardId ≠ none := by
  have hadd : ∀ {e : LedgerEntry}, e.rewardId ≠ none →
      ∀ x ∈ b.entries ++ [e], x.rewardId ≠ none := forall_mem_concat h
  cases hs with
  | issue | addUser | rename | confirm | record => exact h
  | post hposts => exact absurd hposts (hp _ _ _)
  | takeBack he howner => exact (howner.elim (h _ he) hbehalf).elim
  | credit hc =>
    rw [hc.eq]
    exact hadd (by simp [hc.rewardId])
  | pay _ _ _ _ _ _ htag => exact hadd (by simp [htag])
  | reverse _ _ _ htag _ _ _ hreverses =>
    intro x hx
    obtain ⟨y, hy, rfl⟩ := List.mem_map.1 hx
    rw [LedgerEntry.voided_rewardId]
    exact hadd (by simp [hreverses.rewardId, htag]) y hy

end Books

/-! ## Balances -/

namespace Ledger

variable {base : Option Store} {w : World}

open Op

/-- A balance is that of the entries of the user in the currency, or in all of them if none is given,
in some order. -/
theorem ends_calculateBalance_perm (h : w.Holds cfg base b) (user currency : Value) :
    (calculateBalance cfg user currency).Ends w
      (fun balance w' => w' = w ∧ ∃ es, es.Perm (b.entries.filter fun e =>
          (Value.uuid e.userId).sameKey user &&
            (currency.isNull || currency.sameKey (.str e.currency))) ∧
        balanceOf cfg es = .ok balance)
      fun _ w' => w' = w := by
  refine ends_bind ((ends_requireUser h user).mono ?_ fun _ _ hw => hw)
  rintro _ _ ⟨rfl, -⟩
  refine ends_bind ((ends_entriesForUser h user).mono ?_ fun _ _ hw => hw)
  rintro es _ ⟨rfl, hperm⟩
  refine ends_ofExcept (fun balance hbalance => ⟨rfl, _, ?_, hbalance⟩) fun _ _ => rfl
  have hin : (if currency.isNull then es else inCurrency currency es) =
      es.filter fun e => currency.isNull || currency.sameKey (.str e.currency) := by
    cases currency.isNull with
    | true => exact (List.filter_eq_self.2 fun _ _ => rfl).symm
    | false => rfl
  rw [hin]
  refine (hperm.filter _).trans (.of_eq ?_)
  rw [List.filter_filter]
  exact List.filter_congr fun e _ => Bool.and_comm _ _

/-- A balance in one currency is what the entries add to it. -/
theorem ends_calculateBalance (h : w.Holds cfg base b) (user : Uuid) (currency : String) :
    (calculateBalance cfg (.uuid user) (.str currency)).Ends w
      (fun balance w' => w' = w ∧ balance.isFinite = true ∧
        balance.toRat = (b.entries.map (LedgerEntry.share user currency)).sum)
      fun _ w' => w' = w := by
  refine (ends_calculateBalance_perm h (.uuid user) (.str currency)).mono ?_ fun _ _ hw => hw
  rintro balance _ ⟨rfl, es, hperm, hbalance⟩
  obtain ⟨zero, hzero, hfold⟩ := exists_of_bind_eq_ok hbalance
  obtain ⟨hscale, hvalue⟩ := Money.onScale_of_zero hzero
  have hsettled : ∀ q ∈ es.map LedgerEntry.posting, cfg.money.Settled q.amount := by
    intro q hq
    obtain ⟨e, he, rfl⟩ := List.mem_map.1 hq
    exact h.proper.entryAmounts e (List.mem_filter.1 (hperm.mem_iff.1 he)).1
  obtain ⟨hscale', hvalue'⟩ := Balance.toRat_of_fold hscale hsettled hfold
  refine ⟨rfl, hscale'.isFinite, ?_⟩
  rw [hvalue', hvalue, zero_add, List.map_map, (hperm.map _).sum_eq, sum_map_filter]
  congr 1
  refine List.map_congr_left fun e _ => ?_
  simp only [Value.isNull, Bool.false_or, Bool.and_eq_true, Value.sameKey_uuid_iff,
    Value.sameKey_str_iff, Value.uuid.injEq, Value.str.injEq]
  exact if_congr (and_congr_left' eq_comm) rfl rfl

end Ledger

/-- After every run that leaves rewards to their own operations, a balance in one currency that can
be computed is what the open rewards of the user come to, together with the credits and without the
debits that belong to no reward. If no entry was posted by hand, it is not negative. -/
theorem World.balance_of_run {w : World} (hw : w.IsNew) {turns : List Turn}
    (hturns : ∀ t ∈ turns, t.call.Allowed .untagged) :
    ∃ b : Books, b.Held (w.run cfg turns).store ∧
      ∀ (user : Uuid) (currency : String) (balance : Decimal) (w' : World),
        (Ledger.calculateBalance cfg (.uuid user) (.str currency)).perform (w.run cfg turns) =
          (.ok balance, w') →
        balance.isFinite = true ∧
          balance.toRat = b.openRewards user currency + b.untagged .credit user currency -
            b.untagged .debit user currency ∧
          ((∀ t ∈ turns, ¬t.call.PostsByHand) → 0 ≤ balance.toRat) := by
  -- nothing may be posted by hand in a run in which nothing is
  let p : Permission := { Permission.untagged with
    posts := fun _ tag _ => tag = none ∧ ∃ t ∈ turns, t.call.PostsByHand }
  have hturns' : ∀ t ∈ turns, t.call.Allowed p := fun t ht =>
    (hturns t ht).mono (fun hhand _ _ _ htag => ⟨htag, t, ht, hhand⟩) id id
  obtain ⟨b, hsteps, hholds⟩ : ∃ b, Books.Steps cfg p {} b ∧ (w.run cfg turns).Holds cfg none b :=
    exists_steps_of_run hw hturns'
  have htag : ∀ t tag of, p.posts t tag of → tag = none := fun _ _ _ hposts => hposts.1
  obtain ⟨hnumbered, hlockstep⟩ := hsteps.keeps .empty .empty fun _ _ hb h hs =>
    Books.Lockstep.step htag id hb h hs
  refine ⟨b, hholds.held, fun user currency balance w' hperform => ?_⟩
  have hends := Ledger.ends_calculateBalance hholds user currency
  rw [Op.Ends, hperform] at hends
  obtain ⟨-, hfinite, hvalue⟩ := hends
  rw [hlockstep.sum_share hnumbered, ← add_sub_assoc] at hvalue
  refine ⟨hfinite, hvalue, fun hnone => ?_⟩
  have hposts : ∀ t tag of, ¬p.posts t tag of := by
    rintro _ _ _ ⟨-, t, ht, hhand⟩
    exact hnone t ht hhand
  have howned := (hsteps.keeps .empty (fun _ h => absurd h List.not_mem_nil) fun _ _ _ h hs =>
    Books.Step.rewardId_ne_none hposts id h hs).2
  rw [hvalue, Books.untagged_eq_zero howned, Books.untagged_eq_zero howned, add_zero, sub_zero]
  exact hholds.proper.openRewards_nonneg user currency

/-- A reward of 10.00 is credited and confirmed, and 2.50 are credited by hand. -/
def Turn.creditByHand : List Turn :=
  Turn.reversalByHand ++
    [⟨{ now := ⟨0, some 0⟩, step := 1 }, .createCredit (.uuid ⟨1⟩) (.str "2.50") {}⟩]

/-- The run with a credit by hand leaves rewards to their own operations, so its balances are what is
outstanding. -/
theorem World.balance_of_creditByHand :
    (∀ t ∈ Turn.creditByHand, t.call.Allowed .untagged) ∧
      ∃ b : Books,
        b.Held ((fresh { now := ⟨0, some 0⟩, step := 1 }).run .rupees Turn.creditByHand).store ∧
        ∀ (balance : Decimal) (w' : World),
          (Ledger.calculateBalance .rupees (.uuid ⟨1⟩) (.str "INR")).perform
            ((fresh { now := ⟨0, some 0⟩, step := 1 }).run .rupees Turn.creditByHand) =
            (.ok balance, w') →
          balance.toRat = b.openRewards ⟨1⟩ "INR" + b.untagged .credit ⟨1⟩ "INR" -
            b.untagged .debit ⟨1⟩ "INR" := by
  have hallowed : ∀ t ∈ Turn.creditByHand, t.call.Allowed .untagged := by
    intro t ht
    simp only [Turn.creditByHand, Turn.reversalByHand, List.cons_append, List.nil_append,
      List.mem_cons, List.not_mem_nil, or_false] at ht
    rcases ht with rfl | rfl | rfl | rfl | rfl | rfl
    · exact ⟨none, rfl⟩
    · exact ⟨none, rfl⟩
    · exact ⟨"k", rfl⟩
    · trivial
    · exact .inl rfl
    · exact ⟨⟨none, rfl⟩, none, none, rfl, rfl, rfl⟩
  obtain ⟨b, hheld, hbalance⟩ := balance_of_run (isNew_fresh _) hallowed
  exact ⟨hallowed, b, hheld, fun balance w' hperform =>
    (hbalance ⟨1⟩ "INR" balance w' hperform).2.1⟩

example : ((Ledger.calculateBalance .rupees (.uuid ⟨1⟩) (.str "INR")).perform
    ((World.fresh { now := ⟨0, some 0⟩, step := 1 }).run .rupees
      Turn.creditByHand)).1.toOption = some (.finite false 1250 (-2)) := by decide +kernel

end RewardLedger
