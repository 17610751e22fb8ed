import RewardLedger.Proofs.Ledger.Balance
import RewardLedger.Proofs.Room
import RewardLedger.Proofs.Walk

/-!
# Which balances can be read

A balance is added up entry by entry, oldest first, and every running sum is brought back to the
scale. So a balance can be read exactly if all running sums of the history lie within the room that
the rules leave (`Money.HasRoomFor`), and then it is exact; otherwise reading it fails, because a sum is
too large (`Money.Answers`). This holds in every state that a run leads to, for all currencies
together and for each of them (`World.balances_of_run`). Nothing that is posted looks at the running
sums, so a history without room can be posted (`World.balance_error_of_twoLargeCredits`).
-/

namespace RewardLedger

namespace Balance

variable {m : Money} {start balance : Decimal} {e : Failure}

/-- There is a balance after one more entry exactly if it lies within the room. -/
theorem step_ok_iff {p : Posting} (hs : m.OnScale start) (hroom : |start.toRat| < m.room)
    (hp : m.Settled p.amount) :
    (∃ next, step m start p = .ok next) ↔ |start.toRat + p.effect| < m.room := by
  obtain ⟨entryType, status, amount⟩ := p
  cases status with
  | void =>
    rw [step_void]
    refine iff_of_true ⟨start, rfl⟩ ?_
    rwa [show Posting.effect ⟨entryType, .void, amount⟩ = 0 from rfl, add_zero]
  | posted =>
    cases entryType with
    | credit => exact Money.add_ok_iff hs hp
    | debit =>
      rw [show Posting.effect ⟨.debit, .posted, amount⟩ = -amount.toRat from rfl,
        ← sub_eq_add_neg]
      exact Money.subtract_ok_iff hs hp
    | reversal =>
      refine iff_of_true ⟨start, rfl⟩ ?_
      rwa [show Posting.effect ⟨.reversal, .posted, amount⟩ = 0 from rfl, add_zero]

/-- If there is no balance after one more entry, it is too large. -/
theorem isTooLarge_of_step {p : Posting} (hs : m.OnScale start) (hp : m.Settled p.amount)
    (h : step m start p = .error e) : e.IsTooLarge := by
  obtain ⟨entryType, status, amount⟩ := p
  cases status with
  | void =>
    rw [step_void] at h
    cases h
  | posted =>
    cases entryType with
    | credit => exact Money.isTooLarge_of_settle hs hp.onScale h
    | debit =>
      obtain ⟨hnegate, heq⟩ := Money.subtract_eq_settle hs hp.onScale
      exact Money.isTooLarge_of_settle hs hnegate (heq.symm.trans h)
    | reversal => cases h

/-- There is a balance after several more entries exactly if none of the running sums leaves the
room. -/
theorem fold_ok_iff {postings : List Posting} (hs : m.OnScale start)
    (hroom : |start.toRat| < m.room) (hp : ∀ p ∈ postings, m.Settled p.amount) :
    (∃ balance, fold m start postings = .ok balance) ↔
      ∀ n, |start.toRat + ((postings.take n).map Posting.effect).sum| < m.room := by
  induction postings generalizing start with
  | nil =>
    refine iff_of_true ⟨start, rfl⟩ fun n => ?_
    rwa [List.take_nil, List.map_nil, List.sum_nil, add_zero]
  | cons p rest ih =>
    have hstep := step_ok_iff hs hroom (hp p List.mem_cons_self)
    have hrest := fun q hq => hp q (List.mem_cons_of_mem p hq)
    -- the running sums are the one before the entry and those after it
    have hsums : (∀ n, |start.toRat + (((p :: rest).take n).map Posting.effect).sum| < m.room) ↔
        ∀ n, |start.toRat + p.effect + ((rest.take n).map Posting.effect).sum| < m.room := by
      constructor
      · intro h n
        have hn := h (n + 1)
        rwa [List.take_succ_cons, List.map_cons, List.sum_cons, ← add_assoc] at hn
      · rintro h (_ | n)
        · rwa [List.take_zero, List.map_nil, List.sum_nil, add_zero]
        · rw [List.take_succ_cons, List.map_cons, List.sum_cons, ← add_assoc]
          exact h n
    rw [hsums, fold, List.foldlM_cons]
    constructor
    · rintro ⟨balance, h⟩
      obtain ⟨next, hnext, h⟩ := exists_of_bind_eq_ok h
      obtain ⟨hscale, hvalue⟩ := toRat_of_step hs (hp p List.mem_cons_self) hnext
      have hlt := hstep.1 ⟨next, hnext⟩
      rw [← hvalue] at hlt ⊢
      exact (ih hscale hlt hrest).1 ⟨balance, h⟩
    · intro h
      have hlt : |start.toRat + p.effect| < m.room := by simpa using h 0
      obtain ⟨next, hnext⟩ := hstep.2 hlt
      obtain ⟨hscale, hvalue⟩ := toRat_of_step hs (hp p List.mem_cons_self) hnext
      rw [← hvalue] at hlt h
      rw [hnext]
      exact (ih hscale hlt hrest).2 h

/-- If there is no balance after several more entries, a running sum is too large. -/
theorem isTooLarge_of_fold {postings : List Posting} (hs : m.OnScale start)
    (hp : ∀ p ∈ postings, m.Settled p.amount) (h : fold m start postings = .error e) :
    e.IsTooLarge := by
  induction postings generalizing start with
  | nil => cases h
  | cons p rest ih =>
    rw [fold, List.foldlM_cons] at h
    rcases of_bind_eq_error h with hstep | ⟨next, hnext, hrest⟩
    · exact isTooLarge_of_step hs (hp p List.mem_cons_self) hstep
    · exact ih (toRat_of_step hs (hp p List.mem_cons_self) hnext).1
        (fun q hq => hp q (List.mem_cons_of_mem p hq)) hrest

end Balance

/-! ## The balance of a history -/

namespace Money

/-- All running sums of the entries, from the first one on, lie within the room. -/
def HasRoomFor (m : Money) (history : List LedgerEntry) : Prop :=
  ∀ n, |((history.take n).map fun e => e.posting.effect).sum| < m.room

/-- What reading the balance of a history comes to: where there is room for the running sums, what
the entries add up to, and otherwise a failure, because there is no amount zero or because a sum is
too large. -/
structure Answers (m : Money) (history : List LedgerEntry) (answer : Except Failure Decimal) :
    Prop where
  /-- With room for the running sums, the balance is exact. -/
  exact : m.HasRoomFor history → ∃ balance, answer = .ok balance ∧ balance.isFinite = true ∧
    balance.toRat = (history.map fun e => e.posting.effect).sum
  /-- Without room for them there is no balance. -/
  refused : ¬m.HasRoomFor history → ∃ e, answer = .error e ∧ (m.zero = .error e ∨ e.IsTooLarge)

/-- A balance is a finite number. -/
theorem Answers.isFinite {m : Money} {history : List LedgerEntry} {balance : Decimal}
    (h : m.Answers history (.ok balance)) : balance.isFinite = true := by
  by_cases hroom : m.HasRoomFor history
  · obtain ⟨_, heq, hfinite, -⟩ := h.exact hroom
    cases heq
    exact hfinite
  · obtain ⟨e, heq, -⟩ := h.refused hroom
    cases heq

end Money

namespace Ledger

variable {cfg : Config} {history : List LedgerEntry}

/-- The balance of entries whose amounts are settled is what reading it should come to. -/
theorem answers_balanceOf (h : ∀ e ∈ history, cfg.money.Settled e.amount) :
    cfg.money.Answers history (balanceOf cfg history) := by
  have hsettled : ∀ p ∈ history.map LedgerEntry.posting, cfg.money.Settled p.amount := by
    intro p hp
    obtain ⟨e, he, rfl⟩ := List.mem_map.1 hp
    exact h e he
  cases hzero : cfg.money.zero with
  | error e =>
    have hanswer : balanceOf cfg history = .error e := by
      rw [balanceOf, hzero]
      rfl
    refine ⟨fun hroom => ?_, fun _ => ⟨e, hanswer, .inl hzero⟩⟩
    -- without an amount zero not even the empty sum has room
    obtain ⟨z, hz⟩ := Money.room_pos_iff.1 (lt_of_le_of_lt (abs_nonneg _) (hroom 0))
    cases hzero.symm.trans hz
  | ok z =>
    obtain ⟨hscale, hvalue⟩ := Money.onScale_of_zero hzero
    have hpos : |z.toRat| < cfg.money.room := by
      rw [hvalue, abs_zero]
      exact Money.room_pos_iff.2 ⟨z, hzero⟩
    have hanswer : balanceOf cfg history =
        Balance.fold cfg.money z (history.map LedgerEntry.posting) := by
      rw [balanceOf, hzero]
      rfl
    have hiff : (∃ balance, balanceOf cfg history = .ok balance) ↔
        cfg.money.HasRoomFor history := by
      rw [hanswer, Balance.fold_ok_iff hscale hpos hsettled]
      refine forall_congr' fun n => ?_
      rw [hvalue, zero_add, ← List.map_take, List.map_map]
      rfl
    constructor
    · intro hroom
      obtain ⟨balance, hbalance⟩ := hiff.2 hroom
      obtain ⟨hscale', hvalue'⟩ :=
        Balance.toRat_of_fold hscale hsettled (hanswer.symm.trans hbalance)
      refine ⟨balance, hbalance, hscale'.isFinite, ?_⟩
      rw [hvalue', hvalue, zero_add, List.map_map]
      rfl
    · intro hroom
      cases hbalance : balanceOf cfg history with
      | ok balance => exact absurd (hiff.1 ⟨balance, hbalance⟩) hroom
      | error e =>
        exact ⟨e, rfl,
          .inr (Balance.isTooLarge_of_fold hscale hsettled (hanswer.symm.trans hbalance))⟩

end Ledger

/-! ## Reading -/

/-- An operation whose both ends are those of a computation comes to what the computation does. -/
theorem Op.Ends.perform_fst {α : Type} {op : Op α} {w : World} {r : Except Failure α}
    (h : op.Ends w (fun a _ => r = .ok a) fun e _ => r = .error e) : (op.perform w).1 = r := by
  unfold Ends at h
  split at h
  · rename_i hrun
    rw [hrun, h]
  · rename_i hrun
    rw [hrun, h]

namespace Ledger

variable {cfg : Config} {b : Books} {w : World} {ids : List Uuid} {user : User}
  {own : List LedgerEntry} {u : Uuid}

open Op

/-- The amounts of the entries of a user are settled. -/
theorem NewestFirst.settled (hown : NewestFirst ids own (ofUser u b.entries))
    (h : w.Holds cfg none b) : ∀ e ∈ own.reverse, cfg.money.Settled e.amount := fun _ he =>
  h.proper.entryAmounts _ (List.mem_filter.1 (hown.perm.mem_iff.1 (List.mem_reverse.1 he))).1

/-- The entries in a currency are those whose currency it is. -/
theorem inCurrency_str (currency : String) (es : List LedgerEntry) :
    inCurrency (.str currency) es = es.filter fun e => e.currency = currency := by
  refine List.filter_congr fun e _ => ?_
  rw [Bool.eq_iff_iff, Value.sameKey_str_iff, Value.str.injEq, decide_eq_true_eq]

/-- The balance of a user is that of the entries in the order in which they were made. -/
theorem perform_calculateBalance (h : w.Holds cfg none b) (huser : user ∈ b.users)
    (hids : (b.entries.map LedgerEntry.id).Sublist ids) (hnodup : ids.Nodup)
    (hc : Comparable (ofUser user.id b.entries))
    (hown : NewestFirst ids own (ofUser user.id b.entries)) (currency : Value) :
    ((calculateBalance cfg (.uuid user.id) currency).perform w).1 =
      balanceOf cfg (if currency.isNull then own.reverse else inCurrency currency own.reverse) := by
  obtain ⟨columns, hget, -⟩ := h.held.users.get_keyOf h.sound huser
  refine Ends.perform_fst (ends_bind (ends_bind (ends_query_ok hget ?_)))
  refine ends_bind ((ends_entriesForUser_ok h hids hnodup hc hown).mono ?_ fun _ _ hf => hf.elim)
  rintro es _ ⟨rfl, rfl⟩
  exact ends_ofExcept (fun _ hok => hok) fun _ herror => herror

/-- The balance of a user in a currency is that of the entries in it. -/
theorem perform_getBalance (h : w.Holds cfg none b) (huser : user ∈ b.users)
    (hids : (b.entries.map LedgerEntry.id).Sublist ids) (hnodup : ids.Nodup)
    (hc : Comparable (ofUser user.id b.entries))
    (hown : NewestFirst ids own (ofUser user.id b.entries)) {given : Value} {currency : String}
    (hcurrency : cfg.currencyOf given = .str currency) :
    ((getBalance cfg (.uuid user.id) given).perform w).1.map UserBalance.balance =
      balanceOf cfg (inCurrency (.str currency) own.reverse) := by
  have henter := h.enter
  obtain ⟨columns, hget, -⟩ := henter.held.users.get_keyOf henter.sound huser
  generalize hes : inCurrency (.str currency) own.reverse = es
  have hanswers : cfg.money.Answers es (balanceOf cfg es) :=
    answers_balanceOf fun e he => hown.settled h e (List.mem_filter.1 (hes ▸ he)).1
  -- the rows of the user are read inside a transaction, and their sum is checked once more
  have hends : (UserBalance.balance <$> getBalance cfg (.uuid user.id) given).Ends w
      (fun balance _ => balanceOf cfg es = .ok balance) fun e _ => balanceOf cfg es = .error e := by
    refine ends_map ?_
    unfold getBalance
    rw [hcurrency]
    refine ends_bind (ends_transaction (ends_bind (ends_bind (ends_query_ok hget ?_))))
    refine ends_bind ((ends_entriesForUser_ok henter hids hnodup hc hown).mono ?_
      fun _ _ hf => hf.elim)
    rintro _ _ ⟨rfl, rfl⟩
    refine ends_pure ?_
    rw [hes]
    refine ends_bind (ends_ofExcept (fun balance hbalance => ?_) fun _ herror => herror)
    have hread : Check.finiteDecimal balance = .valid balance :=
      if_pos (hbalance ▸ hanswers).isFinite
    rw [hread]
    exact ends_ofExcept_ok rfl hbalance
  have hperform := Ends.perform_fst hends
  rw [perform_map] at hperform
  rw [← hperform]
  rcases (getBalance cfg (.uuid user.id) given).perform w with ⟨r, w'⟩
  cases r with
  | ok x => rfl
  | error e => rfl

end Ledger

namespace World

variable {cfg : Config} {w : World} {turns : List Turn}

/-- A balance can be read exactly if there is room for the running sums of the history. In every
state that a run leads to, for every user whose entries were made at times that can be compared: the
balance in all currencies together and the balance in each one, asked for alone or with what it rests
on, are the exact sums of the entries in the order in which they were made, as long as no running sum
leaves the room of the rules; and they cannot be read if one does. -/
theorem balances_of_run (hw : w.IsNew) (hturns : ∀ t ∈ turns, t.call.Allowed .full)
    (hc : ∀ last, (w.run cfg turns).entries = .ok last →
      ∀ u, Ledger.Comparable (Ledger.ofUser u last)) :
    ∃ b : Books, b.Held (w.run cfg turns).store ∧ ∀ user ∈ b.users, ∃ history,
      Ledger.NewestFirst (b.entries.map LedgerEntry.id) history.reverse
        (Ledger.ofUser user.id b.entries) ∧
      cfg.money.Answers history
        ((Ledger.calculateBalance cfg (.uuid user.id)).perform (w.run cfg turns)).1 ∧
      ∀ currency : String,
        cfg.money.Answers (history.filter fun e => e.currency = currency)
          ((Ledger.calculateBalance cfg (.uuid user.id) (.str currency)).perform
            (w.run cfg turns)).1 ∧
        ∀ given, cfg.currencyOf given = .str currency →
          cfg.money.Answers (history.filter fun e => e.currency = currency)
            (((Ledger.getBalance cfg (.uuid user.id) given).perform
              (w.run cfg turns)).1.map UserBalance.balance) := by
  obtain ⟨b, -, hb⟩ := hw.holds.run hturns
  refine ⟨b, hb.held, fun user huser => ?_⟩
  have hnodup := hb.nodup_entry_ids
  have hsub : ((Ledger.ofUser user.id b.entries).map LedgerEntry.id).Sublist
      (b.entries.map LedgerEntry.id) := List.filter_sublist.map _
  -- the history is the entries of the user, the oldest one first
  obtain ⟨own, hown⟩ := Ledger.exists_newestFirst hsub.subset (hnodup.sublist hsub)
  have hcomparable := hc _ hb.entries_eq user.id
  have hsettled := hown.settled hb
  have hincurrency : ∀ currency : String, cfg.money.Answers
      (own.reverse.filter fun e => e.currency = currency)
      (Ledger.balanceOf cfg (Ledger.inCurrency (.str currency) own.reverse)) := by
    intro currency
    rw [Ledger.inCurrency_str]
    exact Ledger.answers_balanceOf fun e he => hsettled e (List.mem_filter.1 he).1
  refine ⟨own.reverse, ?_, ?_, fun currency => ⟨?_, fun given hgiven => ?_⟩⟩
  · rwa [List.reverse_reverse]
  · rw [Ledger.perform_calculateBalance hb huser (.refl _) hnodup hcomparable hown]
    exact Ledger.answers_balanceOf hsettled
  · rw [Ledger.perform_calculateBalance hb huser (.refl _) hnodup hcomparable hown]
    exact hincurrency currency
  · rw [Ledger.perform_getBalance hb huser (.refl _) hnodup hcomparable hown hgiven]
    exact hincurrency currency

/-- Two credits of 1.00 and 2.00 have room, so their balance is 3.00. -/
theorem balances_of_creditsAt :
    (∀ t ∈ Turn.creditsAt ⟨0, some 0⟩ ⟨0, some 0⟩, t.call.Allowed .full) ∧
      ∃ b : Books,
        b.Held ((fresh { now := ⟨0, some 0⟩, step := 0 }).run .rupees
          (Turn.creditsAt ⟨0, some 0⟩ ⟨0, some 0⟩)).store ∧
        ∀ user ∈ b.users, ∃ history,
          Ledger.NewestFirst (b.entries.map LedgerEntry.id) history.reverse
            (Ledger.ofUser user.id b.entries) ∧
          Config.rupees.money.Answers history
            ((Ledger.calculateBalance .rupees (.uuid user.id)).perform
              ((fresh { now := ⟨0, some 0⟩, step := 0 }).run .rupees
                (Turn.creditsAt ⟨0, some 0⟩ ⟨0, some 0⟩))).1 := by
  have hallowed := Turn.allowed_creditsAt ⟨0, some 0⟩ ⟨0, some 0⟩
  have hoffsets : ((fresh { now := ⟨0, some 0⟩, step := 0 }).run .rupees
      (Turn.creditsAt ⟨0, some 0⟩ ⟨0, some 0⟩)).entries.toOption.map
        (fun es => es.all fun e => e.createdAt.offset.isSome) = some true := by decide +kernel
  obtain ⟨b, hheld, hbalances⟩ := balances_of_run (isNew_fresh _) hallowed
    fun last hlast _ => comparable_of_offsets hoffsets last hlast
  refine ⟨hallowed, b, hheld, fun user huser => ?_⟩
  obtain ⟨history, horder, hanswers, -⟩ := hbalances user huser
  exact ⟨history, horder, hanswers⟩

end World

/-- A user gets two credits of the largest amount that the rules permit. -/
def Turn.twoLargeCredits : List Turn :=
  [⟨{ now := ⟨0, some 0⟩, step := 1 }, .createUser (.str "a@x.org") .null⟩,
    ⟨{ now := ⟨0, some 0⟩, step := 1 },
      .createCredit (.uuid ⟨1⟩) (.str "99999999999999999999999999.99") {}⟩,
    ⟨{ now := ⟨0, some 0⟩, step := 1 },
      .createCredit (.uuid ⟨1⟩) (.str "99999999999999999999999999.99") {}⟩]

/-- Both credits may be posted and are, and then the balance of the user cannot be read any more,
neither in all currencies together nor in the one of the credits. -/
theorem World.balance_error_of_twoLargeCredits :
    (∀ t ∈ Turn.twoLargeCredits, t.call.Allowed .full) ∧
      let last := (fresh { now := ⟨0, some 0⟩, step := 1 }).run .rupees Turn.twoLargeCredits
      last.entries.toOption.map (fun es => es.map LedgerEntry.status) = some [.posted, .posted] ∧
        ((Ledger.calculateBalance .rupees (.uuid ⟨1⟩)).perform last).1.isOk = false ∧
        ((Ledger.calculateBalance .rupees (.uuid ⟨1⟩) (.str "INR")).perform last).1.isOk = false ∧
        ((Ledger.getBalance .rupees (.uuid ⟨1⟩)).perform last).1.isOk = false := by
  constructor
  · intro t ht
    simp only [Turn.twoLargeCredits, List.mem_cons, List.not_mem_nil, or_false] at ht
    rcases ht with rfl | rfl | rfl
    · exact ⟨none, rfl⟩
    · exact ⟨⟨none, rfl⟩, none, none, rfl, rfl, trivial⟩
    · exact ⟨⟨none, rfl⟩, none, none, rfl, rfl, trivial⟩
  · decide +kernel

end RewardLedger
