import RewardLedger.Proofs.Ledger.Impact
import RewardLedger.Proofs.Ledger.Outstanding

/-!
# Moves of different rewards commute

What is foreseen of a move rests on the reward and on the entries that belong to it, all of which a
move of another reward leaves alone (`Books.Undergoes.foresee_eq`). So each of two moves comes to the
same whether it is the first or the second one, and the books after both differ only in which of
their entries stands first (`Books.Undergoes.agree`). The order of entries does not matter for a
balance that can be computed (`Ledger.eq_of_calculateBalance`), whoever the entries belong to.
-/

namespace RewardLedger

variable {cfg : Config} {base base' : Option Store} {b b₁ b₂ b' b'' : Books} {r s : Reward}
  {i j : Impact} {e : LedgerEntry} {w w' : World}

/-! ## Changes of entries and of states -/

/-- It does not matter which of two entries is made void first. -/
theorem LedgerEntry.voided_comm (id id' : Uuid) (e : LedgerEntry) :
    (e.voided id').voided id = (e.voided id).voided id' := by
  by_cases hid : id = id'
  · rw [hid]
  by_cases h : e.id = id
  · have h' : e.id ≠ id' := fun h' => hid (h.symm.trans h')
    rw [voided_of_ne h', voided_of_ne ((e.voided_id id).trans_ne h')]
  · rw [voided_of_ne h, voided_of_ne ((e.voided_id id').trans_ne h)]

namespace Impact

/-- A change changes of an entry only whether it counts. -/
theorem apply_eq (i : Impact) (e : LedgerEntry) :
    i.apply e = { e with status := (i.apply e).status } := by
  unfold apply
  cases i.voids with
  | none => rfl
  | some id => exact e.voided_eq id

/-- A change keeps the rewards that entries belong to. -/
@[simp] theorem apply_rewardId (i : Impact) (e : LedgerEntry) :
    (i.apply e).rewardId = e.rewardId := by
  rw [apply_eq]

/-- A change keeps what entries take back. -/
@[simp] theorem apply_reversalOf (i : Impact) (e : LedgerEntry) :
    (i.apply e).reversalOf = e.reversalOf := by
  rw [apply_eq]

/-- A change leaves the entries alone that it does not make void. -/
theorem apply_of_ne (h : i.voids ≠ some e.id) : i.apply e = e := by
  cases hv : i.voids with
  | none => rw [apply_of_none hv, id_eq]
  | some id =>
    rw [apply_of_some hv]
    exact LedgerEntry.voided_of_ne fun hid => h (by rw [hv, hid])

/-- It does not matter for an entry which of two changes comes first. -/
theorem apply_comm (i j : Impact) (e : LedgerEntry) : i.apply (j.apply e) = j.apply (i.apply e) := by
  unfold apply
  cases i.voids with
  | none => rfl
  | some id =>
    cases j.voids with
    | none => rfl
    | some id' => exact e.voided_comm id id'

/-- The state of a reward after the change. -/
def standing (i : Impact) (s : Uuid × RewardStatus) : Uuid × RewardStatus :=
  if s.1 = i.reward then (s.1, i.status.getD s.2) else s

/-- It does not matter for the states of rewards which of two changes of different rewards comes
first. -/
theorem standing_comm (h : i.reward ≠ j.reward) :
    i.standing ∘ j.standing = j.standing ∘ i.standing := by
  funext s
  by_cases hi : s.1 = i.reward
  · simp only [Function.comp_apply, standing, hi, if_true, if_false, h]
  · simp only [Function.comp_apply, standing, hi, if_false]
    split <;> rfl

end Impact

namespace Books

/-- The states of the rewards. -/
def standings (b : Books) : List (Uuid × RewardStatus) := b.rewards.map fun r => (r.id, r.status)

/-- What the entries are for rewards and balances. -/
def outlines (b : Books) : List LedgerEntry.Outline := b.entries.map LedgerEntry.outline

/-- What the entries of a reward are is found among what all entries are. -/
theorem outlines_tagged (b : Books) (id : Uuid) : (b.tagged id).map LedgerEntry.outline =
    b.outlines.filter fun o => o.rewardId = some id := by
  rw [outlines, List.filter_map]
  rfl

namespace Undergoes

/-! ## What a change leaves alone -/

/-- A reward is still there after another one was moved. -/
theorem reward_mem (h : b.Undergoes i b') (hr : r ∈ b.rewards) (hne : r.id ≠ i.reward) :
    r ∈ b'.rewards := by
  obtain ⟨f, -, heq⟩ := h.rewards
  have hmem := List.mem_map_of_mem (f := Reward.changed i.reward f) hr
  rwa [Reward.changed_of_ne hne, ← heq] at hmem

/-- An entry that does not belong to the reward does not become void. -/
theorem voids_ne (h : b.Undergoes i b') (hb : b.Numbered) (he : e ∈ b.entries)
    (hne : e.rewardId ≠ some i.reward) : i.voids ≠ some e.id := by
  intro hvoids
  obtain ⟨x, hx, hid, htag⟩ := h.voided _ hvoids
  rw [hb.eq_of_entry_id hx he hid] at htag
  exact hne htag

/-- No entry is posted for another reward. -/
theorem filter_posts_eq_nil (h : b.Undergoes i b') {id : Uuid} (hne : id ≠ i.reward) :
    (i.posts.filter fun o => o.rewardId = some id) = [] :=
  List.filter_eq_nil_iff.2 fun o ho htag => hne
    (Option.some.inj ((of_decide_eq_true htag).symm.trans (h.tagged o ho)))

/-- The entries of a reward are the same after another one was moved. -/
theorem tagged_eq (h : b.Undergoes i b') (hb : b.Numbered) {id : Uuid} (hne : id ≠ i.reward) :
    b'.tagged id = b.tagged id := by
  obtain ⟨new, heq, hposts, -⟩ := h.entries
  -- what is new belongs to the other reward, and so does what becomes void
  have hnew : (new.filter fun e => e.rewardId = some id) = [] := by
    have hposted := h.filter_posts_eq_nil hne
    rw [← hposts, List.filter_map] at hposted
    exact List.map_eq_nil_iff.1 hposted
  have hkeep : (fun e : LedgerEntry => decide (e.rewardId = some id)) ∘ i.apply =
      fun e => decide (e.rewardId = some id) := by
    funext e
    rw [Function.comp_apply, Impact.apply_rewardId]
  rw [Books.tagged, heq, List.filter_append, hnew, List.append_nil, List.filter_map, hkeep]
  refine (List.map_congr_left fun e he => ?_).trans (List.map_id _)
  obtain ⟨hmem, htag⟩ := List.mem_filter.1 he
  refine Impact.apply_of_ne (h.voids_ne hb hmem ?_)
  rw [of_decide_eq_true htag]
  exact fun heq => hne (Option.some.inj heq)

/-- An entry has been taken back after another reward was moved if it had been before. -/
theorem any_reversalOf_eq (h : b.Undergoes i b') (hb : b.Numbered) (he : e ∈ b.entries)
    (hne : e.rewardId ≠ some i.reward) :
    (b'.entries.any fun o => o.reversalOf = some e.id) =
      b.entries.any fun o => o.reversalOf = some e.id := by
  obtain ⟨new, heq, -, hnew⟩ := h.entries
  have hnone : (new.any fun o => o.reversalOf = some e.id) = false := by
    refine List.any_eq_false.2 fun o ho hof => ?_
    exact h.voids_ne hb he hne ((hnew o ho).2 _ (of_decide_eq_true hof))
  rw [heq, List.any_append, hnone, Bool.or_false, List.any_map]
  congr 1
  funext o
  rw [Function.comp_apply, Impact.apply_reversalOf]

/-- The credit that is taken back with a reward is the same after another one was moved. -/
theorem creditToTakeBack_eq (h : b.Undergoes i b') (hb : b.Numbered) {id : Uuid}
    (hne : id ≠ i.reward) : b'.creditToTakeBack id = b.creditToTakeBack id := by
  -- how old entries are is decided among those of the reward, wherever their rows stand
  have holdest : b'.oldestCredit id = b.oldestCredit id := by
    rw [oldestCredit, h.tagged_eq hb hne]
    rfl
  rw [creditToTakeBack, creditToTakeBack, holdest]
  cases hfound : b.oldestCredit id with
  | error _ => rfl
  | ok found =>
    cases found with
    | none => rfl
    | some credit =>
      obtain ⟨hmem, htag, -⟩ := of_oldestCredit hfound
      have hother : credit.rewardId ≠ some i.reward := fun hi =>
        hne (Option.some.inj (htag.symm.trans hi))
      simp only [bind, Except.bind, h.any_reversalOf_eq hb hmem hother]

/-- What is foreseen of a move is the same after another reward was moved. -/
theorem foresee_eq (h : b.Undergoes i b') (hb : b.Numbered) (hne : r.id ≠ i.reward)
    (m : RewardMove) (clock : Clock) : b'.foresee r m clock = b.foresee r m clock := by
  have hverdict : b'.verdict r m = b.verdict r m := by
    cases m with
    | confirm | pay => rfl
    | reverse _ => rw [verdict, verdict, h.creditToTakeBack_eq hb hne]
  rw [foresee, hverdict]
  rfl

/-! ## Two changes -/

/-- The states of rewards change as that of the reward does. -/
theorem standings_eq (h : b.Undergoes i b') : b'.standings = b.standings.map i.standing := by
  obtain ⟨f, hf, heq⟩ := h.rewards
  rw [standings, standings, heq, List.map_map, List.map_map]
  refine List.map_congr_left fun r _ => ?_
  simp only [Function.comp_apply, Reward.changed, Impact.standing]
  split
  · rw [(hf r).1, (hf r).2]
  · rfl

/-- After two changes the entries that were there have undergone both, and those that each of them
posts stand behind them. -/
theorem outlines_eq (h : b.Undergoes i b₁) (h' : b₁.Undergoes j b') (hb : b.Numbered)
    (hj : ∀ id, j.voids = some id → ∃ e ∈ b.entries, e.id = id) :
    b'.outlines = b.entries.map (fun e => (j.apply (i.apply e)).outline) ++ (i.posts ++ j.posts) := by
  obtain ⟨new, heq, hposts, hnew⟩ := h.entries
  obtain ⟨new', heq', hposts', -⟩ := h'.entries
  -- what the second change makes void was there before the first one
  have hkept : new.map j.apply = new := by
    refine (List.map_congr_left fun e he => Impact.apply_of_ne fun hvoids => ?_).trans (List.map_id _)
    obtain ⟨x, hx, hid⟩ := hj _ hvoids
    have hlt := (hnew e he).1
    rw [← hid] at hlt
    exact absurd (hb.entries x hx) (Nat.not_le_of_lt hlt)
  rw [outlines, heq', List.map_append, hposts', heq, List.map_append, hkept, List.map_append, hposts,
    List.map_map, List.map_map, List.append_assoc]
  rfl

end Undergoes

/-- The books tell the same of rewards and balances: each reward is in the same state and its entries
come to the same, and all entries come to the same but for their order. -/
structure Agree (b b' : Books) : Prop where
  /-- The states of the rewards. -/
  standings : b.standings = b'.standings
  /-- The entries of each reward. -/
  tagged : ∀ id, (b.tagged id).map LedgerEntry.outline = (b'.tagged id).map LedgerEntry.outline
  /-- The entries. -/
  outlines : b.outlines.Perm b'.outlines

/-- Two changes of different rewards lead to books that tell the same in both orders. -/
theorem Undergoes.agree (h₁ : b.Undergoes i b₁) (h' : b₁.Undergoes j b') (h₂ : b.Undergoes j b₂)
    (h'' : b₂.Undergoes i b'') (hb : b.Numbered) (hne : i.reward ≠ j.reward) : b'.Agree b'' := by
  have hleft := h₁.outlines_eq h' hb fun id hid =>
    (h₂.voided id hid).imp fun _ he => ⟨he.1, he.2.1⟩
  have hright := h₂.outlines_eq h'' hb fun id hid =>
    (h₁.voided id hid).imp fun _ he => ⟨he.1, he.2.1⟩
  simp only [Impact.apply_comm i j] at hright
  refine ⟨?_, fun id => ?_, ?_⟩
  · rw [h'.standings_eq, h₁.standings_eq, h''.standings_eq, h₂.standings_eq, List.map_map,
      List.map_map, Impact.standing_comm hne]
  · rw [outlines_tagged, outlines_tagged, hleft, hright, List.filter_append, List.filter_append,
      List.filter_append, List.filter_append]
    congr 1
    -- only one of the changes posts entries of the reward
    by_cases hid : id = i.reward
    · have hj : id ≠ j.reward := fun hj => hne (hid.symm.trans hj)
      rw [h₂.filter_posts_eq_nil hj, List.append_nil, List.nil_append]
    · rw [h₁.filter_posts_eq_nil hid, List.append_nil, List.nil_append]
  · rw [hleft, hright]
    exact List.perm_append_comm.append_left _

/-! ## What a move comes to -/

/-- A move that is not refused changes its reward. -/
theorem reward_of_verdict {m : RewardMove} (h : b.verdict r m = .ok i) : i.reward = r.id := by
  unfold verdict at h
  split at h
  · cases m with
    | confirm | pay =>
      cases h
      rfl
    | reverse _ =>
      obtain ⟨credit, -, hi⟩ := exists_of_bind_eq_ok h
      cases hi
      rfl
  · cases h

/-- What is foreseen of a move that does not fail is what it changes. -/
theorem verdict_of_foresee {m : RewardMove} {clock : Clock} (h : b.foresee r m clock = .ok i) :
    b.verdict r m = .ok i := by
  obtain ⟨i', hverdict, hclock⟩ := exists_of_bind_eq_ok h
  split at hclock
  · cases hclock
    exact hverdict
  · cases hclock

/-- What a move of the reward changes, which is nothing if it fails. -/
def impact (b : Books) (r : Reward) (m : RewardMove) (clock : Clock) : Impact :=
  (b.foresee r m clock).toOption.getD { reward := r.id }

/-- A move changes its reward. -/
theorem impact_reward (b : Books) (r : Reward) (m : RewardMove) (clock : Clock) :
    (b.impact r m clock).reward = r.id := by
  unfold impact
  cases hforesee : b.foresee r m clock with
  | error _ => rfl
  | ok i => exact reward_of_verdict (verdict_of_foresee hforesee)

/-- A clock that can be read often enough is as good as another one. -/
theorem foresee_congr {m : RewardMove} {c c' : Clock} (h : c.gives m.readings = c'.gives m.readings) :
    b.foresee r m c = b.foresee r m c' := by
  rw [foresee, foresee, h]

/-- Giving out identifiers changes nothing. -/
theorem undergoes_issue (b : Books) (id : Uuid) (n : Nat) :
    b.Undergoes { reward := id } { b with issued := n } where
  rewards := ⟨fun r => r, fun _ => ⟨rfl, rfl⟩, by
    refine ((List.map_congr_left fun r _ => ?_).trans (List.map_id _)).symm
    exact ite_self r⟩
  entries := ⟨[], by rw [Impact.apply_of_none rfl, List.map_id, List.append_nil], rfl,
    fun _ he => absurd he List.not_mem_nil⟩
  voided _ hid := by cases hid
  tagged _ ho := absurd ho List.not_mem_nil

end Books

/-! ## Balances -/

namespace Ledger

/-- Balances of books whose entries come to the same but for their order are the same where they can
be computed. -/
theorem eq_of_calculateBalance (h : w.Holds cfg base b) (h' : w'.Holds cfg base' b')
    (hperm : b.outlines.Perm b'.outlines) {user currency : Value} {balance balance' : Decimal}
    (hbalance : ((calculateBalance cfg user currency).perform w).1 = .ok balance)
    (hbalance' : ((calculateBalance cfg user currency).perform w').1 = .ok balance') :
    balance = balance' := by
  obtain ⟨-, es, hes, hsum⟩ :=
    (ends_calculateBalance_perm h user currency).good_of_ok (Prod.ext hbalance rfl)
  obtain ⟨-, es', hes', hsum'⟩ :=
    (ends_calculateBalance_perm h' user currency).good_of_ok (Prod.ext hbalance' rfl)
  obtain ⟨zero, hzero, hfold⟩ := exists_of_bind_eq_ok hsum
  obtain ⟨zero', hzero', hfold'⟩ := exists_of_bind_eq_ok hsum'
  obtain rfl : zero = zero' := Except.ok.inj (hzero.symm.trans hzero')
  have hsettled : ∀ q ∈ es.map LedgerEntry.posting, cfg.money.Settled q.amount := by
    intro q hq
    obtain ⟨e, he, rfl⟩ := List.mem_map.1 hq
    exact h.proper.entryAmounts e (List.mem_filter.1 (hes.subset he)).1
  -- which entries count and what they do is told by what they are for balances
  let counts : LedgerEntry.Outline → Bool := fun o => (Value.uuid o.userId).sameKey user &&
    (currency.isNull || currency.sameKey (.str o.currency))
  have hcounted : ∀ es : List LedgerEntry,
      (es.filter fun e => counts e.outline).map LedgerEntry.posting =
        ((es.map LedgerEntry.outline).filter counts).map (·.posting) := fun es => by
    rw [List.filter_map, List.map_map]
    rfl
  have hpostings : (es.map LedgerEntry.posting).Perm (es'.map LedgerEntry.posting) := by
    refine (hes.map _).trans (.trans ?_ (hes'.map _).symm)
    have hsame := (hperm.filter counts).map (·.posting)
    rwa [Books.outlines, Books.outlines, ← hcounted, ← hcounted] at hsame
  exact Balance.eq_of_fold_perm (Money.onScale_of_zero hzero).1 hsettled hpostings hfold hfold'

end Ledger

/-! ## Moves in both orders -/

namespace World

/-- Move the reward with the identifier, reading that clock: what becomes of the move, and the world
after it. -/
def move (cfg : Config) (w : World) (id : Uuid) (m : RewardMove) (clock : Clock) :
    Except Failure Unit × World :=
  (m.perform cfg id).perform { w with clock }

/-- A move ends as foreseen, and the books undergo what was foreseen. -/
theorem Holds.move (h : w.Holds cfg none b) (hpeopled : b.Peopled) (hr : r ∈ b.rewards)
    (m : RewardMove) (clock : Clock) :
    (w.move cfg r.id m clock).1 = (b.foresee r m clock).map (fun _ => ()) ∧
      ∃ b', b.Steps cfg .full b' ∧ b.Undergoes (b.impact r m clock) b' ∧
        (w.move cfg r.id m clock).2.Holds cfg none b' := by
  have hclock : ({ w with clock } : World).Holds cfg none b := h.congr rfl rfl
  have hends := hclock.ends_move (p := .full) hpeopled hr m
  cases hrun : w.move cfg r.id m clock with
  | mk result w' =>
    cases result with
    | ok _ =>
      obtain ⟨i, hforesee, b', hstep, hundergoes, hw'⟩ := hends.good_of_ok hrun
      have hforesee : b.foresee r m clock = .ok i := hforesee
      refine ⟨by rw [hforesee]; rfl, b', .single hstep, ?_, hw'⟩
      rw [Books.impact, hforesee]
      exact hundergoes
    | error e =>
      obtain ⟨hforesee, n, hn, hw'⟩ := hends.bad_of_error hrun
      have hforesee : b.foresee r m clock = .error e := hforesee
      refine ⟨by rw [hforesee]; rfl, _, .single (.issue hn), ?_, hw'⟩
      rw [Books.impact, hforesee]
      exact b.undergoes_issue r.id n

/-- Each of two moves of different rewards ends as foreseen before both, and the books undergo one
after the other. -/
theorem Holds.move_move (h : w.Holds cfg none b) (hb : b.Numbered) (hpeopled : b.Peopled)
    (hr : r ∈ b.rewards) (hs : s ∈ b.rewards) (hne : s.id ≠ r.id) (m n : RewardMove)
    (c d : Clock) :
    (w.move cfg r.id m c).1 = (b.foresee r m c).map (fun _ => ()) ∧
      ((w.move cfg r.id m c).2.move cfg s.id n d).1 = (b.foresee s n d).map (fun _ => ()) ∧
      ∃ b₁ b', b.Undergoes (b.impact r m c) b₁ ∧ b₁.Undergoes (b.impact s n d) b' ∧
        ((w.move cfg r.id m c).2.move cfg s.id n d).2.Holds cfg none b' := by
  obtain ⟨hfirst, b₁, hsteps, hundergoes, hw₁⟩ := h.move hpeopled hr m c
  have hpeopled₁ := (hsteps.keeps hb hpeopled fun _ _ _ hI hs => hI.step hs).2
  have hother : s.id ≠ (b.impact r m c).reward := by rwa [b.impact_reward]
  have hs₁ := hundergoes.reward_mem hs hother
  obtain ⟨hsecond, b', -, hundergoes', hw'⟩ := hw₁.move hpeopled₁ hs₁ n d
  have hforesee := hundergoes.foresee_eq hb hother n d
  rw [hforesee] at hsecond
  rw [Books.impact, hforesee] at hundergoes'
  exact ⟨hfirst, hsecond, b₁, b', hundergoes, hundergoes', hw'⟩

/-- Moves of different rewards commute. After every run, whatever is to be done to two rewards that
are there, each of the moves comes to the same in both orders, be it a success or a failure, as long
as its clock can be read often enough in both of them or in neither. The states of all rewards and
what their entries are is the same after both orders, and so is each balance that can be computed
after both. -/
theorem moves_commute (hw : w.IsNew) {turns : List Turn}
    (hturns : ∀ t ∈ turns, t.call.Allowed .full) {id₁ id₂ : Uuid} {row₁ row₂ : Fields}
    (hrow₁ : (w.run cfg turns).store.get rewardsTable (.uuid id₁) = .ok (some row₁))
    (hrow₂ : (w.run cfg turns).store.get rewardsTable (.uuid id₂) = .ok (some row₂))
    (hne : id₁ ≠ id₂) (m₁ m₂ : RewardMove) {c₁ c₁' c₂ c₂' : Clock}
    (hc₁ : c₁.gives m₁.readings = c₁'.gives m₁.readings)
    (hc₂ : c₂.gives m₂.readings = c₂'.gives m₂.readings) :
    let first := (w.run cfg turns).move cfg id₁ m₁ c₁
    let second := first.2.move cfg id₂ m₂ c₂
    let first' := (w.run cfg turns).move cfg id₂ m₂ c₂'
    let second' := first'.2.move cfg id₁ m₁ c₁'
    first.1 = second'.1 ∧ second.1 = first'.1 ∧
      (∃ b b' : Books, b.Held second.2.store ∧ b'.Held second'.2.store ∧ b.Agree b') ∧
      ∀ (user currency : Value) (balance balance' : Decimal),
        ((Ledger.calculateBalance cfg user currency).perform second.2).1 = .ok balance →
        ((Ledger.calculateBalance cfg user currency).perform second'.2).1 = .ok balance' →
        balance = balance' := by
  intro first second first' second'
  obtain ⟨b, hsteps, hholds⟩ : ∃ b, Books.Steps cfg .full {} b ∧
      (w.run cfg turns).Holds cfg none b := exists_steps_of_run hw hturns
  obtain ⟨hb, hpeopled⟩ := hsteps.keeps .empty .empty fun _ _ _ hI hs => Books.Peopled.step hI hs
  obtain ⟨r₁, hr₁, -, hid₁⟩ := hholds.held.rewards.of_get_some hholds.sound hrow₁
  obtain ⟨r₂, hr₂, -, hid₂⟩ := hholds.held.rewards.of_get_some hholds.sound hrow₂
  obtain rfl : id₁ = r₁.id := Value.uuid.inj hid₁
  obtain rfl : id₂ = r₂.id := Value.uuid.inj hid₂
  obtain ⟨hfirst, hsecond, b₁, b', h₁, h', hw'⟩ :=
    hholds.move_move hb hpeopled hr₁ hr₂ hne.symm m₁ m₂ c₁ c₂
  obtain ⟨hfirst', hsecond', b₂, b'', h₂, h'', hw''⟩ :=
    hholds.move_move hb hpeopled hr₂ hr₁ hne m₂ m₁ c₂' c₁'
  -- in both orders each move is what it would be in the books before both of them
  have hforesee₁ : b.foresee r₁ m₁ c₁ = b.foresee r₁ m₁ c₁' := Books.foresee_congr hc₁
  have hforesee₂ : b.foresee r₂ m₂ c₂ = b.foresee r₂ m₂ c₂' := Books.foresee_congr hc₂
  rw [Books.impact, ← hforesee₁] at h''
  rw [Books.impact, ← hforesee₂] at h₂
  have hagree : b'.Agree b'' :=
    h₁.agree h' h₂ h'' hb (by rwa [b.impact_reward, b.impact_reward])
  refine ⟨?_, ?_, ⟨b', b'', hw'.held, hw''.held, hagree⟩, fun user currency x y hx hy => ?_⟩
  · exact hfirst.trans (hsecond'.trans (by rw [hforesee₁])).symm
  · exact hsecond.trans (hfirst'.trans (by rw [hforesee₂])).symm
  · exact Ledger.eq_of_calculateBalance hw' hw'' hagree.outlines hx hy

end World

/-- Two rewards of one referrer are credited and confirmed. -/
def Turn.bothConfirmed : List Turn :=
  let clock : Clock := { now := ⟨0, some 0⟩, step := 1 }
  [⟨clock, .createUser (.str "a@x.org") .null⟩, ⟨clock, .createUser (.str "b@x.org") .null⟩,
    ⟨clock, .creditReward (.uuid ⟨1⟩) (.uuid ⟨2⟩) (.str "10.00") (.str "k") .null .null⟩,
    ⟨clock, .creditReward (.uuid ⟨1⟩) (.uuid ⟨2⟩) (.str "2.50") (.str "l") .null .null⟩,
    ⟨clock, .confirmReward (.uuid ⟨3⟩)⟩, ⟨clock, .confirmReward (.uuid ⟨5⟩)⟩]

/-- Paying one of two rewards out and taking the other one back commute, though the clock runs on. -/
theorem World.moves_commute_of_bothConfirmed :
    let w := (fresh { now := ⟨0, some 0⟩, step := 1 }).run .rupees Turn.bothConfirmed
    let first := w.move .rupees ⟨3⟩ .pay { now := ⟨10, some 0⟩, step := 1 }
    let second := first.2.move .rupees ⟨5⟩ (.reverse "fraud") { now := ⟨12, some 0⟩, step := 1 }
    let first' := w.move .rupees ⟨5⟩ (.reverse "fraud") { now := ⟨10, some 0⟩, step := 1 }
    let second' := first'.2.move .rupees ⟨3⟩ .pay { now := ⟨12, some 0⟩, step := 1 }
    (∀ t ∈ Turn.bothConfirmed, t.call.Allowed .full) ∧ first.1 = second'.1 ∧
      second.1 = first'.1 ∧
      ∃ b b' : Books, b.Held second.2.store ∧ b'.Held second'.2.store ∧ b.Agree b' := by
  intro w first second first' second'
  have hallowed : ∀ t ∈ Turn.bothConfirmed, t.call.Allowed .full := by
    intro t ht
    simp only [Turn.bothConfirmed, List.mem_cons, List.not_mem_nil, or_false] at ht
    rcases ht with rfl | rfl | rfl | rfl | rfl | rfl
    · exact ⟨none, rfl⟩
    · exact ⟨none, rfl⟩
    · exact ⟨"k", rfl⟩
    · exact ⟨"l", rfl⟩
    · trivial
    · trivial
  obtain ⟨row, hrow⟩ := exists_eq_ok_some (r := w.store.get rewardsTable (.uuid ⟨3⟩))
    (by decide +kernel)
  obtain ⟨row', hrow'⟩ := exists_eq_ok_some (r := w.store.get rewardsTable (.uuid ⟨5⟩))
    (by decide +kernel)
  -- both moves read the clock twice
  have hclock : Clock.gives 2 { now := ⟨10, some 0⟩, step := 1 } =
      Clock.gives 2 { now := ⟨12, some 0⟩, step := 1 } := by decide +kernel
  obtain ⟨hone, hother, hagree, -⟩ := moves_commute (isNew_fresh _) hallowed hrow hrow' (by decide)
    .pay (.reverse "fraud") hclock hclock.symm
  exact ⟨hallowed, hone, hother, hagree⟩

example :
    let w := (World.fresh { now := ⟨0, some 0⟩, step := 1 }).run .rupees Turn.bothConfirmed
    let clock : Clock := { now := ⟨10, some 0⟩, step := 1 }
    let paid := w.move .rupees ⟨3⟩ .pay clock
    let reversed := paid.2.move .rupees ⟨5⟩ (.reverse "fraud") clock
    paid.1.isOk ∧ reversed.1.isOk ∧
      ((Ledger.calculateBalance .rupees (.uuid ⟨1⟩) (.str "INR")).perform
        reversed.2).1.toOption = some (.finite false 0 (-2)) := by decide +kernel

end RewardLedger
