import RewardLedger.Proofs.Ledger.Added
import RewardLedger.Proofs.Ledger.WellFormed
import RewardLedger.Proofs.Replay

/-!
# What recorded requests stand for

Where requests are recorded by credits alone, each of them stands for a reward: it has the key of the
reward, and the fingerprint of what the reward says was asked for (`Books.Covered`). Steps keep that,
since a reward that moves on keeps its parties, its amount and its currency.

As long as clocks show instants that exist, the answer of each recorded request can also be read
(`World.Recalls.run`). A call that writes to the recorded requests does so by crediting rewards, and a
credit records what it has just answered; the other calls leave the recorded requests as they are
(`Call.exists_requests_eq`).
-/

namespace RewardLedger

variable {cfg : Config} {p : Permission} {b b' : Books} {w : World}

open Op

/-- The request asked for what the reward says, under its key. -/
structure StoredRequest.StandsFor (cfg : Config) (q : StoredRequest) (r : Reward) : Prop where
  /-- The key is the same. -/
  key : r.idempotencyKey = q.key
  /-- The fingerprint is that of the parties, the amount and the currency. -/
  requestHash : Requests.fingerprint cfg (.uuid r.referrerId) (.uuid r.referredId)
    (.decimal r.amount) (.str r.currency) = .ok q.requestHash

namespace Books

/-- Every recorded request stands for a reward. -/
def Covered (cfg : Config) (b : Books) : Prop :=
  ∀ q ∈ b.requests, ∃ r ∈ b.rewards, q.StandsFor cfg r

namespace Covered

/-- In empty books no requests are recorded. -/
theorem empty : Covered cfg {} := fun _ h => absurd h List.not_mem_nil

/-- Changing a reward without what was asked for keeps requests covered. -/
theorem withReward (h : b.Covered cfg) (id : Uuid) {f : Reward → Reward}
    (hf : ∀ q r, StoredRequest.StandsFor cfg q r → q.StandsFor cfg (f r)) :
    (b.withReward id f).Covered cfg := by
  intro q hq
  obtain ⟨r, hr, hstands⟩ := h q hq
  refine ⟨r.changed id f, List.mem_map_of_mem hr, ?_⟩
  unfold Reward.changed
  split
  · exact hf q r hstands
  · exact hstands

/-- Every step keeps requests covered, if none are recorded by hand. -/
theorem step (hp : ¬p.records) (h : b.Covered cfg) (hs : Step cfg p b b') : b'.Covered cfg := by
  cases hs with
  | issue | addUser | rename | post | takeBack => exact h
  | confirm => exact h.withReward _ fun _ _ hr => ⟨hr.key, hr.requestHash⟩
  | pay => exact Covered.withReward h _ fun _ _ hr => ⟨hr.key, hr.requestHash⟩
  | reverse => exact Covered.withReward h _ fun _ _ hr => ⟨hr.key, hr.requestHash⟩
  | record hrecords => exact absurd hrecords hp
  | @credit _ r _ q hc =>
    intro x hx
    rw [hc.eq] at hx ⊢
    rcases List.mem_append.1 hx with hx | hx
    · obtain ⟨r', hr', hstands⟩ := h x hx
      exact ⟨r', List.mem_append_left _ hr', hstands⟩
    · rw [List.mem_singleton.1 hx]
      exact ⟨r, List.mem_append_right _ List.mem_cons_self, hc.key.symm, hc.requestHash⟩

/-- Steps keep requests covered, if none are recorded by hand. -/
theorem steps (hp : ¬p.records) (h : b.Covered cfg) (hs : b.Steps cfg p b') : b'.Covered cfg := by
  induction hs with
  | refl => exact h
  | tail _ hlast ih => exact ih.step hp hlast

end Covered

/-- The answers of recorded requests can be read, as long as identifiers have 128 bits. -/
def Readable (b : Books) : Prop :=
  b.issued < 2 ^ 128 → ∀ q ∈ b.requests, ∃ answer, Rewards.answerOf q.response = .ok answer

/-- Books with the same recorded requests are as readable. -/
theorem Readable.congr (h : b.Readable) (hrequests : b'.requests = b.requests)
    (hissued : b.issued ≤ b'.issued) : b'.Readable := fun hbits q hq =>
  h (Nat.lt_of_le_of_lt hissued hbits) q (hrequests ▸ hq)

end Books

/-! ## Crediting -/

/-- The entry is the credit of the reward, and it counts. -/
structure LedgerEntry.IsCreditOf (e : LedgerEntry) (r : Reward) : Prop where
  /-- It is a credit. -/
  entryType : e.entryType = .credit
  /-- It counts. -/
  status : e.status = .posted
  /-- It concerns the user who is rewarded. -/
  userId : e.userId = r.referrerId
  /-- It belongs to the reward. -/
  rewardId : e.rewardId = some r.id

/-- A clock that has been read shows nothing new. -/
theorem Clock.Sound.after {c c' : Clock} (h : c.Sound) {ts : List Instant} (hts : c.Reads ts c') :
    c'.Sound := fun ts' c'' hts' t ht =>
  h (ts ++ ts') c'' (hts.trans hts') t (List.mem_append_right _ ht)

/-- The clock shows instants that exist, and the world holds books to which steps lead and whose
answers can be read. -/
def World.Recalling (cfg : Config) (p : Permission) (b : Books) (w : World) : Prop :=
  w.clock.Sound ∧ ∃ b', b.Steps cfg p b' ∧ w.Holds cfg none b' ∧ b'.Readable

/-- Reading the world takes no answer away. -/
theorem World.Recalling.beside {w' : World} (h : w.Recalling cfg p b) (hb : w.Beside w') :
    w'.Recalling cfg p b := by
  obtain ⟨hclock, b₁, hsteps, hw, hreadable⟩ := h
  obtain ⟨ts, hts⟩ := hb.clock
  obtain ⟨n, hn, hw'⟩ := restsOnStore_holdsBeside cfg none b₁ hb.store hb.issued hw.beside
  exact ⟨hclock.after hts, _, hsteps.tail (.issue hn), hw', hreadable.congr rfl hn⟩

namespace Rewards

/-- A credit that succeeds with a new answer was asked for between two identifiers. -/
theorem ends_credit_parties (h : w.Holds cfg none b) (hrecorded : b.Recorded)
    (referrer referred amount : Value) (key : String) (currency metadata : Value) :
    (credit cfg referrer referred amount (.str key) currency metadata).Ends w
      (fun result _ => result.replayed = false →
        ∃ u u', referrer = .uuid u ∧ referred = .uuid u')
      fun _ _ => True := by
  refine ends_bind (ends_ofExcept (fun request hrequest => ?_) fun _ _ => trivial)
  obtain ⟨hr, rfl, rfl, -⟩ := of_checkRequest hrequest
  have henter : w.enter.Holds cfg (some w.store) b := h.enter
  have honce : (creditOnce cfg request).Ends w (fun result _ => result.replayed = false →
      ∃ u u', request.referrer = .uuid u ∧ request.referred = .uuid u') fun _ _ => True := by
    refine ends_creditOnce_of_transaction (ends_transaction ?_)
    rw [hr.key]
    refine ends_bind ((Requests.ends_check henter key request.fingerprint).mono ?_
      fun _ _ _ => trivial)
    rintro standing w' ⟨rfl, -⟩
    -- a fresh request is carried out between users; an answered one is marked as replayed
    cases standing with
    | fresh =>
      refine ends_requireParties henter (fun u _ hu u' _ hu' => ?_) fun _ _ => trivial
      exact (ends_self _ _).mono (fun _ _ _ log _ => ⟨_, _, hu, hu'⟩) fun _ _ _ => trivial
    | answered response =>
      refine (ends_replay henter request response).mono ?_ fun _ _ _ => trivial
      rintro result w₁ ⟨-, answer, -, rfl⟩ log hfresh
      cases hfresh
  refine ends_onDuplicate ((honce.and (ends_creditOnce_of_keyed h hrecorded hr)).mono
    (fun _ _ hgood => hgood.1) ?_)
  rintro e w' ⟨-, -, he⟩
  refine ⟨fun table index taken hdup => ?_, fun _ => trivial⟩
  rw [hdup] at he
  cases he

/-- The instants that a new answer shows were read from the clock. -/
theorem ends_credit_shown (h : w.Holds cfg none b) (hrecorded : b.Recorded) (hclock : w.clock.Sound)
    (referrer referred amount : Value) (key : String) (currency metadata : Value) :
    (credit cfg referrer referred amount (.str key) currency metadata).Ends w
      (fun result _ => result.replayed = false → ∀ t ∈ result.instants, t.Valid)
      fun _ _ => True := by
  by_cases hids : ∃ u u', referrer = .uuid u ∧ referred = .uuid u'
  · obtain ⟨u, u', rfl, rfl⟩ := hids
    refine (ends_credit_unless_refused h hrecorded u u' amount key currency metadata).mono ?_
      fun _ _ _ => trivial
    rintro result w' ⟨request, -, hgrants⟩ hfresh
    obtain ⟨ts, hts, hshown⟩ := (hgrants hfresh).readings
    exact CreditResult.forall_instants.2
      ⟨hshown.1.mono (hclock ts _ hts), hclock ts _ hts _ hshown.2⟩
  · refine (ends_credit_parties h hrecorded referrer referred amount key currency metadata).mono ?_
      fun _ _ _ => trivial
    exact fun result w' hparties hfresh => absurd (hparties hfresh) hids

/-- The answer that a credit records can be read. -/
theorem keeps_credit_recalling (hb : b.Recorded)
    (hcontext : cfg.money.context.greatest ≤ Decimal.greatestExponent)
    (referrer referred amount : Value) (key : String) (currency metadata : Value) :
    (credit cfg referrer referred amount (.str key) currency metadata).Keeps
      (World.Recalling cfg p b) := by
  rintro w ⟨hclock, b₁, hsteps, hw, hreadable⟩
  have hrecorded : b₁.Recorded := hb.steps hsteps
  -- the times of the entries so far are readings, and so is the time of a new one
  have htimed : w.Timed (b₁.entries.map LedgerEntry.createdAt) w.clock := by
    refine ⟨[], .none _, ?_⟩
    rw [List.append_nil]
    exact hw.held.entries.stamped hw.sound hw.within
  refine ((ends_credit hw hrecorded referrer referred amount key currency metadata).and
    ((ends_credit_shown hw hrecorded hclock referrer referred amount key currency metadata).and
      (timely_credit _ _ _ _ _ _ _ w.clock w htimed))).mono ?_ ?_
  · rintro result w' ⟨⟨request, b', -, hw', hcomes⟩, hshown, ts, hts, -⟩
    refine ⟨hclock.after hts, b', hsteps.trans hcomes.steps, hw', fun hbits q hq => ?_⟩
    cases hcomes with
    | replayed => exact hreadable hbits q hq
    | @credited _ r e q' hc hkey hhash =>
      have hold : b₁.issued ≤ b'.issued := Nat.le_of_lt (Nat.lt_of_lt_of_le hc.fresh hc.le)
      obtain ⟨hreward, hentry⟩ :=
        hw'.portable_of_credited hc (hw'.issued ▸ hbits) hcontext (hshown rfl)
      rw [hc.eq] at hq
      rcases List.mem_append.1 hq with hq | hq
      · exact hreadable (Nat.lt_of_le_of_lt hold hbits) q hq
      · obtain ⟨answer, hread, -⟩ := CreditResult.exists_read (r := ⟨r, e, false⟩) hreward hentry
          hc.response
        refine ⟨answer, ?_⟩
        rw [List.mem_singleton.1 hq, answerOf, hread]
        rfl
  · rintro e w' ⟨⟨⟨n, hn, hw'⟩, -⟩, -, ts, hts, -⟩
    exact ⟨hclock.after hts, _, hsteps.tail (.issue hn), hw', hreadable.congr rfl hn⟩

end Rewards

/-! ## Calls -/

namespace Call

/-- A call that does not write to the recorded requests leaves them as they are. -/
theorem exists_requests_eq {call : Call} (h : call.Allowed p) (hname : requestsTable ∉ call.writes)
    (hw : w.Holds cfg none b) (hkept : w.WellKept (fun _ => True) none) :
    ∃ b', b.Steps cfg p b' ∧ ((call.perform cfg).perform w).2.Holds cfg none b' ∧
      b'.requests = b.requests := by
  obtain ⟨b', heffect, hw'⟩ := (acts h b w hw).perform_snd
  refine ⟨b', heffect.steps, hw', ?_⟩
  have halike : Option.Rel Table.Alike
      (((call.perform cfg).perform w).2.store.table? requestsTable)
      (w.store.table? requestsTable) := alike_of_passed h.ofServices hname hkept
  obtain ⟨t, ht, -, hrows⟩ := hw.held.requests
  obtain ⟨t', ht', -, hrows'⟩ := hw'.held.requests
  have ht : w.store.table? requestsTable = some t := ht
  have ht' : ((call.perform cfg).perform w).2.store.table? requestsTable = some t' := ht'
  rw [ht, ht'] at halike
  cases halike with
  | some ha =>
    refine (heffect.steps.requests_prefix.eq_of_length ?_).symm
    rw [← hrows.length_eq, ← hrows'.length_eq, ha.rows.length_eq]

/-- Carrying actions out records answers that can be read. -/
theorem keeps_dispatch_recalling (hb : b.Recorded)
    (hcontext : cfg.money.context.greatest ≤ Decimal.greatestExponent)
    (actions : List TriggeredAction) (context : DispatchContext) :
    (dispatch cfg actions context).Keeps (World.Recalling cfg p b) := fun w hw =>
  keeps_bind (Dispatch.keeps_run (fun _ _ _ => (reads_log _ _ _).keeps fun _ _ hbeside hw =>
      hw.beside hbeside) (fun _ _ _ _ => Rewards.keeps_credit_recalling hb hcontext _ _ _ _ _ _)
    w.handlers actions) (fun _ => keeps_bind (keeps_ofExcept _) fun _ => keeps_pure _) w hw

/-- A call leaves recorded requests whose answers can be read, if none are recorded by hand. -/
theorem exists_readable {call : Call} (h : call.Allowed p) (hp : ¬p.records)
    (hcontext : cfg.money.context.greatest ≤ Decimal.greatestExponent) (hw : w.Holds cfg none b)
    (hb : b.Recorded) (hkept : w.WellKept (fun _ => True) none) (hclock : w.clock.Sound)
    (hreadable : b.Readable) :
    ∃ b', b.Steps cfg p b' ∧ ((call.perform cfg).perform w).2.Holds cfg none b' ∧ b'.Readable := by
  have hrecalling : w.Recalling cfg p b := ⟨hclock, b, .refl, hw, hreadable⟩
  have hcredits : (call.perform cfg).Keeps (World.Recalling cfg p b) →
      ∃ b', b.Steps cfg p b' ∧ ((call.perform cfg).perform w).2.Holds cfg none b' ∧ b'.Readable :=
    fun hkeeps => (hkeeps w hrecalling).perform_snd.2
  by_cases hname : requestsTable ∈ call.writes
  · cases call with
    | creditReward referrer referred amount key currency metadata =>
      obtain ⟨k, rfl⟩ := h
      exact hcredits (keeps_bind (Rewards.keeps_credit_recalling hb hcontext _ _ _ _ _ _)
        fun _ => keeps_ofExcept _)
    | dispatchEvent event context =>
      refine hcredits (keeps_bind ?_ fun actions => keeps_dispatch_recalling hb hcontext _ _)
      exact (RuleEngine.reads_evaluate event).keeps fun _ _ hbeside hw => hw.beside hbeside
    | dispatchActions actions context =>
      exact hcredits (keeps_dispatch_recalling hb hcontext _ _)
    | recordRequest key hash response => exact absurd h.1 hp
    | _ => exact absurd hname (by simp [writes, rewardsTable, usersTable, entriesTable,
        requestsTable, rulesTable])
  · obtain ⟨b', hsteps, hw', hsame⟩ := exists_requests_eq h hname hw hkept
    exact ⟨b', hsteps, hw', hreadable.congr hsame hsteps.issued_le⟩

end Call

/-! ## Runs -/

namespace World

/-- The world holds the books, to which steps lead from empty ones; it is well kept, and the answers of
recorded requests can be read. -/
structure Recalls (cfg : Config) (p : Permission) (w : World) (b : Books) : Prop where
  /-- The world holds the books. -/
  holds : w.Holds cfg none b
  /-- Steps lead to them. -/
  steps : Books.Steps cfg p {} b
  /-- The world is well kept. -/
  wellKept : w.WellKept (fun _ => True) none
  /-- The answers can be read. -/
  readable : b.Readable

namespace Recalls

/-- Another clock does not matter. -/
theorem setClock (h : w.Recalls cfg p b) (clock : Clock) :
    ({ w with clock } : World).Recalls cfg p b :=
  ⟨h.holds.congr rfl rfl, h.steps, h.wellKept.setClock clock, h.readable⟩

/-- Every reward has a recorded request. -/
theorem recorded (h : w.Recalls cfg p b) : b.Recorded := Books.Recorded.empty.steps h.steps

/-- After a turn the answers can be read. -/
theorem after (h : w.Recalls cfg p b) (hp : ¬p.records)
    (hcontext : cfg.money.context.greatest ≤ Decimal.greatestExponent) {t : Turn}
    (ht : t.call.Allowed p) (hclock : t.clock.Sound) : ∃ b', (w.after cfg t).Recalls cfg p b' := by
  have hready := h.setClock t.clock
  obtain ⟨b', hsteps, hw', hreadable⟩ := Call.exists_readable ht hp hcontext hready.holds
    hready.recorded hready.wellKept hclock hready.readable
  exact ⟨b', hw', h.steps.trans hsteps,
    Call.wellKept_perform ht.ofServices Store.lasting_true hready.wellKept, hreadable⟩

/-- After any number of turns the answers can be read. -/
theorem run (h : w.Recalls cfg p b) (hp : ¬p.records)
    (hcontext : cfg.money.context.greatest ≤ Decimal.greatestExponent) {turns : List Turn}
    (hturns : ∀ t ∈ turns, t.call.Allowed p) (hclocks : ∀ t ∈ turns, t.clock.Sound) :
    ∃ b', (w.run cfg turns).Recalls cfg p b' := by
  induction turns generalizing w b with
  | nil => exact ⟨b, h⟩
  | cons t rest ih =>
    obtain ⟨b₁, h₁⟩ := h.after hp hcontext (hturns t List.mem_cons_self)
      (hclocks t List.mem_cons_self)
    exact ih h₁ (fun t' ht' => hturns t' (List.mem_cons_of_mem _ ht'))
      fun t' ht' => hclocks t' (List.mem_cons_of_mem _ ht')

end Recalls

end World

end RewardLedger
