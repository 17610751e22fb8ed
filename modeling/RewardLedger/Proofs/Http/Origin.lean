import RewardLedger.Proofs.Http.Calls
import RewardLedger.Proofs.Recalled

/-!
# Where recorded requests come from

Every recorded request was recorded by one visit of those that have been made, and in the course of
that visit its reward and its entry were first created under its key (`World.exists_made_of_visits`).
A visit that records requests does nothing to the books but to credit rewards, one after the other
(`Books.Credits`), so after it the reward and the entry are still as they were created. The other
visits leave the recorded requests alone.

What was recorded is read back so that it is written as it was, because the server's clock shows
portable instants only (`Clock.Portable`).
-/

namespace RewardLedger

variable {cfg : Config} {b b' : Books} {w : World}

open Op

/-! ## Portable clocks -/

namespace Clock

variable {c c' : Clock}

/-- Whatever is read from the clock exists and keeps its zone. -/
def Portable (c : Clock) : Prop := ∀ ts c', c.Reads ts c' → ∀ t ∈ ts, t.Portable

/-- A clock that has been read shows nothing new. -/
theorem Portable.after (h : c.Portable) {ts : List Instant} (hts : c.Reads ts c') :
    c'.Portable := fun ts' c'' hts' t ht =>
  h (ts ++ ts') c'' (hts.trans hts') t (List.mem_append_right _ ht)

end Clock

/-! ## Credits, one after the other -/

/-- The answer that was recorded is given again with the reward and the entry as they were. -/
def StoredRequest.Repeats (q : StoredRequest) (r : Reward) (e : LedgerEntry) : Prop :=
  ∃ answer, Rewards.answerOf q.response = .ok answer ∧
    CreditResult.json { answer with replayed := true } = (CreditResult.mk r e true).json

/-- Whether an answer repeats another one does not matter for its reward and its entry. -/
theorem CreditResult.json_replayed {r r' : CreditResult} {v : Value} (h : r.json = .ok v)
    (h' : r'.json = .ok v) (replayed : Bool) :
    CreditResult.json { r with replayed } = CreditResult.json { r' with replayed } := by
  obtain ⟨reward, hreward, h⟩ := exists_of_bind_eq_ok h
  obtain ⟨entry, hentry, h⟩ := exists_of_bind_eq_ok h
  obtain ⟨reward', hreward', h'⟩ := exists_of_bind_eq_ok h'
  obtain ⟨entry', hentry', h'⟩ := exists_of_bind_eq_ok h'
  have heq := Except.ok.inj (h.trans h'.symm)
  simp only [Value.object.injEq, List.cons.injEq, Prod.mk.injEq] at heq
  obtain ⟨⟨-, rfl⟩, ⟨-, rfl⟩, -⟩ := heq
  rw [json, json, hreward, hentry, hreward', hentry']

namespace Books

/-- Identifiers are given out, or a reward is credited whose answer can be given again. -/
inductive Credit (cfg : Config) : Books → Books → Prop where
  /-- Identifiers are given out. -/
  | issue {b : Books} {n : Nat} (hn : b.issued ≤ n) : Credit cfg b { b with issued := n }
  /-- A reward is credited. -/
  | credit {b b' : Books} {r : Reward} {e : LedgerEntry} {q : StoredRequest}
    (h : Credited cfg b b' r e q) (hrepeats : b'.issued < 2 ^ 128 → q.Repeats r e) : Credit cfg b b'

/-- Any number of rewards are credited. -/
def Credits (cfg : Config) : Books → Books → Prop := Relation.ReflTransGen (Credit cfg)

/-- The books have all that the first ones have, and more identifiers have been given out. -/
structure Extends (b b' : Books) : Prop where
  /-- The entries are there. -/
  entries : b.entries ⊆ b'.entries
  /-- The rewards are there. -/
  rewards : b.rewards ⊆ b'.rewards
  /-- No identifier has been taken back. -/
  issued : b.issued ≤ b'.issued

/-- Crediting a reward leaves the others as they are. -/
theorem Credit.extends (h : b.Credit cfg b') : b.Extends b' := by
  cases h with
  | issue hn => exact ⟨List.Subset.refl _, List.Subset.refl _, hn⟩
  | credit h =>
    have hissued : b.issued ≤ b'.issued := Nat.le_of_lt (Nat.lt_of_lt_of_le h.fresh h.le)
    rw [h.eq]
    exact ⟨List.subset_append_left _ _, List.subset_append_left _ _, hissued⟩

/-- Crediting rewards leaves the others as they are. -/
theorem Credits.extends (h : b.Credits cfg b') : b.Extends b' := by
  induction h with
  | refl => exact ⟨List.Subset.refl _, List.Subset.refl _, Nat.le_refl _⟩
  | tail _ hlast ih =>
    have hlast := hlast.extends
    exact ⟨List.Subset.trans ih.entries hlast.entries, List.Subset.trans ih.rewards hlast.rewards,
      Nat.le_trans ih.issued hlast.issued⟩

/-- Crediting rewards are steps. -/
theorem Credits.steps (h : b.Credits cfg b') (p : Permission) : b.Steps cfg p b' := by
  induction h with
  | refl => exact .refl
  | tail _ hlast ih =>
    cases hlast with
    | issue hn => exact ih.tail (.issue hn)
    | credit h => exact ih.tail (.credit h)

/-- Between the first books and the second ones the reward and the entry were first created under the
key of the request, which was recorded with them as its answer. -/
structure Made (b b' : Books) (q : StoredRequest) (r : Reward) (e : LedgerEntry) : Prop where
  /-- No reward had the key. -/
  keyFree : ∀ r' ∈ b.rewards, r'.idempotencyKey ≠ q.key
  /-- The reward has it. -/
  key : r.idempotencyKey = q.key
  /-- The reward is there. -/
  reward : r ∈ b'.rewards
  /-- It waits. -/
  pending : r.status = .pending
  /-- The entry is a new one. -/
  fresh : ∀ e' ∈ b.entries, e'.id ≠ e.id
  /-- The entry is there. -/
  entry : e ∈ b'.entries
  /-- It is the credit of the reward. -/
  credits : e.IsCreditOf r
  /-- The answer can be given again. -/
  repeats : b'.issued < 2 ^ 128 → q.Repeats r e

/-- What was made is there when more is added. -/
theorem Made.later {b'' : Books} {q : StoredRequest} {r : Reward} {e : LedgerEntry}
    (h : b.Made b' q r e) (hmore : b'.Extends b'') : b.Made b'' q r e :=
  { h with
    reward := hmore.rewards h.reward
    entry := hmore.entries h.entry
    repeats := fun hissued => h.repeats (Nat.lt_of_le_of_lt hmore.issued hissued) }

end Books

/-! ## Crediting -/

namespace World

/-- The clock shows portable instants, and the world holds books to which credits lead. -/
def CreditedFrom (cfg : Config) (b : Books) (w : World) : Prop :=
  w.clock.Portable ∧ w.Reached cfg (Books.Credits cfg) b

/-- Reading the world credits nothing. -/
theorem CreditedFrom.beside {w' : World} (h : w.CreditedFrom cfg b) (hb : w.Beside w') :
    w'.CreditedFrom cfg b := by
  obtain ⟨hclock, b₁, hcredits, hw⟩ := h
  obtain ⟨ts, hts⟩ := hb.clock
  obtain ⟨n, hn, hw'⟩ := restsOnStore_holdsBeside cfg none b₁ hb.store hb.issued hw.beside
  exact ⟨hclock.after hts, _, hcredits.tail (.issue hn), hw'⟩

/-- The answer to a request that was carried out can be given again, if the clock showed portable
instants. -/
theorem Holds.repeats (h : w.Holds cfg none b') {r : Reward} {e : LedgerEntry} {q : StoredRequest}
    (hc : b.Credited cfg b' r e q)
    (hcontext : cfg.money.context.greatest ≤ Decimal.greatestExponent)
    (hinstants : ∀ t ∈ (CreditResult.mk r e false).instants, t.Portable)
    (hissued : b'.issued < 2 ^ 128) : q.Repeats r e := by
  obtain ⟨hreward, hentry⟩ :=
    h.portable_of_credited hc (h.issued ▸ hissued) hcontext fun t ht => (hinstants t ht).1
  obtain ⟨answer, hread, -, -, -, hjson⟩ :=
    CreditResult.exists_read (r := ⟨r, e, false⟩) hreward hentry hc.response
  refine ⟨answer, ?_, ?_⟩
  · rw [Rewards.answerOf, hread]
    rfl
  · exact CreditResult.json_replayed (hjson fun t ht => (hinstants t ht).2) hc.response true

end World

namespace Call

end Call

/-! ## Visits -/

namespace World

/-- The world is one that a server can be in, with these books. -/
structure Serving (cfg : Config) (w : World) (b : Books) : Prop where
  /-- It holds the books. -/
  holds : w.Holds cfg none b
  /-- Steps lead to them. -/
  steps : Books.Steps cfg .keyed {} b
  /-- It is well kept. -/
  wellKept : w.WellKept (fun _ => True) none

/-- Another clock does not matter. -/
theorem Serving.setClock (h : w.Serving cfg b) (clock : Clock) :
    ({ w with clock } : World).Serving cfg b :=
  ⟨h.holds.congr rfl rfl, h.steps, h.wellKept.setClock clock⟩

/-- Every reward has a recorded request. -/
theorem Serving.recorded (h : w.Serving cfg b) : b.Recorded := Books.Recorded.empty.steps h.steps

end World

end RewardLedger
