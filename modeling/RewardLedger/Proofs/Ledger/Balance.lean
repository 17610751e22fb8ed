import Mathlib.Algebra.BigOperators.Group.List.Basic
import RewardLedger.Ledger.Balance
import RewardLedger.Proofs.Money
import RewardLedger.Proofs.Sorting

/-!
# The value of a balance

Folding entries whose amounts are settled into a balance adds up what each of them does to it,
exactly (`Balance.toRat_of_fold`). So the order of the entries does not matter where there is a
balance in both orders, not even for the sign of a balance of zero (`Balance.eq_of_fold_perm`).
-/

namespace RewardLedger

/-- What an entry adds to the balance. -/
def Posting.effect (p : Posting) : ℚ :=
  match p.status, p.entryType with
  | .posted, .credit => p.amount.toRat
  | .posted, .debit => -p.amount.toRat
  | _, _ => 0

namespace Balance

variable {m : Money} {start balance : Decimal}

/-- One more entry adds what it does to the balance. -/
theorem toRat_of_step {p : Posting} (hs : m.OnScale start) (hp : m.Settled p.amount)
    (h : step m start p = .ok balance) :
    m.OnScale balance ∧ balance.toRat = start.toRat + p.effect := by
  obtain ⟨entryType, status, amount⟩ := p
  cases status with
  | void =>
    rw [step_void] at h
    cases h
    exact ⟨hs, (add_zero _).symm⟩
  | posted =>
    cases entryType with
    | credit => exact Money.toRat_of_add hs hp h
    | debit =>
      obtain ⟨hscale, hvalue⟩ := Money.toRat_of_subtract hs hp h
      exact ⟨hscale, hvalue.trans (sub_eq_add_neg _ _)⟩
    | reversal =>
      cases h
      exact ⟨hs, (add_zero _).symm⟩

/-- Several more entries add what they do to the balance. -/
theorem toRat_of_fold {postings : List Posting} (hs : m.OnScale start)
    (hp : ∀ p ∈ postings, m.Settled p.amount) (h : fold m start postings = .ok balance) :
    m.OnScale balance ∧ balance.toRat = start.toRat + (postings.map Posting.effect).sum := by
  induction postings generalizing start with
  | nil =>
    cases h
    exact ⟨hs, (add_zero _).symm⟩
  | cons p rest ih =>
    rw [fold, List.foldlM_cons] at h
    obtain ⟨next, hnext, hrest⟩ := exists_of_bind_eq_ok h
    obtain ⟨hscale, hvalue⟩ := toRat_of_step hs (hp p List.mem_cons_self) hnext
    obtain ⟨hscale', hvalue'⟩ := ih hscale (fun q hq => hp q (List.mem_cons_of_mem _ hq)) hrest
    refine ⟨hscale', ?_⟩
    rw [hvalue', hvalue, List.map_cons, List.sum_cons, add_assoc]

/-! ## The order of entries -/

/-- An entry that does nothing to the value of the balance does nothing at all. -/
theorem step_of_effect_eq_zero {p : Posting} (hp : m.Settled p.amount) (h : p.effect = 0) :
    step m start p = .ok start := by
  obtain ⟨entryType, status, amount⟩ := p
  have hne : amount.toRat ≠ 0 := hp.toRat_pos.ne'
  cases status with
  | void => exact step_void ..
  | posted =>
    cases entryType with
    | credit => exact absurd h hne
    | debit => exact absurd (neg_eq_zero.1 h) hne
    | reversal => rfl

/-- If an entry takes the balance to zero, the zero has the sign in which numbers are rounded. -/
theorem negative_of_step {p : Posting} {negative : Bool} {t : Int} (hs : m.OnScale start)
    (hp : m.Settled p.amount) (hne : p.effect ≠ 0)
    (h : step m start p = .ok (.finite negative 0 t)) :
    negative = (m.context.rounding == .floor) := by
  obtain ⟨entryType, status, amount⟩ := p
  have hamount : amount.toRat ≠ 0 := hp.toRat_pos.ne'
  cases status with
  | void => cases entryType <;> exact absurd rfl hne
  | posted =>
    cases entryType with
    | credit => exact Money.negative_of_settle hp.precision_pos hs hp.onScale hamount h
    | debit =>
      obtain ⟨hnegate, heq⟩ := Money.subtract_eq_settle hs hp.onScale
      refine Money.negative_of_settle hp.precision_pos hs hnegate ?_ (heq.symm.trans h)
      rw [Decimal.toRat_negate]
      exact neg_ne_zero.2 hamount
    | reversal => exact absurd rfl hne

/-- A balance of zero is the one at the start if no entry does anything to it, and otherwise it has
the sign in which numbers are rounded. -/
theorem zero_of_fold {postings : List Posting} {negative : Bool} {t : Int} (hs : m.OnScale start)
    (hp : ∀ p ∈ postings, m.Settled p.amount)
    (h : fold m start postings = .ok (.finite negative 0 t)) :
    (∀ p ∈ postings, p.effect = 0) ∧ start = .finite negative 0 t ∨
      (∃ p ∈ postings, p.effect ≠ 0) ∧ negative = (m.context.rounding == .floor) := by
  induction postings generalizing start with
  | nil =>
    cases h
    exact .inl ⟨fun _ hp => absurd hp List.not_mem_nil, rfl⟩
  | cons p rest ih =>
    rw [fold, List.foldlM_cons] at h
    obtain ⟨next, hnext, hrest⟩ := exists_of_bind_eq_ok h
    have hsettled := hp p List.mem_cons_self
    have hscale := (toRat_of_step hs hsettled hnext).1
    rcases ih hscale (fun q hq => hp q (List.mem_cons_of_mem _ hq)) hrest with
      ⟨hnone, rfl⟩ | ⟨⟨q, hq, hne⟩, hsign⟩
    · by_cases heffect : p.effect = 0
      · rw [step_of_effect_eq_zero hsettled heffect] at hnext
        exact .inl ⟨List.forall_mem_cons.2 ⟨heffect, hnone⟩, Except.ok.inj hnext⟩
      · exact .inr ⟨⟨p, List.mem_cons_self, heffect⟩, negative_of_step hs hsettled heffect hnext⟩
    · exact .inr ⟨⟨q, List.mem_cons_of_mem _ hq, hne⟩, hsign⟩

/-- The balance does not depend on the order of the entries where there is one in both orders. -/
theorem eq_of_fold_perm {postings postings' : List Posting} {balance' : Decimal} (hs : m.OnScale start)
    (hp : ∀ p ∈ postings, m.Settled p.amount) (hperm : postings.Perm postings')
    (h : fold m start postings = .ok balance) (h' : fold m start postings' = .ok balance') :
    balance = balance' := by
  have hp' : ∀ p ∈ postings', m.Settled p.amount := fun p hmem => hp p (hperm.symm.subset hmem)
  obtain ⟨hscale, hvalue⟩ := toRat_of_fold hs hp h
  obtain ⟨hscale', hvalue'⟩ := toRat_of_fold hs hp' h'
  have hsame : balance.toRat = balance'.toRat := by
    rw [hvalue, hvalue', (hperm.map Posting.effect).sum_eq]
  rcases hscale.eq_or_zero hscale' hsame with heq | ⟨negative, negative', t, rfl, rfl⟩
  · exact heq
  -- two zeros have the same sign: either no entry counts, or the last one that does decides
  rcases zero_of_fold hs hp h with ⟨hnone, rfl⟩ | ⟨⟨p, hmem, hne⟩, hsign⟩
  · rcases zero_of_fold hs hp' h' with ⟨-, heq⟩ | ⟨⟨q, hmem, hne⟩, -⟩
    · exact heq
    · exact absurd (hnone q (hperm.symm.subset hmem)) hne
  · rcases zero_of_fold hs hp' h' with ⟨hnone, -⟩ | ⟨-, hsign'⟩
    · exact absurd (hnone p (hperm.subset hmem)) hne
    · rw [hsign, hsign']

end Balance

end RewardLedger
