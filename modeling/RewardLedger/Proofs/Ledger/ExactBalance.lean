import Mathlib.Algebra.BigOperators.Group.List.Basic
import Mathlib.Data.List.Dedup
import RewardLedger.Proofs.Ledger.Balance
import RewardLedger.Proofs.Number.Multiples

/-!
# The balance is the exact sum

A balance of amounts on a scale is never rounded. It is the sum of the posted credits less the sum
of the posted debits as long as each sum on the way has digits enough, and is refused as an amount
out of range from the first one on that has not (`Balance.fold_exact`). So neither the order of the
entries matters nor whether each currency is summed up by itself.
-/

namespace RewardLedger

/-- The number is written on the exponent `t`, and has no sign if it is zero. -/
def Decimal.IsPlainOn (t : Int) (d : Decimal) : Prop :=
  ∃ negative n, d = .finite negative n t ∧ (n = 0 → negative = false)

/-- Numbers of one value that are written on one exponent are the same. -/
theorem Decimal.IsPlainOn.eq {t : Int} {d d' : Decimal} (h : d.IsPlainOn t) (h' : d'.IsPlainOn t)
    (hvalue : d.toRat = d'.toRat) : d = d' := by
  obtain ⟨negative, n, rfl, hsign⟩ := h
  obtain ⟨negative', n', rfl, hsign'⟩ := h'
  have hten : (10 : ℚ) ^ t ≠ 0 := zpow_ne_zero t (by norm_num)
  have hsigned : DecimalContext.signed negative n = DecimalContext.signed negative' n' := by
    exact_mod_cast mul_right_cancel₀ hten hvalue
  cases negative <;> cases negative' <;>
    simp only [DecimalContext.signed, if_true, Bool.false_eq_true, if_false] at hsigned <;>
    simp_all

/-- A finite number is taken away by adding it with its sign turned round. -/
theorem DecimalContext.subtract_eq_add (ctx : DecimalContext) {a b : Decimal}
    (ha : a.isFinite = true) (hb : b.isFinite = true) : ctx.subtract a b = ctx.add a b.negate := by
  cases a with
  | infinite _ | nan _ _ _ => cases ha
  | finite _ _ _ =>
    cases b with
    | infinite _ | nan _ _ _ => cases hb
    | finite _ _ _ => rfl

namespace Money

variable {m : Money} {a b : Decimal} {t : Int}

/-- The smallest amount is `10 ^ t`, and sums of two amounts stay below the greatest exponent. -/
structure IsRoomy (m : Money) (t : Int) : Prop where
  quantum : m.quantum = .ok (.finite false 1 t)
  precision_pos : 0 < m.context.precision
  least : m.context.least ≤ t
  greatest : m.context.precision + t ≤ m.context.greatest

/-- The rules for amounts with few places and no more digits than the greatest exponent are roomy. -/
theorem isRoomy_of_make {s p : Nat} (hs : s ≤ 8) (hp : p ≤ 999999) {rounding : Rounding}
    (hm : make (some s) p rounding = .ok m) :
    m.IsRoomy (-s) ∧ m.context.precision = p ∧ m.context.rounding = rounding := by
  unfold make at hm
  split at hm
  · rename_i hrange
    cases hm
    have hpower : ∀ s ≤ 8, DecimalContext.standard.powerOfTen (-((s : Nat) : Int)) =
        .ok (.finite false 1 (-(s : Int))) := by decide
    refine ⟨⟨congrArg (Except.mapError Failure.arithmetic) (hpower s hs), ?_, ?_, ?_⟩, rfl, rfl⟩
    all_goals
      dsimp only
      omega
  · split at hm <;> cases hm

/-- The exponents allow for the smallest amount. -/
theorem IsRoomy.tiny_le (hm : m.IsRoomy t) : m.context.tiny ≤ t := by
  have := hm.precision_pos
  have := hm.least
  rw [DecimalContext.tiny]
  omega

/-- Zero is an amount. -/
theorem IsRoomy.zero (hm : m.IsRoomy t) : ∃ zero, m.zero = .ok zero ∧
    zero.IsMultiple m.context.precision t ∧ zero.toRat = 0 := by
  have hnone : (Decimal.finite false 0 0).toRat = ((0 : Int) : ℚ) * (10 : ℚ) ^ t := by
    rw [Decimal.toRat_eq_zero_iff.2 rfl, Int.cast_zero, zero_mul]
  have hgreatest := hm.greatest
  have hquantize := DecimalContext.quantizeFinite_of_lt hnone hm.precision_pos (tenTo_pos _)
    hm.tiny_le (by omega)
  have hvalue := Decimal.toRat_natAbs hnone
  exact ⟨_, quantize_eq_ok.2 ⟨_, hm.quantum, hquantize⟩, ⟨rfl, 0, hvalue, tenTo_pos _⟩,
    hvalue.trans (by rw [Int.cast_zero, zero_mul])⟩

/-- A multiple of `10 ^ t` has digits enough exactly if it is small enough. -/
theorem lt_iff_of_eq_mul {p : Nat} {k : Int} {v : ℚ} (hv : v = k * (10 : ℚ) ^ t) :
    |v| < (10 : ℚ) ^ ((p : Int) + t) ↔ k.natAbs < tenTo p := by
  have hten : (0 : ℚ) < (10 : ℚ) ^ t := zpow_pos (by norm_num) t
  rw [hv, abs_mul, abs_of_pos hten, zpow_add₀ (by norm_num), zpow_natCast,
    mul_lt_mul_iff_left₀ hten, ← Int.cast_abs, ← Int.natCast_natAbs, Int.cast_natCast]
  exact_mod_cast Iff.rfl

/-- A multiple of `10 ^ t` by a number with digits enough is small enough. -/
theorem abs_lt_of_isMultiple {p : Nat} (h : a.IsMultiple p t) :
    |a.toRat| < (10 : ℚ) ^ ((p : Int) + t) := by
  obtain ⟨-, k, hvalue, hdigits⟩ := h
  exact (lt_iff_of_eq_mul hvalue).2 hdigits

/-- The sum of two amounts is fitted as what it is, a multiple by less than twice as much. -/
theorem exists_fit_of_isMultiple (ha : a.IsMultiple m.context.precision t)
    (hb : b.IsMultiple m.context.precision t) :
    ∃ negative n e k, m.context.add a b = m.context.fit negative n e ∧
      (Decimal.finite negative n e).toRat = a.toRat + b.toRat ∧
      a.toRat + b.toRat = ((k : Int) : ℚ) * (10 : ℚ) ^ t ∧
      k.natAbs < 2 * tenTo m.context.precision ∧
      (n = 0 → b.toRat ≠ 0 → negative = (m.context.rounding == .floor)) := by
  cases a with
  | infinite _ | nan _ _ _ => cases ha.1
  | finite negA ca ea =>
  cases b with
  | infinite _ | nan _ _ _ => cases hb.1
  | finite negB cb eb =>
  obtain ⟨negative, n, e, hadd, hvalue, hsign⟩ :=
    DecimalContext.exists_add_eq_fit_of_isMultiple ha hb
  obtain ⟨-, k, hk, hkdigits⟩ := ha
  obtain ⟨-, l, hl, hldigits⟩ := hb
  refine ⟨negative, n, e, k + l, hadd, hvalue, ?_, by omega, fun hn hsome => ?_⟩
  · rw [hk, hl, Int.cast_add, add_mul]
  · rw [hsign hn]
    exact DecimalContext.signOfZero_eq hsome (hvalue.symm.trans (Decimal.toRat_eq_zero_iff.2 hn))

/-- A sum of two amounts that has digits enough is the exact one. -/
theorem settle_of_lt (hm : m.IsRoomy t) (hr : m.context.rounding ≠ .floor)
    (ha : a.IsMultiple m.context.precision t) (hb : b.IsMultiple m.context.precision t)
    (hsome : b.toRat ≠ 0)
    (h : |a.toRat + b.toRat| < (10 : ℚ) ^ ((m.context.precision : Int) + t)) :
    ∃ s, m.settle (m.context.add a b) = .ok s ∧ s.IsMultiple m.context.precision t ∧
      s.IsPlainOn t ∧ s.toRat = a.toRat + b.toRat := by
  obtain ⟨negative, n, e, k, hadd, hvalue, hk, -, hsign⟩ := exists_fit_of_isMultiple ha hb
  rw [hk] at hvalue
  have hdigits := (lt_iff_of_eq_mul hk).1 h
  have hgreatest := hm.greatest
  obtain ⟨c, e', hfit, hvalue'⟩ := DecimalContext.fit_of_lt hvalue hdigits hm.least (by omega)
  rw [hvalue] at hvalue'
  have hquantize := DecimalContext.quantizeFinite_of_lt hvalue' hm.precision_pos hdigits
    hm.tiny_le (by omega)
  have hself : (Decimal.finite negative k.natAbs t).toRat = k * (10 : ℚ) ^ t :=
    Decimal.toRat_natAbs hvalue'
  refine ⟨.finite negative k.natAbs t, ?_, ⟨rfl, k, hself, hdigits⟩,
    ⟨negative, k.natAbs, rfl, ?_⟩, hself.trans hk.symm⟩
  · rw [hadd, hfit]
    exact quantize_eq_ok.2 ⟨_, hm.quantum, hquantize⟩
  · intro hzero
    have hn : n = 0 := by
      rw [Int.natAbs_eq_zero.1 hzero, Int.cast_zero, zero_mul] at hvalue
      exact Decimal.toRat_eq_zero_iff.1 hvalue
    rw [hsign hn hsome]
    simpa using hr

/-- A sum of two amounts that has too many digits is out of range. -/
theorem settle_of_le (hm : m.IsRoomy t) (ha : a.IsMultiple m.context.precision t)
    (hb : b.IsMultiple m.context.precision t)
    (h : ¬|a.toRat + b.toRat| < (10 : ℚ) ^ ((m.context.precision : Int) + t)) :
    ∃ d, m.settle (m.context.add a b) = .error (.fault (.amountRange d)) := by
  obtain ⟨negative, n, e, k, hadd, hvalue, hk, hlt, -⟩ := exists_fit_of_isMultiple ha hb
  rw [hk] at hvalue
  have hdigits := mt (lt_iff_of_eq_mul hk).2 h
  have hleast := hm.least
  have hp := hm.precision_pos
  obtain ⟨c, e', hfit, hc, hleading⟩ := DecimalContext.fit_of_le hvalue hp (Nat.not_lt.1 hdigits)
    hlt (by omega) hm.greatest
  have hquantize : m.context.quantize (.finite negative c e') (.finite false 1 t) =
      .error .invalidOperation := DecimalContext.quantizeFinite_of_le hc hleading.ge
  refine ⟨.finite negative c e', ?_⟩
  rw [hadd, hfit, settle, quantize, hm.quantum]
  simp only [bind, Except.bind, hquantize, Except.mapError]

end Money

namespace Posting

/-- The entry changes the balance. -/
def Counts (p : Posting) : Prop := p.status = .posted ∧ p.entryType ≠ .reversal

/-- The sum of the amounts of the posted entries that do the same to the balance. -/
def total (entryType : EntryType) (postings : List Posting) : ℚ :=
  ((postings.filter fun p => p.status = .posted ∧ p.entryType = entryType).map
    fun p => p.amount.toRat).sum

/-- What several entries do to the balance is what the credits add and the debits take. -/
theorem sum_effect (postings : List Posting) : (postings.map effect).sum =
    total .credit postings - total .debit postings := by
  induction postings with
  | nil => simp [total]
  | cons p rest ih =>
    obtain ⟨entryType, status, amount⟩ := p
    rw [List.map_cons, List.sum_cons, ih]
    cases status <;> cases entryType <;> simp [total, effect] <;> ring

end Posting

/-- What entries add up to is what those of each currency add up to. -/
theorem LedgerEntry.sum_by_currency (f : LedgerEntry → ℚ) {currencies : List String}
    (hnodup : currencies.Nodup) {entries : List LedgerEntry}
    (hcover : ∀ e ∈ entries, e.currency ∈ currencies) :
    (currencies.map fun c => ((entries.filter fun e => e.currency = c).map f).sum).sum =
      (entries.map f).sum := by
  induction entries with
  | nil => simp
  | cons e rest ih =>
    rw [List.forall_mem_cons] at hcover
    have hsplit : ∀ c, (((e :: rest).filter fun e => e.currency = c).map f).sum =
        (if c = e.currency then f e else 0) +
          ((rest.filter fun e => e.currency = c).map f).sum := by
      intro c
      rw [List.filter_cons]
      by_cases hc : e.currency = c
      · rw [if_pos (decide_eq_true hc), if_pos hc.symm, List.map_cons, List.sum_cons]
      · rw [if_neg (by simpa using hc), if_neg (Ne.symm hc), zero_add]
    have hone := List.sum_map_ite_eq currencies (fun _ => f e) (fun _ => (0 : ℚ)) e.currency
    rw [List.count_eq_one_of_mem hnodup hcover.1, List.sum_map_zero] at hone
    simp only [hsplit, List.sum_map_add]
    rw [ih hcover.2, hone, List.map_cons, List.sum_cons]
    simp

namespace Balance

variable {m : Money} {start balance : Decimal} {t : Int}

/-- The amount is greater than zero and has digits enough as a multiple of `10 ^ t`. -/
def IsAmount (digits : Nat) (t : Int) (d : Decimal) : Prop := d.IsMultiple digits t ∧ 0 < d.toRat

/-- Every sum on the way has digits enough as a multiple of `10 ^ t`: the start and what the posted
credits and debits of each first part of the history make of it. -/
def HasDigits (digits : Nat) (t : Int) (start : ℚ) (postings : List Posting) : Prop :=
  ∀ before, before <+: postings →
    |start + (Posting.total .credit before - Posting.total .debit before)| <
      (10 : ℚ) ^ ((digits : Int) + t)

/-- Without entries there is the start only. -/
theorem hasDigits_nil {digits : Nat} {v : ℚ} :
    HasDigits digits t v [] ↔ |v| < (10 : ℚ) ^ ((digits : Int) + t) := by
  simp [HasDigits, List.prefix_nil, Posting.total]

/-- The sums on the way are the start and those from the first entry on. -/
theorem hasDigits_cons {digits : Nat} {v : ℚ} {p : Posting} {rest : List Posting} :
    HasDigits digits t v (p :: rest) ↔
      |v| < (10 : ℚ) ^ ((digits : Int) + t) ∧ HasDigits digits t (v + p.effect) rest := by
  simp only [HasDigits, ← Posting.sum_effect]
  constructor
  · intro h
    refine ⟨?_, fun before hbefore => ?_⟩
    · simpa using h [] (List.nil_prefix)
    · have := h (p :: before) (List.cons_prefix_cons.2 ⟨rfl, hbefore⟩)
      rwa [List.map_cons, List.sum_cons, ← add_assoc] at this
  · rintro ⟨hstart, hrest⟩ before hbefore
    cases before with
    | nil => simpa using hstart
    | cons q before =>
      obtain ⟨rfl, hbefore'⟩ := List.cons_prefix_cons.1 hbefore
      rw [List.map_cons, List.sum_cons, ← add_assoc]
      exact hrest before hbefore'

/-- An entry that counts adds its signed amount, and any other leaves the balance alone. -/
theorem step_cases (m : Money) (hstart : start.isFinite = true) {p : Posting} {digits : Nat}
    (hp : IsAmount digits t p.amount) :
    (p.Counts ∧ ∃ change, change.IsMultiple digits t ∧ change.toRat = p.effect ∧ p.effect ≠ 0 ∧
      step m start p = m.settle (m.context.add start change)) ∨
    (¬p.Counts ∧ p.effect = 0 ∧ step m start p = .ok start) := by
  obtain ⟨entryType, status, amount⟩ := p
  obtain ⟨hamount, hpos⟩ := hp
  cases status with
  | void =>
    refine .inr ⟨?_, rfl, step_void m start amount entryType⟩
    rintro ⟨hposted, -⟩
    cases hposted
  | posted =>
    cases entryType with
    | credit => exact .inl ⟨⟨rfl, nofun⟩, amount, hamount, rfl, hpos.ne', rfl⟩
    | debit =>
      have hsubtract := m.context.subtract_eq_add hstart hamount.1
      refine .inl ⟨⟨rfl, nofun⟩, amount.negate, hamount.negate, Decimal.toRat_negate amount, ?_, ?_⟩
      · exact neg_ne_zero.2 hpos.ne'
      · exact congrArg m.settle hsubtract
    | reversal => exact .inr ⟨fun h => h.2 rfl, rfl, rfl⟩

/-- If every sum on the way has digits enough, the balance is the exact sum. It is written on the
exponent of the smallest amount, unless no entry counts. -/
theorem fold_of_hasDigits (hm : m.IsRoomy t) (hr : m.context.rounding ≠ .floor)
    {postings : List Posting} (hstart : start.IsMultiple m.context.precision t)
    (hpostings : ∀ p ∈ postings, IsAmount m.context.precision t p.amount)
    (h : HasDigits m.context.precision t start.toRat postings) :
    ∃ balance, fold m start postings = .ok balance ∧
      balance.toRat = start.toRat + (postings.map Posting.effect).sum ∧
      ((∃ p ∈ postings, p.Counts) ∧ balance.IsPlainOn t ∨
        (∀ p ∈ postings, ¬p.Counts) ∧ balance = start) := by
  induction postings generalizing start with
  | nil =>
    exact ⟨start, rfl, (add_zero _).symm, .inr ⟨fun _ hp => absurd hp List.not_mem_nil, rfl⟩⟩
  | cons p rest ih =>
    rw [List.forall_mem_cons] at hpostings
    obtain ⟨-, hrest⟩ := hasDigits_cons.1 h
    have hnext : |start.toRat + p.effect| < (10 : ℚ) ^ ((m.context.precision : Int) + t) := by
      simpa [Posting.total] using hrest [] List.nil_prefix
    rw [fold, List.foldlM_cons, List.map_cons, List.sum_cons, ← add_assoc]
    -- an entry that counts has room for its sum; one that does not leaves the sum as it is
    rcases step_cases m hstart.1 hpostings.1 with
      ⟨hcounts, change, hchange, hvalue, hsome, hstep⟩ | ⟨hcounts, hvalue, hstep⟩
    · rw [← hvalue] at hnext hsome hrest ⊢
      obtain ⟨next, hsettle, hmultiple, hplain, hsum⟩ :=
        Money.settle_of_lt hm hr hstart hchange hsome hnext
      rw [← hsum] at hrest ⊢
      obtain ⟨balance, hfold, htotal, hform⟩ := ih hmultiple hpostings.2 hrest
      refine ⟨balance, ?_, htotal, .inl ⟨⟨p, List.mem_cons_self, hcounts⟩, ?_⟩⟩
      · rw [hstep, hsettle]
        exact hfold
      · rcases hform with ⟨-, hform⟩ | ⟨-, rfl⟩
        · exact hform
        · exact hplain
    · rw [hvalue, add_zero] at hrest ⊢
      obtain ⟨balance, hfold, htotal, hform⟩ := ih hstart hpostings.2 hrest
      refine ⟨balance, ?_, htotal, hform.imp ?_ ?_⟩
      · rw [hstep]
        exact hfold
      · exact And.imp_left (Exists.imp fun _ => And.imp_left (List.mem_cons_of_mem _))
      · exact And.imp_left fun hnone => List.forall_mem_cons.2 ⟨hcounts, hnone⟩

/-- If some sum on the way has too many digits, the balance is out of range. -/
theorem fold_of_not_hasDigits (hm : m.IsRoomy t) (hr : m.context.rounding ≠ .floor)
    {postings : List Posting} (hstart : start.IsMultiple m.context.precision t)
    (hpostings : ∀ p ∈ postings, IsAmount m.context.precision t p.amount)
    (h : ¬HasDigits m.context.precision t start.toRat postings) :
    ∃ d, fold m start postings = .error (.fault (.amountRange d)) := by
  induction postings generalizing start with
  | nil => exact absurd (hasDigits_nil.2 (Money.abs_lt_of_isMultiple hstart)) h
  | cons p rest ih =>
    rw [List.forall_mem_cons] at hpostings
    have hrest : ¬HasDigits m.context.precision t (start.toRat + p.effect) rest := fun hrest =>
      h (hasDigits_cons.2 ⟨Money.abs_lt_of_isMultiple hstart, hrest⟩)
    rw [fold, List.foldlM_cons]
    rcases step_cases m hstart.1 hpostings.1 with
      ⟨-, change, hchange, hvalue, hsome, hstep⟩ | ⟨-, hvalue, hstep⟩
    · rw [hstep]
      rw [← hvalue] at hsome hrest
      by_cases hnext : |start.toRat + change.toRat| < (10 : ℚ) ^ ((m.context.precision : Int) + t)
      · obtain ⟨next, hsettle, hmultiple, -, hsum⟩ :=
          Money.settle_of_lt hm hr hstart hchange hsome hnext
        rw [hsettle]
        exact ih hmultiple hpostings.2 (hsum ▸ hrest)
      · obtain ⟨d, hsettle⟩ := Money.settle_of_le hm hstart hchange hnext
        exact ⟨d, by rw [hsettle]; rfl⟩
    · rw [hstep]
      rw [hvalue, add_zero] at hrest
      exact ih hstart hpostings.2 hrest

/-- A balance that there is at all is the exact sum. -/
theorem exact_of_fold (hm : m.IsRoomy t) (hr : m.context.rounding ≠ .floor)
    {postings : List Posting} (hstart : start.IsMultiple m.context.precision t)
    (hpostings : ∀ p ∈ postings, IsAmount m.context.precision t p.amount)
    (h : fold m start postings = .ok balance) :
    balance.toRat = start.toRat + (postings.map Posting.effect).sum ∧
      ((∃ p ∈ postings, p.Counts) ∧ balance.IsPlainOn t ∨
        (∀ p ∈ postings, ¬p.Counts) ∧ balance = start) := by
  by_cases hdigits : HasDigits m.context.precision t start.toRat postings
  · obtain ⟨balance', hfold, hexact⟩ := fold_of_hasDigits hm hr hstart hpostings hdigits
    cases h.symm.trans hfold
    exact hexact
  · obtain ⟨d, hfold⟩ := fold_of_not_hasDigits hm hr hstart hpostings hdigits
    cases h.symm.trans hfold

/-- Entries in another order come to the same balance, if they come to one. -/
theorem fold_perm (hm : m.IsRoomy t) (hr : m.context.rounding ≠ .floor)
    {postings others : List Posting} (hstart : start.IsMultiple m.context.precision t)
    (hpostings : ∀ p ∈ postings, IsAmount m.context.precision t p.amount)
    (hperm : others.Perm postings) {balance' : Decimal} (h : fold m start postings = .ok balance)
    (h' : fold m start others = .ok balance') : balance = balance' := by
  obtain ⟨hvalue, hform⟩ := exact_of_fold hm hr hstart hpostings h
  obtain ⟨hvalue', hform'⟩ := exact_of_fold hm hr hstart
    (fun p hp => hpostings p (hperm.mem_iff.1 hp)) h'
  have hsame : balance.toRat = balance'.toRat := by
    rw [hvalue, hvalue', (hperm.map Posting.effect).sum_eq]
  rcases hform with ⟨⟨p, hp, hcounts⟩, hplain⟩ | ⟨hnone, rfl⟩
  · rcases hform' with ⟨-, hplain'⟩ | ⟨hnone', -⟩
    · exact hplain.eq hplain' hsame
    · exact absurd hcounts (hnone' p (hperm.mem_iff.2 hp))
  · rcases hform' with ⟨⟨p, hp, hcounts⟩, -⟩ | ⟨-, rfl⟩
    · exact absurd hcounts (hnone p (hperm.mem_iff.1 hp))
    · rfl

/-- From zero on the balances of the currencies add up to that of all entries. -/
theorem sum_parts (hm : m.IsRoomy t) (hr : m.context.rounding ≠ .floor) {zero whole : Decimal}
    (hzero : zero.IsMultiple m.context.precision t) (hvalue : zero.toRat = 0)
    {entries : List LedgerEntry}
    (hentries : ∀ e ∈ entries, IsAmount m.context.precision t e.amount)
    (h : fold m zero (entries.map LedgerEntry.posting) = .ok whole) {parts : String → Decimal}
    (hparts : ∀ c ∈ entries.map LedgerEntry.currency, fold m zero
      ((entries.filter fun e => e.currency = c).map LedgerEntry.posting) = .ok (parts c)) :
    ((entries.map LedgerEntry.currency).dedup.map fun c => (parts c).toRat).sum = whole.toRat := by
  have heach : ∀ c ∈ (entries.map LedgerEntry.currency).dedup, (parts c).toRat =
      ((entries.filter fun e => e.currency = c).map fun e => e.posting.effect).sum := by
    intro c hc
    have hamounts : ∀ p ∈ (entries.filter fun e => e.currency = c).map LedgerEntry.posting,
        IsAmount m.context.precision t p.amount :=
      List.forall_mem_map.2 fun e he => hentries e (List.mem_filter.1 he).1
    rw [(exact_of_fold hm hr hzero hamounts (hparts c (List.mem_dedup.1 hc))).1, hvalue, zero_add,
      List.map_map]
    rfl
  have hcover : ∀ e ∈ entries, e.currency ∈ (entries.map LedgerEntry.currency).dedup :=
    fun e he => List.mem_dedup.2 (List.mem_map_of_mem he)
  rw [List.map_congr_left heach, LedgerEntry.sum_by_currency _ (List.nodup_dedup _) hcover,
    (exact_of_fold hm hr hzero (List.forall_mem_map.2 hentries) h).1, hvalue, zero_add,
    List.map_map]
  rfl

/-- With amounts on a scale of up to eight places the balance is the exact signed sum: the start
with the posted credits and without the posted debits, as long as every sum on the way has digits
enough, and otherwise an amount out of range. So the order of the entries does not matter, and the
balances of the currencies add up to that of all entries. -/
theorem fold_exact {m : Money} {s p : Nat} (hs : s ≤ 8) (hp : p ≤ 999999)
    (hm : Money.make (some s) p .halfUp = .ok m) {start : Decimal}
    (hstart : start.IsMultiple p (-s)) {entries : List LedgerEntry}
    (hentries : ∀ e ∈ entries, IsAmount p (-s) e.amount) :
    let postings := entries.map LedgerEntry.posting
    (HasDigits p (-s) start.toRat postings →
      ∃ balance, fold m start postings = .ok balance ∧ balance.toRat =
        start.toRat + (Posting.total .credit postings - Posting.total .debit postings)) ∧
    (¬HasDigits p (-s) start.toRat postings →
      ∃ failure, fold m start postings = .error failure ∧
        failure.faultKind? = some .invalidAmount) ∧
    (∀ others : List LedgerEntry, others.Perm entries → ∀ balance balance',
      fold m start postings = .ok balance →
      fold m start (others.map LedgerEntry.posting) = .ok balance' → balance = balance') ∧
    ∃ zero, m.zero = .ok zero ∧ zero.toRat = 0 ∧ ∀ whole (parts : String → Decimal),
      fold m zero postings = .ok whole →
      (∀ c ∈ entries.map LedgerEntry.currency, fold m zero
        ((entries.filter fun e => e.currency = c).map LedgerEntry.posting) = .ok (parts c)) →
      ((entries.map LedgerEntry.currency).dedup.map fun c => (parts c).toRat).sum =
        whole.toRat := by
  obtain ⟨hroomy, rfl, hrounding⟩ := Money.isRoomy_of_make hs hp hm
  have hr : m.context.rounding ≠ .floor := by
    rw [hrounding]
    decide
  have hpostings : ∀ q ∈ entries.map LedgerEntry.posting,
      IsAmount m.context.precision (-s) q.amount := List.forall_mem_map.2 hentries
  -- the four parts: room, no room, any order, and the currencies one by one
  intro postings
  refine ⟨fun hdigits => ?_, fun hdigits => ?_, fun others hperm balance balance' => ?_, ?_⟩
  · obtain ⟨balance, hfold, hvalue, -⟩ := fold_of_hasDigits hroomy hr hstart hpostings hdigits
    exact ⟨balance, hfold, hvalue.trans (by rw [Posting.sum_effect])⟩
  · obtain ⟨d, hfold⟩ := fold_of_not_hasDigits hroomy hr hstart hpostings hdigits
    exact ⟨_, hfold, rfl⟩
  · exact fold_perm hroomy hr hstart hpostings (hperm.map _)
  · obtain ⟨zero, hzero, hmultiple, hvalue⟩ := hroomy.zero
    exact ⟨zero, hzero, hvalue, fun whole parts hwhole hparts =>
      sum_parts hroomy hr hmultiple hvalue hentries hwhole hparts⟩

/-- A credit of `99.50` and one of `1`, in two currencies. -/
def fillingUp : List LedgerEntry :=
  [{ (default : LedgerEntry) with
      entryType := .credit, status := .posted, amount := .finite false 9950 (-2), currency := "INR" },
    { (default : LedgerEntry) with
      entryType := .credit, status := .posted, amount := .finite false 1 0, currency := "USD" }]

/-- Four digits are enough for the first credit, and not for both. -/
theorem fold_exact_of_fillingUp :
    let m : Money := ⟨some 2, { precision := 4, rounding := .halfUp }⟩
    Money.make (some 2) 4 .halfUp = .ok m ∧
    (∃ balance, fold m (.finite false 0 0) ((fillingUp.take 1).map LedgerEntry.posting) =
      .ok balance ∧ balance.toRat = 199 / 2) ∧
    ∃ failure, fold m (.finite false 0 0) (fillingUp.map LedgerEntry.posting) = .error failure ∧
      failure.faultKind? = some .invalidAmount := by
  have hstart : (Decimal.finite false 0 0).IsMultiple 4 (-(2 : Nat)) :=
    ⟨rfl, 0, by simp [Decimal.toRat, DecimalContext.signed], by decide⟩
  have hentries : ∀ e ∈ fillingUp, IsAmount 4 (-(2 : Nat)) e.amount := by
    refine List.forall_mem_cons.2 ⟨⟨⟨rfl, 9950, ?_, by decide⟩, ?_⟩,
      List.forall_mem_cons.2 ⟨⟨⟨rfl, 100, ?_, by decide⟩, ?_⟩,
        fun _ he => absurd he List.not_mem_nil⟩⟩ <;>
    norm_num [Decimal.toRat, DecimalContext.signed]
  have hfirst : ∀ e ∈ fillingUp.take 1, IsAmount 4 (-(2 : Nat)) e.amount :=
    fun e he => hentries e (List.mem_of_mem_take he)
  refine ⟨rfl, ?_, (fold_exact (s := 2) (p := 4) (by decide) (by decide) rfl hstart hentries).2.1
    fun hdigits => ?_⟩
  · obtain ⟨balance, hfold, hvalue⟩ :=
      (fold_exact (s := 2) (p := 4) (by decide) (by decide) rfl hstart hfirst).1 (by
        norm_num [fillingUp, hasDigits_cons, hasDigits_nil, Posting.effect, LedgerEntry.posting,
          Decimal.toRat, DecimalContext.signed])
    refine ⟨balance, hfold, hvalue.trans ?_⟩
    rw [← Posting.sum_effect]
    norm_num [fillingUp, Posting.effect, LedgerEntry.posting, Decimal.toRat, DecimalContext.signed]
  · have hlast := hdigits _ List.prefix_rfl
    rw [← Posting.sum_effect] at hlast
    norm_num [fillingUp, Posting.effect, LedgerEntry.posting, Decimal.toRat,
      DecimalContext.signed] at hlast

end Balance

end RewardLedger
