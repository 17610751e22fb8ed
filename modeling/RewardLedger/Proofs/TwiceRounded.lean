import RewardLedger.Proofs.Ledger.ExactBalance
import RewardLedger.Proofs.Number.Fitted
import RewardLedger.Proofs.Rounded

/-!
# Sums are rounded twice

A sum of amounts is rounded to the precision first and to the places after that. The second rounding
sees a number that may have been rounded up to a half already: where the exact sum lies just below a
half (`Decimal.JustBelowHalf`), it is rounded to the next amount away from zero, and everywhere else as
if it was rounded once (`DecimalContext.nearest_of_rounded`). A sum that the first rounding finds too
large (`DecimalContext.Overflows`) never gets to the second one, which would refuse it as an invalid
amount; the overflow is the answer.

So goes every sum, every difference (`Money.RoundsTwice`) and, entry by entry, the folding of a history
whose amounts were not rounded beforehand (`Balance.FoldsTwice`).
-/

namespace RewardLedger

namespace Decimal

variable {p t u : Int} {n : Nat} {d s : Decimal}

/-- Turning the sign round leaves a finite number finite. -/
theorem isFinite_negate (d : Decimal) : d.negate.isFinite = d.isFinite := by
  cases d <;> rfl

/-- Written with `p` digits, the number lies below the half after its nearest number on the exponent `t`
by half a unit of its last digit at most; below that half it lies in any case (`nearest_spec`). -/
def JustBelowHalf (p t : Int) (s : Decimal) : Prop :=
  s.lastPlace p < t ∧
    ((s.nearest t : ℚ) + 1 / 2) * 10 ^ t ≤ |s.toRat| + (10 : ℚ) ^ s.lastPlace p / 2

/-- Whether a number lies just below a half is a comparison of whole numbers and one of rational ones. -/
instance (p t : Int) (s : Decimal) : Decidable (s.JustBelowHalf p t) :=
  inferInstanceAs (Decidable (_ ∧ _))

/-- The whole number of units of `10 ^ t` that a number is rounded to if it is rounded to `p` digits
before. -/
def nearestTwice (p t : Int) (s : Decimal) : Nat :=
  if s.JustBelowHalf p t then s.nearest t + 1 else s.nearest t

/-- Rounding twice leaves no less than rounding once. -/
theorem nearest_le_nearestTwice (p t : Int) (s : Decimal) : s.nearest t ≤ s.nearestTwice p t := by
  rw [nearestTwice]
  split <;> omega

/-- A whole number of units does not lie just below a half. -/
theorem not_justBelowHalf_of_eq {k : Int} (h : s.toRat = k * (10 : ℚ) ^ t) : ¬s.JustBelowHalf p t := by
  rintro ⟨hlt, hhalf⟩
  have hless : (10 : ℚ) ^ s.lastPlace p < 10 ^ t := zpow_lt_zpow_right₀ (by norm_num) hlt
  have habs := abs_toRat_of_eq h
  rw [nearest_of_units habs, habs] at hhalf
  linarith

/-- The next number on the exponent, away from zero. -/
def awayFromZero : Decimal → Decimal
  | finite negative c e => finite negative (c + 1) e
  | d => d

/-- What a number comes to on the exponent `t` if it is rounded to `p` digits before: it is `a` when it is
rounded once, and comes to `b`. -/
structure ComesTo (p t : Int) (s a b : Decimal) : Prop where
  /-- Rounded once, the number is this one. -/
  rounds : s.RoundsTo t a
  /-- Unless it lies just below a half, it comes to the same. -/
  once : ¬s.JustBelowHalf p t → b = a
  /-- Just below a half it comes to the next number away from zero. -/
  twice : s.JustBelowHalf p t → b = a.awayFromZero
  /-- A number without digits behind the exponent comes to the same. -/
  whole : (∃ k : Int, s.toRat = k * (10 : ℚ) ^ t) → b = a

/-- A finite number comes to as many units as it is rounded to twice, with its sign. -/
theorem comesTo_nearestTwice (p t : Int) (negative : Bool) (c : Nat) (e : Int) :
    (finite negative c e).ComesTo p t (finite negative ((finite negative c e).nearest t) t)
      (finite negative ((finite negative c e).nearestTwice p t) t) where
  rounds := roundsTo_nearest negative c e t
  once hjust := by rw [nearestTwice, if_neg hjust]
  twice hjust := by rw [nearestTwice, if_pos hjust, awayFromZero]
  whole := fun ⟨_, hk⟩ => by rw [nearestTwice, if_neg (not_justBelowHalf_of_eq hk)]

/-- As many units as there are in a number that is half a unit larger are in the nearest number. -/
theorem le_nearest_iff_mul_le : n ≤ s.nearest u ↔ (n : ℚ) * 10 ^ u ≤ |s.toRat| + 10 ^ u / 2 := by
  have hten : (0 : ℚ) < (10 : ℚ) ^ u := zpow_pos (by norm_num) u
  have hunits : (|s.toRat| / 10 ^ u + 1 / 2) * (10 : ℚ) ^ u = |s.toRat| + 10 ^ u / 2 := by
    rw [add_mul, div_mul_cancel₀ _ hten.ne', one_div_mul_eq_div]
  rw [le_nearest_iff, ← hunits, mul_le_mul_iff_left₀ hten]

/-- A number that was rounded on a smaller exponent is rounded up from half a unit of that exponent
below halfway on. -/
theorem succ_le_nearest_of_rounded (hu : u < t) (hd : |d.toRat| = s.nearest u * (10 : ℚ) ^ u) :
    n + 1 ≤ d.nearest t ↔ ((n : ℚ) + 1 / 2) * 10 ^ t ≤ |s.toRat| + (10 : ℚ) ^ u / 2 := by
  have hten : (0 : ℚ) < (10 : ℚ) ^ u := zpow_pos (by norm_num) u
  obtain ⟨i, rfl⟩ : ∃ i : Nat, t = i + 1 + u := ⟨(t - 1 - u).toNat, by omega⟩
  -- halfway stands a whole number of units of the smaller exponent
  have hhalf : ((n : ℚ) + 1 / 2) * 10 ^ ((i : Int) + 1 + u) =
      (((2 * n + 1) * 5 * 10 ^ i : Nat) : ℚ) * 10 ^ u := by
    rw [zpow_add_one_add]
    push_cast
    ring
  rw [succ_le_nearest_iff, hd, hhalf, mul_le_mul_iff_left₀ hten, Nat.cast_le, le_nearest_iff_mul_le]

/-- A number that was rounded on a smaller exponent is rounded to the same number as before, or to the
next one if halfway to it was half a unit of that exponent away at most. -/
theorem nearest_of_nearest (hu : u < t) (hd : |d.toRat| = s.nearest u * (10 : ℚ) ^ u) :
    (((s.nearest t : ℚ) + 1 / 2) * 10 ^ t ≤ |s.toRat| + (10 : ℚ) ^ u / 2 →
      d.nearest t = s.nearest t + 1) ∧
    (¬((s.nearest t : ℚ) + 1 / 2) * 10 ^ t ≤ |s.toRat| + (10 : ℚ) ^ u / 2 →
      d.nearest t = s.nearest t) := by
  have hstep : ∀ n : Nat, n + 1 ≤ d.nearest t ↔ _ := fun n => succ_le_nearest_of_rounded hu hd
  have hself : ∀ n : Nat, n + 1 ≤ s.nearest t ↔ _ := fun n => succ_le_nearest_iff
  have hten : (0 : ℚ) < (10 : ℚ) ^ u := zpow_pos (by norm_num) u
  have hless : (10 : ℚ) ^ u ≤ 10 ^ t := zpow_le_zpow_right₀ (by norm_num) hu.le
  generalize s.nearest t = m at hself ⊢
  have hlow : m ≤ d.nearest t := by
    cases m with
    | zero => exact Nat.zero_le _
    | succ n => exact (hstep n).2 (((hself n).1 le_rfl).trans (by linarith))
  have hhigh : ¬m + 2 ≤ d.nearest t := by
    have hnot := mt (hself m).2 (Nat.not_succ_le_self m)
    intro htwo
    have htwo := (hstep (m + 1)).1 htwo
    push_cast at htwo hnot
    linarith
  refine ⟨fun hhalf => ?_, fun hhalf => ?_⟩
  · have := (hstep m).2 hhalf
    omega
  · have := mt (hstep m).1 hhalf
    omega

/-- A number whose first digit stands `p` places ahead has more than `p` digits when it is rounded. -/
theorem tenTo_le_nearest (h : (10 : ℚ) ^ (t + n) ≤ |d.toRat|) : tenTo n ≤ d.nearest t := by
  have hten : (0 : ℚ) < (10 : ℚ) ^ t := zpow_pos (by norm_num) t
  have hreach := zpow_le_nearest (by omega : t ≤ t + n) h
  rw [add_comm, zpow_add₀ (by norm_num), mul_le_mul_iff_left₀ hten, zpow_natCast] at hreach
  exact_mod_cast hreach

end Decimal

namespace DecimalContext

variable {ctx : DecimalContext} {t : Int} {d s : Decimal}

/-- What a number is rounded to in the context is rounded on an exponent to what the number is rounded to
twice; or both have too many digits, for the context has not kept all that stand before the exponent. -/
theorem nearest_of_rounded (hp : 0 < ctx.precision) (ht : ctx.least < t)
    (hd : |d.toRat| = ctx.rounded s) :
    d.nearest t = s.nearestTwice ctx.precision t ∨
      tenTo ctx.precision ≤ d.nearest t ∧ tenTo ctx.precision ≤ s.nearest t := by
  have hlast : s.lastPlace ctx.precision = Int.log 10 |s.toRat| + 1 - ctx.precision := rfl
  have htiny : ctx.tiny = ctx.least - ctx.precision + 1 := rfl
  have hbelow : |s.toRat| < (10 : ℚ) ^ (Int.log 10 |s.toRat| + 1) :=
    Int.lt_zpow_succ_log_self (by decide) _
  rw [rounded] at hd
  by_cases hsmall : s.lastPlace ctx.precision < ctx.tiny
  · -- a number as small as this is nowhere near a half
    rw [max_eq_right hsmall.le] at hd
    have hfar : ∀ u ≤ ctx.tiny,
        ¬((s.nearest t : ℚ) + 1 / 2) * 10 ^ t ≤ |s.toRat| + (10 : ℚ) ^ u / 2 := by
      intro u hu hhalf
      have hplace : (0 : ℚ) < 10 ^ (t - 1) := zpow_pos (by norm_num) _
      have hten : (10 : ℚ) ^ t = 10 ^ (t - 1) * 10 := by
        rw [← zpow_add_one₀ (by norm_num), sub_add_cancel]
      have hpow : ∀ k ≤ t - 1, (10 : ℚ) ^ k ≤ 10 ^ (t - 1) := fun k hk =>
        zpow_le_zpow_right₀ (by norm_num) hk
      have hnumber := lt_of_lt_of_le hbelow (hpow _ (by omega))
      have hunit := hpow u (by omega)
      have hmany : (0 : ℚ) ≤ s.nearest t * 10 ^ (t - 1) := by positivity
      rw [hten] at hhalf
      linarith
    rw [Decimal.nearestTwice, if_neg fun hjust => hfar _ hsmall.le hjust.2]
    exact .inl ((Decimal.nearest_of_nearest (by omega) hd).2 (hfar _ le_rfl))
  rw [max_eq_left (not_lt.1 hsmall)] at hd
  -- the last place that is kept stands behind the exponent, on it or before it
  rcases lt_trichotomy (s.lastPlace ctx.precision) t with hlt | heq | hgt
  · obtain ⟨hup, hdown⟩ := Decimal.nearest_of_nearest hlt hd
    rw [Decimal.nearestTwice]
    split
    · rename_i hjust
      exact .inl (hup hjust.2)
    · rename_i hjust
      exact .inl (hdown fun hhalf => hjust ⟨hlt, hhalf⟩)
  · rw [heq] at hd
    rw [Decimal.nearestTwice, if_neg fun hjust => absurd hjust.1 heq.not_lt]
    exact .inl (Decimal.nearest_of_units hd)
  · rw [Decimal.nearestTwice, if_neg fun hjust => absurd hjust.1 hgt.not_gt]
    by_cases hzero : s.toRat = 0
    · have hnone : ∀ u, s.nearest u = 0 := fun u => Decimal.nearest_of_units (by simp [hzero])
      rw [hnone, Nat.cast_zero, zero_mul] at hd
      exact .inl ((Decimal.nearest_of_units (by simp [hd])).trans (hnone t).symm)
    · -- the first digit stands too far ahead, before and after rounding
      have hreach : (10 : ℚ) ^ Int.log 10 |s.toRat| ≤ |s.toRat| :=
        Int.zpow_log_le_self (by decide) (abs_pos.2 hzero)
      have hahead : (10 : ℚ) ^ (t + ctx.precision) ≤ 10 ^ Int.log 10 |s.toRat| :=
        zpow_le_zpow_right₀ (by norm_num) (by omega)
      have hrounded := Decimal.zpow_le_nearest (by omega : s.lastPlace ctx.precision ≤ _) hreach
      rw [← hd] at hrounded
      exact .inr ⟨Decimal.tenTo_le_nearest (hahead.trans hrounded),
        Decimal.tenTo_le_nearest (hahead.trans hreach)⟩

/-- Rounded to the digits of the context, the number is too large for it. -/
def Overflows (ctx : DecimalContext) (s : Decimal) : Prop :=
  (10 : ℚ) ^ (ctx.greatest + 1) ≤ |s.toRat| + (10 : ℚ) ^ (ctx.greatest + 1 - ctx.precision) / 2

/-- A number overflows from half a unit of its last digit below the first power of ten that is too large
on. -/
theorem overflows_iff (hp : 0 < ctx.precision) (hrange : ctx.least ≤ ctx.greatest)
    (hgreatest : 0 ≤ ctx.greatest) :
    ctx.Overflows s ↔ (10 : ℚ) ^ (ctx.greatest + 1) ≤ ctx.rounded s := by
  have hbelow : |s.toRat| < (10 : ℚ) ^ (Int.log 10 |s.toRat| + 1) :=
    Int.lt_zpow_succ_log_self (by decide) _
  have htiny : ctx.tiny = ctx.least - ctx.precision + 1 := rfl
  have hplace : (0 : ℚ) < 10 ^ ctx.greatest := zpow_pos (by norm_num) _
  have hten : (10 : ℚ) ^ (ctx.greatest + 1) = 10 ^ ctx.greatest * 10 := zpow_add_one₀ (by norm_num) _
  have hpow : ∀ {k k' : Int}, k ≤ k' → (10 : ℚ) ^ k ≤ 10 ^ k' :=
    fun hk => zpow_le_zpow_right₀ (by norm_num) hk
  rw [Overflows, rounded, Decimal.lastPlace]
  -- the first digit stands before that of the power of ten, right before it, or not before it
  rcases lt_trichotomy (Int.log 10 |s.toRat|) ctx.greatest with hlt | heq | hgt
  · -- far from the power of ten, before and after rounding
    have hnumber := lt_of_lt_of_le hbelow (hpow (by omega : _ ≤ ctx.greatest))
    have hunit := hpow (by omega : ctx.greatest + 1 - ctx.precision ≤ ctx.greatest)
    have hrounded := Decimal.nearest_le_zpow (by omega :
      max (Int.log 10 |s.toRat| + 1 - ctx.precision) ctx.tiny ≤ ctx.greatest) hnumber
    constructor <;> intro h <;> linarith
  · -- rounding decides
    have hmax : max (Int.log 10 |s.toRat| + 1 - (ctx.precision : Int)) ctx.tiny =
        ctx.greatest + 1 - ctx.precision := by omega
    rw [hmax]
    have hunit : (0 : ℚ) < 10 ^ (ctx.greatest + 1 - ctx.precision) := zpow_pos (by norm_num) _
    have hsplit : (10 : ℚ) ^ (ctx.greatest + 1) =
        (tenTo ctx.precision : Nat) * 10 ^ (ctx.greatest + 1 - ctx.precision) := by
      have hcast : ((tenTo ctx.precision : Nat) : ℚ) = (10 : ℚ) ^ (ctx.precision : Int) := by
        rw [zpow_natCast]
        exact Nat.cast_pow 10 _
      rw [hcast, ← zpow_add₀ (by norm_num), add_sub_cancel]
    rw [hsplit, mul_le_mul_iff_left₀ hunit, Nat.cast_le, Decimal.le_nearest_iff_mul_le]
  · -- beyond the power of ten, before and after rounding
    have hsome : s.toRat ≠ 0 := by
      intro hzero
      rw [hzero, abs_zero, Int.log_zero_right] at hgt
      omega
    have hreach : (10 : ℚ) ^ Int.log 10 |s.toRat| ≤ |s.toRat| :=
      Int.zpow_log_le_self (by decide) (abs_pos.2 hsome)
    have hunit : (0 : ℚ) < 10 ^ (ctx.greatest + 1 - ctx.precision) := zpow_pos (by norm_num) _
    have hnumber := hpow (by omega : ctx.greatest + 1 ≤ Int.log 10 |s.toRat|)
    have hrounded := Decimal.zpow_le_nearest (by omega :
      max (Int.log 10 |s.toRat| + 1 - (ctx.precision : Int)) ctx.tiny ≤ _) hreach
    exact ⟨fun _ => hnumber.trans hrounded, fun _ => by linarith⟩

/-- A number that overflows has too many digits on every exponent on which there is room for all the
digits of the context. -/
theorem tenTo_le_nearest_of_overflows (hp : 0 < ctx.precision) (ht : t + ctx.precision ≤ ctx.greatest)
    (h : ctx.Overflows s) : tenTo ctx.precision ≤ s.nearest t := by
  have hpow : ∀ {k : Int}, k ≤ ctx.greatest → (10 : ℚ) ^ k ≤ 10 ^ ctx.greatest :=
    fun hk => zpow_le_zpow_right₀ (by norm_num) hk
  have hten : (10 : ℚ) ^ (ctx.greatest + 1) = 10 ^ ctx.greatest * 10 := zpow_add_one₀ (by norm_num) _
  have hunit := hpow (by omega : ctx.greatest + 1 - ctx.precision ≤ ctx.greatest)
  have hplace : (0 : ℚ) < 10 ^ ctx.greatest := zpow_pos (by norm_num) _
  rw [Overflows] at h
  exact Decimal.tenTo_le_nearest ((hpow ht).trans (by linarith))

end DecimalContext

namespace Money

variable {m : Money} {places precision : Int} {l r s a b : Decimal}
  {result : Except ArithmeticFault Decimal} {answer : Except Failure Decimal}

/-- What becomes of an exact sum that is rounded to the precision and then to the places: it is the amount
`a` when it is rounded once, and comes to the amount `b`. -/
structure RoundsTwice (m : Money) (places : Int) (s a b : Decimal) (answer : Except Failure Decimal) :
    Prop extends s.ComesTo m.context.precision (-places) a b where
  /-- An amount that does not have too many digits is the answer. -/
  ok : b.digits ≤ m.context.precision → answer = .ok b
  /-- One with too many digits is an invalid amount, if rounding to the precision does not overflow. -/
  invalid : m.context.precision < b.digits → ¬m.context.Overflows s →
    ∃ fault : Fault, answer = .error (.fault fault) ∧ fault.kind = .invalidAmount
  /-- If it does, the overflow is the answer. -/
  overflow : m.context.Overflows s → answer = .error (.arithmetic .overflow)

/-- The precision is the one that the rules for amounts were made with. -/
theorem precision_of_make {scale : Option Int} {rounding : Rounding}
    (h : make scale precision rounding = .ok m) : (m.context.precision : Int) = precision := by
  unfold make at h
  split at h
  · cases h
    exact Int.toNat_of_nonneg (by omega)
  · split at h <;> cases h

/-- What an operation comes to in the context, brought to the places, has been rounded twice. -/
theorem HalvesUp.roundsTwice (hm : m.HalvesUp places) (hplaces : 0 ≤ places ∧ places ≤ 8)
    (hprecision : m.context.precision ≤ 999999) {negative : Bool} {c : Nat} {e : Int}
    (hresult : m.context.Gives negative (m.context.rounded (.finite negative c e)) result) :
    ∃ a b, m.RoundsTwice places (.finite negative c e) a b (m.settle result) := by
  have hp := hm.precision
  have hgreatest := hm.greatest
  have hleast := hm.least
  have hroom : m.context.room (-places) = m.context.precision := by
    rw [DecimalContext.room]
    omega
  have hrange : m.context.least ≤ m.context.greatest := by omega
  have hcomes := Decimal.comesTo_nearestTwice m.context.precision (-places) negative c e
  generalize Decimal.finite negative c e = s at hresult hcomes ⊢
  have hoverflows := DecimalContext.overflows_iff (s := s) hp hrange (by omega)
  have hless := s.nearest_le_nearestTwice m.context.precision (-places)
  rcases hresult with ⟨hlarge, rfl⟩ | ⟨hsmall, c', e', rfl, hvalue⟩
  · -- too large already when it is rounded to the precision
    have hover := hoverflows.2 hlarge
    have hmany := DecimalContext.tenTo_le_nearest_of_overflows (t := -places) hp (by omega) hover
    generalize s.nearestTwice m.context.precision (-places) = n at hless hcomes
    exact ⟨_, _, hcomes, fun hok => absurd ((lt_tenTo_iff hp).2 hok) (by omega),
      fun _ hnot => absurd hover hnot, fun _ => rfl⟩
  · -- it has been rounded once to the precision, and is then rounded to the places
    have hd : |(Decimal.finite negative c' e').toRat| = m.context.rounded s :=
      (Decimal.abs_toRat negative c' e').trans hvalue
    have hnearest := DecimalContext.nearest_of_rounded (t := -places) hp (by omega) hd
    have hnot := mt hoverflows.1 (not_le.2 hsmall)
    have hquantize := hm.quantize negative c' e'
    rw [hroom] at hquantize
    generalize s.nearestTwice m.context.precision (-places) = n at hless hcomes hnearest
    refine ⟨_, _, hcomes, fun hok => ?_, fun hmany _ => ⟨_, hquantize.trans (if_neg ?_), rfl⟩,
      fun hover => absurd hover hnot⟩
    · have hn := (lt_tenTo_iff hp).2 hok
      rw [hnearest.resolve_right (by omega), if_pos hn] at hquantize
      exact hquantize
    · have hn := mt (lt_tenTo_iff hp).1 (Nat.not_le_of_lt hmany)
      omega

/-- A sum is rounded twice. -/
theorem HalvesUp.add_roundsTwice (hm : m.HalvesUp places) (hplaces : 0 ≤ places ∧ places ≤ 8)
    (hprecision : m.context.precision ≤ 999999) (hl : l.isFinite = true) (hr : r.isFinite = true) :
    ∃ s a b, l.IsSum r s ∧ m.RoundsTwice places s a b (m.add l r) := by
  have hrange : m.context.least ≤ m.context.greatest := by
    rw [hm.least, hm.greatest]
    decide
  obtain ⟨s, hs, hgives⟩ := DecimalContext.add_halfUp hm.rounding hm.precision hrange hl hr
  cases s with
  | infinite _ | nan _ _ _ => cases hs.finite
  | finite negative c e =>
    obtain ⟨a, b, h⟩ := hm.roundsTwice hplaces hprecision hgives
    exact ⟨_, a, b, hs, h⟩

/-- A difference is rounded twice, as the sum with the sign of the second number turned round. -/
theorem HalvesUp.subtract_roundsTwice (hm : m.HalvesUp places) (hplaces : 0 ≤ places ∧ places ≤ 8)
    (hprecision : m.context.precision ≤ 999999) (hl : l.isFinite = true) (hr : r.isFinite = true) :
    ∃ s a b, l.IsSum r.negate s ∧ m.RoundsTwice places s a b (m.subtract l r) := by
  have hsubtract : m.subtract l r = m.add l r.negate :=
    congrArg m.settle (m.context.subtract_eq_add hl hr)
  rw [hsubtract]
  exact hm.add_roundsTwice hplaces hprecision hl (r.isFinite_negate.trans hr)

/-- An answer that is an amount is the one that the sum comes to. -/
theorem RoundsTwice.eq_of_ok {d : Decimal} (h : m.RoundsTwice places s a b (.ok d)) :
    d = b ∧ b.isFinite = true := by
  constructor
  · have hnot : ¬m.context.Overflows s := fun hover => by cases h.overflow hover
    by_cases hdigits : b.digits ≤ m.context.precision
    · exact Except.ok.inj (h.ok hdigits)
    · obtain ⟨_, herror, -⟩ := h.invalid (Nat.lt_of_not_le hdigits) hnot
      cases herror
  · obtain ⟨_, _, _, _, -, rfl⟩ := h.rounds.form
    by_cases hjust : s.JustBelowHalf m.context.precision (-places)
    · rw [h.twice hjust]
      rfl
    · rw [h.once hjust]
      rfl

end Money

/-! ## Folding -/

/-- The amount of an entry with the sign that it counts with. -/
def Posting.change (p : Posting) : Decimal :=
  if p.entryType = .debit then p.amount.negate else p.amount

namespace Balance

variable {m : Money} {places : Int} {balance : Decimal}

/-- Going through entries, each sum of the balance so far and an entry that counts is rounded twice; the
first one that is no amount is where it ends. -/
inductive FoldsTwice (m : Money) (places : Int) :
    Decimal → List Posting → Except Failure Decimal → Prop where
  /-- Without entries the balance is the start. -/
  | nil (balance : Decimal) : FoldsTwice m places balance [] (.ok balance)
  /-- An entry that does not count leaves the balance alone. -/
  | skip {balance p rest answer} (hp : ¬p.Counts) (hrest : FoldsTwice m places balance rest answer) :
    FoldsTwice m places balance (p :: rest) answer
  /-- A sum that is no amount is the end. -/
  | stop {balance p rest s a b e} (hp : p.Counts) (hs : balance.IsSum p.change s)
    (h : m.RoundsTwice places s a b (.error e)) : FoldsTwice m places balance (p :: rest) (.error e)
  /-- The balance goes on with the amount that the sum comes to. -/
  | next {balance p rest s a b answer} (hp : p.Counts) (hs : balance.IsSum p.change s)
    (h : m.RoundsTwice places s a b (.ok b)) (hrest : FoldsTwice m places b rest answer) :
    FoldsTwice m places balance (p :: rest) answer

/-- The balance after one more entry has been rounded twice, if the entry counts. -/
theorem step_roundsTwice (hm : m.HalvesUp places) (hplaces : 0 ≤ places ∧ places ≤ 8)
    (hprecision : m.context.precision ≤ 999999) (hbalance : balance.isFinite = true) {p : Posting}
    (hp : p.amount.isFinite = true) :
    (p.Counts ∧ ∃ s a b, balance.IsSum p.change s ∧ m.RoundsTwice places s a b (step m balance p)) ∨
      (¬p.Counts ∧ step m balance p = .ok balance) := by
  obtain ⟨entryType, status, amount⟩ := p
  cases status with
  | void =>
    refine .inr ⟨?_, step_void m balance amount entryType⟩
    rintro ⟨hposted, -⟩
    cases hposted
  | posted =>
    cases entryType with
    | credit => exact .inl ⟨⟨rfl, nofun⟩, hm.add_roundsTwice hplaces hprecision hbalance hp⟩
    | debit => exact .inl ⟨⟨rfl, nofun⟩, hm.subtract_roundsTwice hplaces hprecision hbalance hp⟩
    | reversal => exact .inr ⟨fun h => h.2 rfl, rfl⟩

/-- A history of finite amounts is folded by rounding each sum twice. -/
theorem foldsTwice_fold (hm : m.HalvesUp places) (hplaces : 0 ≤ places ∧ places ≤ 8)
    (hprecision : m.context.precision ≤ 999999) {postings : List Posting}
    (hbalance : balance.isFinite = true) (hpostings : ∀ p ∈ postings, p.amount.isFinite = true) :
    FoldsTwice m places balance postings (fold m balance postings) := by
  induction postings generalizing balance with
  | nil => exact .nil balance
  | cons p rest ih =>
    rw [List.forall_mem_cons] at hpostings
    rw [fold, List.foldlM_cons]
    rcases step_roundsTwice hm hplaces hprecision hbalance hpostings.1 with
      ⟨hp, s, a, b, hs, h⟩ | ⟨hp, hstep⟩
    · generalize step m balance p = answer at h
      cases answer with
      | error e => exact .stop hp hs h
      | ok d =>
        obtain ⟨rfl, hb⟩ := h.eq_of_ok
        exact .next hp hs h (ih hb hpostings.2)
    · rw [hstep]
      exact .skip hp (ih hbalance hpostings.2)

end Balance

namespace Money

variable {places precision : Int}

/-- **Sums of amounts are rounded twice.** Where halves are rounded away from zero, every sum and every
difference of finite numbers is the exact one, rounded to the precision and then to the places, and so
is every balance on the way through a history. That is the exact sum rounded once, and an invalid amount
if this one has too many digits, but for two cases: a sum just below a half comes to the next amount, and
one that is too large for an exponent when it is rounded to the precision overflows. -/
theorem sums_rounded_twice (hplaces : 0 ≤ places ∧ places ≤ 8)
    (hprecision : 1 ≤ precision ∧ precision ≤ 999999) :
    ∃ m, make (some places) precision .halfUp = .ok m ∧ (m.context.precision : Int) = precision ∧
      (∀ l r : Decimal, l.isFinite = true → r.isFinite = true →
        (∃ s a b, l.IsSum r s ∧ m.RoundsTwice places s a b (m.add l r)) ∧
        ∃ s a b, l.IsSum r.negate s ∧ m.RoundsTwice places s a b (m.subtract l r)) ∧
      ∀ (start : Decimal) (postings : List Posting), start.isFinite = true →
        (∀ p ∈ postings, p.amount.isFinite = true) →
        Balance.FoldsTwice m places start postings (Balance.fold m start postings) := by
  obtain ⟨m, hmake, hm, -⟩ := exists_of_make hplaces hprecision
  have hdigits := precision_of_make hmake
  have hfew : m.context.precision ≤ 999999 := by omega
  exact ⟨m, hmake, hdigits,
    fun l r hl hr => ⟨hm.add_roundsTwice hplaces hfew hl hr, hm.subtract_roundsTwice hplaces hfew hl hr⟩,
    fun start postings hstart hpostings => Balance.foldsTwice_fold hm hplaces hfew hstart hpostings⟩

/-- With two places and three digits, nothing and `0.0049996`: rounded to `0.00500` first, the sum lies
just below a half no longer, and comes to the next amount. -/
theorem sums_rounded_twice_belowHalf :
    let zero : Decimal := .finite false 0 (-2)
    let part : Decimal := .finite false 49996 (-7)
    ((0 : Int) ≤ 2 ∧ (2 : Int) ≤ 8) ∧ ((1 : Int) ≤ 3 ∧ (3 : Int) ≤ 999999) ∧
      ∃ m, make (some 2) 3 .halfUp = .ok m ∧
        (∃ s a b, zero.IsSum part s ∧ s.JustBelowHalf 3 (-2) ∧ b = a.awayFromZero ∧
          m.RoundsTwice 2 s a b (m.add zero part)) ∧
        Balance.FoldsTwice m 2 zero [⟨.credit, .posted, part⟩]
          (Balance.fold m zero [⟨.credit, .posted, part⟩]) := by
  intro zero part
  have hplaces : (0 : Int) ≤ 2 ∧ (2 : Int) ≤ 8 := by decide
  have hprecision : (1 : Int) ≤ 3 ∧ (3 : Int) ≤ 999999 := by decide
  obtain ⟨m, hmake, hdigits, hsums, hfolds⟩ := sums_rounded_twice hplaces hprecision
  obtain ⟨⟨s, a, b, hs, h⟩, -⟩ := hsums zero part rfl rfl
  have hvalue : s.toRat = part.toRat := by
    rw [hs.toRat, Decimal.toRat_eq_zero_iff.2 rfl, zero_add]
  -- the sum is the part itself, whose last digit is dropped by the first rounding and makes a half
  have hjust : s.JustBelowHalf 3 (-2) := by
    have hlast : part.lastPlace 3 = -5 := by
      rw [Decimal.lastPlace, Decimal.log_abs_toRat false (-7) (by decide : 49996 ≠ 0)]
      decide
    have hnearest : part.nearest (-2) = 0 := by
      rw [standard.context.nearest_eq rfl]
      decide
    have hpart : part.JustBelowHalf 3 (-2) := by
      refine ⟨by rw [hlast]; decide, ?_⟩
      rw [hlast, hnearest, Decimal.abs_toRat]
      norm_num
    simpa only [Decimal.JustBelowHalf, Decimal.lastPlace, Decimal.nearest, hvalue] using hpart
  refine ⟨hplaces, hprecision, m, hmake, ⟨s, a, b, hs, hjust, h.twice ?_, h⟩,
    hfolds zero _ rfl fun p hp => ?_⟩
  · rw [hdigits]
    exact hjust
  · rw [List.mem_singleton.1 hp]
    rfl

/-- With two places and three digits, `0.0049996` added to nothing is a cent, though the exact sum rounds
to nothing, and so is the balance of a credit of it; and a sum that is too large for an exponent is an
overflow, not an invalid amount. -/
theorem cent_of_less :
    let m : Money := ⟨some 2, { precision := 3, rounding := .halfUp }⟩
    let zero : Decimal := .finite false 0 (-2)
    let part : Decimal := .finite false 49996 (-7)
    let large : Decimal := .finite false 9 999999
    make (some 2) 3 .halfUp = .ok m ∧ zero.IsSum part part ∧ part.RoundsTo (-2) zero ∧
      m.add zero part = .ok (.finite false 1 (-2)) ∧
      Balance.fold m zero [⟨.credit, .posted, part⟩] = .ok (.finite false 1 (-2)) ∧
      m.add large large = .error (.arithmetic .overflow) := by
  intro m zero part large
  have hnearest : part.nearest (-2) = 0 := by
    rw [m.context.nearest_eq rfl]
    decide
  have hrounds := Decimal.roundsTo_nearest false 49996 (-7) (-2)
  rw [hnearest] at hrounds
  have hsum : zero.IsSum part part := {
    finite := rfl
    toRat := by rw [Decimal.toRat_eq_zero_iff.2 rfl, zero_add]
    zero := fun _ => rfl }
  have hfirst : m.context.add zero part = .ok (.finite false 500 (-5)) := by decide +kernel
  have hsecond : m.context.quantize (.finite false 500 (-5)) (.finite false 1 (-2)) =
      .ok (.finite false 1 (-2)) := by decide +kernel
  have hlarge : m.context.add large large = .error .overflow := by decide +kernel
  have hquantum : m.quantum = .ok (.finite false 1 (-2)) := rfl
  have hadd : m.add zero part = .ok (.finite false 1 (-2)) := by
    rw [add, hfirst, settle, quantize_eq_ok]
    exact ⟨_, hquantum, hsecond⟩
  have hstep : Balance.step m zero ⟨.credit, .posted, part⟩ = .ok (.finite false 1 (-2)) := hadd
  refine ⟨rfl, hsum, hrounds, hadd, ?_, ?_⟩
  · rw [Balance.fold, List.foldlM_cons, hstep]
    rfl
  · rw [add, hlarge]
    rfl

end Money

end RewardLedger
