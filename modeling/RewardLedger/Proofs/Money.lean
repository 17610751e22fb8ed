import Mathlib.Algebra.Order.Field.Power
import Mathlib.Algebra.Order.Field.Rat
import Mathlib.Data.Int.Order.Basic
import Mathlib.Data.Nat.Cast.Order.Ring
import Mathlib.Order.Basic
import RewardLedger.Money
import RewardLedger.Proofs.Number.DecimalText
import RewardLedger.Proofs.Number.Sum

/-!
# Settled amounts

An amount that was rounded to the scale once is not changed by rounding it again
(`Money.quantize_self`), so an amount that was accepted is accepted again as it is
(`Money.settled_of_positive`). This is what lets an amount pass unchanged from a request to a reward
and from a reward to its entries, each of which checks it anew.

Amounts are all on the exponent of the smallest one (`Money.OnScale`), so their sums and differences
are exact (`Money.toRat_of_add`): a sum that does not fit the precision is refused, not rounded.
-/

namespace RewardLedger

namespace DecimalContext

variable {ctx : DecimalContext} {negative : Bool} {c : Nat} {e target : Int} {d : Decimal}

/-- Giving a finite number another exponent is invalid, or it succeeds. -/
theorem quantizeFinite_error {cause : ArithmeticFault}
    (h : ctx.quantizeFinite negative c e target = .error cause) : cause = .invalidOperation := by
  unfold quantizeFinite at h
  split at h
  · cases h
    rfl
  split at h
  · rw [fit, if_pos rfl] at h
    cases h
  split at h
  · cases h
    rfl
  split at h
  · cases h
    rfl
  dsimp only at h
  generalize (if target ≤ e then c * tenTo (e - target).toNat
    else ctx.dropDigits negative c (target - e).toNat) = c' at h
  split at h
  · cases h
    rfl
  · cases h

end DecimalContext

namespace Money

variable {m : Money} {d a : Decimal}

/-- The smallest amount is a finite number whose exponent can be represented. -/
theorem exists_of_quantum (h : m.quantum = .ok d) :
    ∃ c e, d = .finite false c e ∧ Decimal.leastExponent ≤ e := by
  unfold quantum at h
  cases hs : m.scale with
  | none =>
    rw [hs] at h
    cases h
  | some places =>
    rw [hs] at h
    cases hp : DecimalContext.standard.powerOfTen (-places) with
    | error cause =>
      simp [hp, Except.mapError] at h
    | ok x =>
      simp only [hp, Except.mapError, Except.ok.injEq] at h
      subst h
      unfold DecimalContext.powerOfTen at hp
      split at hp
      · cases hp
      rename_i hrange
      have hplaces : Decimal.leastExponent ≤ -places := by
        simp only [DecimalContext.standard, Decimal.leastExponent] at hrange ⊢
        omega
      -- one digit fits any precision, so only the exponent can go out of range
      unfold DecimalContext.fit at hp
      rw [if_neg (by decide)] at hp
      split at hp
      · cases hp
      split at hp
      · cases hp
        exact ⟨_, _, rfl, by decide⟩
      rw [DecimalContext.fitPrecision_of_le _ _ _ (by decide)] at hp
      cases hp
      exact ⟨_, _, rfl, hplaces⟩

/-- Rounding succeeds exactly as giving the exponent of the smallest amount does. -/
theorem quantize_eq_ok : m.quantize d = .ok a ↔
    ∃ q, m.quantum = .ok q ∧ m.context.quantize d q = .ok a := by
  unfold quantize
  -- the smallest amount comes first, and then rounding to its exponent
  cases hq : m.quantum with
  | error e =>
    simp only [bind, Except.bind]
    constructor
    · intro h
      split at h <;> simp_all
    · rintro ⟨q, hq', -⟩
      cases hq'
  | ok q =>
    simp only [bind, Except.bind]
    cases hc : m.context.quantize d q with
    | error cause =>
      constructor
      · intro h
        simp only [Except.mapError] at h
        split at h <;> simp_all
      · rintro ⟨q', hq', hc'⟩
        cases hq'
        rw [hc] at hc'
        cases hc'
    | ok x =>
      constructor
      · intro h
        cases h
        exact ⟨q, rfl, hc⟩
      · rintro ⟨q', hq', hc'⟩
        cases hq'
        cases hc.symm.trans hc'
        rfl

/-- A finite number that cannot be rounded is out of range, unless there is no smallest amount. -/
theorem quantize_error {e : Failure} (h : m.quantize d = .error e) (hd : d.isFinite = true) :
    m.quantum = .error e ∨ e = .fault (.amountRange d) := by
  unfold quantize at h
  cases hq : m.quantum with
  | error cause =>
    rw [hq] at h
    simp only [bind, Except.bind] at h
    split at h
    · cases h
      exact .inr rfl
    · cases h
      exact .inl rfl
  | ok q =>
    obtain ⟨one, target, rfl, -⟩ := exists_of_quantum hq
    cases d with
    | infinite _ | nan _ _ _ => cases hd
    | finite negative c x =>
      rw [hq] at h
      simp only [bind, Except.bind] at h
      cases hc : m.context.quantize (.finite negative c x) (.finite false one target) with
      | ok a =>
        rw [hc] at h
        cases h
      | error cause =>
        have hquantize := hc
        rw [DecimalContext.quantize_finite] at hquantize
        rw [hc, DecimalContext.quantizeFinite_error hquantize] at h
        cases h
        exact .inr rfl

/-- The exponent is that of the smallest amount, which can be represented and which the context allows,
and the coefficient fits the context on it. -/
structure FitsScale (m : Money) (n : Nat) (t : Int) : Prop where
  /-- The exponent is that of the smallest amount. -/
  quantum : ∃ c, m.quantum = .ok (.finite false c t)
  /-- The exponent can be represented. -/
  least_le : Decimal.leastExponent ≤ t
  /-- The exponent is not too small for the context. -/
  tiny_le : m.context.tiny ≤ t
  /-- The exponent is not too large for the context. -/
  le_greatest : t ≤ m.context.greatest
  /-- The coefficient fits the context on the exponent. -/
  fits : m.context.Fits n t

/-- What a finite number was rounded to has its sign and fits the scale, and it is zero if the number
was. -/
theorem exists_of_quantize (h : m.quantize d = .ok a) (hd : d.isFinite = true) :
    ∃ negative n e n' t, d = .finite negative n e ∧ a = .finite negative n' t ∧
      m.FitsScale n' t ∧ (n = 0 → n' = 0) := by
  obtain ⟨q, hq, hc⟩ := quantize_eq_ok.1 h
  obtain ⟨c, t, rfl, hleast⟩ := exists_of_quantum hq
  cases d with
  | infinite _ | nan _ _ _ => cases hd
  | finite negative n e =>
    rw [DecimalContext.quantize_finite] at hc
    obtain ⟨htiny, ht, n', rfl, hfits, hzero⟩ := DecimalContext.exists_of_quantizeFinite hc
    exact ⟨negative, n, e, n', t, rfl, rfl, ⟨⟨c, hq⟩, hleast, htiny, ht, hfits⟩, hzero⟩

/-- A finite number that was rounded to the scale is finite, and not changed by rounding it again. -/
theorem quantize_self (h : m.quantize d = .ok a) (hd : d.isFinite = true) :
    a.isFinite = true ∧ m.quantize a = .ok a := by
  obtain ⟨negative, -, -, n, t, -, rfl, hfits, -⟩ := exists_of_quantize h hd
  obtain ⟨c, hq⟩ := hfits.quantum
  exact ⟨rfl, quantize_eq_ok.2 ⟨_, hq,
    DecimalContext.quantizeFinite_of_fits hfits.tiny_le hfits.le_greatest hfits.fits⟩⟩

/-- The amount is accepted as it is. -/
def Settled (m : Money) (a : Decimal) : Prop := m.positive (.decimal a) = .ok a

/-- What a value that is read as an amount denotes is a finite number. -/
theorem exists_of_parse {v : Value} (h : m.parse v = .ok a) :
    ∃ d, d.isFinite = true ∧ m.quantize d = .ok a := by
  unfold parse at h
  cases hr : readNumber v with
  | error e =>
    simp only [hr, bind, Except.bind] at h
    cases h
  | ok d =>
    by_cases hf : d.isFinite = true
    · simp only [hr, bind, Except.bind, hf, if_true] at h
      exact ⟨d, hf, h⟩
    · simp [hr, bind, Except.bind, hf] at h

/-- What a value that is read as an amount denotes can be represented, unless the context allows for
more than can be. -/
theorem inExponentRange_of_parse (hm : m.context.greatest ≤ Decimal.greatestExponent) {v : Value}
    (h : m.parse v = .ok a) :
    ∃ negative c t, a = .finite negative c t ∧ Decimal.inExponentRange c t = true := by
  obtain ⟨d, hd, hq⟩ := exists_of_parse h
  obtain ⟨negative, -, -, n, t, -, rfl, hfits, -⟩ := exists_of_quantize hq hd
  refine ⟨negative, n, t, rfl, ?_⟩
  rw [Decimal.inExponentRange, Bool.and_eq_true, decide_eq_true_eq]
  refine ⟨hfits.least_le, ?_⟩
  split
  · exact decide_eq_true (hfits.le_greatest.trans hm)
  · next hn => exact decide_eq_true ((hfits.fits.resolve_left hn).2.trans hm)

/-- What a value that is read as an amount denotes is what its text denotes, too. -/
theorem ofText?_text_of_parse (hm : m.context.greatest ≤ Decimal.greatestExponent) {v : Value}
    (h : m.parse v = .ok a) : Decimal.ofText? a.text = some a := by
  obtain ⟨negative, c, t, rfl, hrange⟩ := inExponentRange_of_parse hm h
  exact Decimal.ofText?_text hrange

/-- A value is accepted as an amount if it is read as one that is greater than zero. -/
theorem positive_eq_ok {v : Value} :
    m.positive v = .ok a ↔ m.parse v = .ok a ∧ a.isPositive = true := by
  unfold positive
  cases m.parse v with
  | error e => simp [bind, Except.bind]
  | ok x =>
    simp only [bind, Except.bind, Except.ok.injEq]
    constructor
    · intro h
      split at h
      · next hx =>
        cases h
        exact ⟨rfl, hx⟩
      · cases h
    · rintro ⟨rfl, hx⟩
      exact if_pos hx

/-- What a value that is accepted as an amount denotes is a finite number. -/
theorem exists_of_positive {v : Value} (h : m.positive v = .ok a) :
    a.isPositive = true ∧ ∃ d, d.isFinite = true ∧ m.quantize d = .ok a := by
  obtain ⟨hparse, hpositive⟩ := positive_eq_ok.1 h
  exact ⟨hpositive, exists_of_parse hparse⟩

/-- A finite positive number that rounding does not change is accepted as it is. -/
theorem settled_of_quantize (hp : a.isPositive = true) (hf : a.isFinite = true)
    (hq : m.quantize a = .ok a) : m.Settled a := by
  simp [Settled, positive, parse, readNumber, bind, Except.bind, hf, hq, hp]

/-- An amount that was accepted is accepted again as it is. -/
theorem settled_of_positive {v : Value} (h : m.positive v = .ok a) :
    m.Settled a ∧ a.isFinite = true := by
  obtain ⟨hp, d, hd, hq⟩ := exists_of_positive h
  obtain ⟨hf, hself⟩ := quantize_self hq hd
  exact ⟨settled_of_quantize hp hf hself, hf⟩

/-- Only an amount itself can be accepted in the place of a settled one. -/
theorem Settled.eq_of_positive {b : Decimal} (h : m.Settled a)
    (hb : m.positive (.decimal a) = .ok b) : b = a :=
  Except.ok.inj (hb.symm.trans h)

/-! ## Exact sums -/

/-- The number has the exponent of the smallest amount. -/
def OnScale (m : Money) (d : Decimal) : Prop :=
  ∃ c t, m.quantum = .ok (.finite false c t) ∧ ∃ negative n, d = .finite negative n t

/-- A number on the scale is finite. -/
theorem OnScale.isFinite (h : m.OnScale d) : d.isFinite = true := by
  obtain ⟨-, -, -, -, -, rfl⟩ := h
  rfl

/-- What was rounded to the scale is on it. -/
theorem onScale_of_quantize (h : m.quantize d = .ok a) (hd : d.isFinite = true) :
    m.OnScale a := by
  obtain ⟨negative, -, -, n, t, -, rfl, hfits, -⟩ := exists_of_quantize h hd
  obtain ⟨c, hq⟩ := hfits.quantum
  exact ⟨c, t, hq, negative, n, rfl⟩

/-- A settled amount is on the scale. -/
theorem Settled.onScale (h : m.Settled a) : m.OnScale a := by
  obtain ⟨-, d, hd, hq⟩ := exists_of_positive h
  exact onScale_of_quantize hq hd

/-- A settled amount is greater than zero. -/
theorem Settled.toRat_pos (h : m.Settled a) : 0 < a.toRat := by
  obtain ⟨-, t, -, negative, n, rfl⟩ := h.onScale
  have hpos := (exists_of_positive h).1
  simp only [Decimal.isPositive, Bool.and_eq_true, Bool.not_eq_true', bne_iff_ne] at hpos
  obtain ⟨rfl, hn⟩ := hpos
  have hsigned : (0 : ℚ) < (DecimalContext.signed false n : ℚ) := by
    rw [DecimalContext.signed, if_neg (by decide), Int.cast_natCast]
    exact Nat.cast_pos.2 (Nat.pos_of_ne_zero hn)
  exact mul_pos hsigned (zpow_pos (by decide) t)

/-- A settled amount is a finite number that fits the precision and the exponents. -/
theorem Settled.fits (h : m.Settled a) :
    ∃ c t, a = .finite false c t ∧ c ≠ 0 ∧ digitCount c ≤ m.context.precision ∧
      Decimal.leastExponent ≤ t ∧ Decimal.leadingExponent c t ≤ m.context.greatest := by
  obtain ⟨hpos, d, hd, hq⟩ := exists_of_positive h
  obtain ⟨negative, -, -, n, t, -, rfl, hfits, -⟩ := exists_of_quantize hq hd
  simp only [Decimal.isPositive, Bool.and_eq_true, Bool.not_eq_true', bne_iff_ne] at hpos
  obtain ⟨rfl, hn⟩ := hpos
  obtain ⟨hdigits, hleading⟩ := hfits.fits.resolve_left hn
  exact ⟨n, t, rfl, hn, hdigits, hfits.least_le, hleading⟩

/-- Where there is a settled amount, numbers may have digits. -/
theorem Settled.precision_pos (h : m.Settled a) : 0 < m.context.precision := by
  obtain ⟨c, -, -, -, hdigits, -⟩ := h.fits
  exact Nat.lt_of_lt_of_le (digitCount_pos c) hdigits

/-- A settled amount can be represented, unless the context allows for more than can be. -/
theorem Settled.inExponentRange (h : m.Settled a)
    (hm : m.context.greatest ≤ Decimal.greatestExponent) :
    ∃ c t, a = .finite false c t ∧ Decimal.inExponentRange c t = true := by
  obtain ⟨c, t, rfl, hc, -, hleast, hleading⟩ := h.fits
  refine ⟨c, t, rfl, ?_⟩
  rw [Decimal.inExponentRange, if_neg hc, Bool.and_eq_true, decide_eq_true_eq, decide_eq_true_eq]
  exact ⟨hleast, hleading.trans hm⟩

/-- The amount zero is on the scale and has the value zero. -/
theorem onScale_of_zero (h : m.zero = .ok a) : m.OnScale a ∧ a.toRat = 0 := by
  refine ⟨onScale_of_quantize h rfl, ?_⟩
  obtain ⟨negative, n, e, n', t, heq, rfl, -, hzero⟩ := exists_of_quantize h rfl
  cases heq
  rw [hzero rfl, Decimal.toRat, DecimalContext.signed_zero, Int.cast_zero, zero_mul]

/-- The sum of two numbers on the scale is the exact one, fitted to the context. -/
theorem exists_fit_of_onScale {b : Decimal} (ha : m.OnScale a) (hb : m.OnScale b) :
    ∃ c t negative n, m.quantum = .ok (.finite false c t) ∧
      m.context.add a b = m.context.fit negative n t ∧
      (Decimal.finite negative n t).toRat = a.toRat + b.toRat := by
  obtain ⟨c, t, hquantum, negA, nA, rfl⟩ := ha
  obtain ⟨c', t', hquantum', negB, nB, rfl⟩ := hb
  cases hquantum.symm.trans hquantum'
  obtain ⟨negative, n, hadd, hvalue, -⟩ := m.context.exists_add_eq_fit negA nA negB nB t
  refine ⟨c, t, negative, n, hquantum, hadd, ?_⟩
  rw [Decimal.toRat, Decimal.toRat, Decimal.toRat, hvalue, Int.cast_add, add_mul]

/-- A sum of two numbers on the scale that is fitted to the context and then brought to the scale is
not rounded. -/
theorem eq_of_settle_fit {c n : Nat} {t : Int} {negative : Bool} {s : Decimal}
    (hp : 0 < m.context.precision) (hquantum : m.quantum = .ok (.finite false c t))
    (h : m.settle (m.context.fit negative n t) = .ok s) : s = .finite negative n t := by
  cases hfit : m.context.fit negative n t with
  | error cause =>
    rw [hfit] at h
    cases h
  | ok d =>
    rw [hfit] at h
    obtain ⟨q, hq, hc⟩ := quantize_eq_ok.1 h
    cases hquantum.symm.trans hq
    exact DecimalContext.quantizeFinite_of_fit hp hfit hc

/-- The sum of two numbers on the scale is the exact one, on the scale, or there is none. -/
theorem toRat_of_settle {b s : Decimal} (hp : 0 < m.context.precision) (ha : m.OnScale a)
    (hb : m.OnScale b) (h : m.settle (m.context.add a b) = .ok s) :
    m.OnScale s ∧ s.toRat = a.toRat + b.toRat := by
  obtain ⟨c, t, negative, n, hquantum, hadd, hvalue⟩ := exists_fit_of_onScale ha hb
  rw [hadd] at h
  obtain rfl := eq_of_settle_fit hp hquantum h
  exact ⟨⟨c, t, hquantum, negative, n, rfl⟩, hvalue⟩

/-- If something is added and the sum is zero, its sign is that in which numbers are rounded. -/
theorem negative_of_settle {b : Decimal} {negative : Bool} {t : Int}
    (hp : 0 < m.context.precision) (ha : m.OnScale a) (hb : m.OnScale b) (hne : b.toRat ≠ 0)
    (h : m.settle (m.context.add a b) = .ok (.finite negative 0 t)) :
    negative = (m.context.rounding == .floor) := by
  obtain ⟨c, t', hquantum, negA, nA, rfl⟩ := ha
  obtain ⟨c', t'', hquantum', negB, nB, rfl⟩ := hb
  cases hquantum.symm.trans hquantum'
  obtain ⟨negative', n, hadd, hvalue, hsign⟩ := m.context.exists_add_eq_fit negA nA negB nB t'
  rw [hadd] at h
  cases eq_of_settle_fit hp hquantum h
  rw [DecimalContext.signed_zero] at hvalue
  have hsigns : negA ≠ negB := by
    rintro rfl
    obtain ⟨-, rfl⟩ := DecimalContext.eq_zero_of_signed_add hvalue.symm
    rw [Decimal.toRat, DecimalContext.signed_zero, Int.cast_zero, zero_mul] at hne
    exact hne rfl
  exact (hsign rfl).trans (if_neg hsigns)

/-- Numbers on the scale with the same value are the same, unless they are zeros with different
signs. -/
theorem OnScale.eq_or_zero {b : Decimal} (ha : m.OnScale a) (hb : m.OnScale b)
    (h : a.toRat = b.toRat) :
    a = b ∨ ∃ negA negB t, a = .finite negA 0 t ∧ b = .finite negB 0 t := by
  obtain ⟨c, t, hquantum, negA, nA, rfl⟩ := ha
  obtain ⟨c', t', hquantum', negB, nB, rfl⟩ := hb
  cases hquantum.symm.trans hquantum'
  have hten : (10 : ℚ) ^ t ≠ 0 := (zpow_pos (by decide) t).ne'
  have hsigned : DecimalContext.signed negA nA = DecimalContext.signed negB nB :=
    Int.cast_injective (mul_right_cancel₀ hten h)
  obtain ⟨rfl, rfl | rfl⟩ := DecimalContext.eq_of_signed_eq hsigned
  · exact .inr ⟨negA, negB, t, rfl, rfl⟩
  · exact .inl rfl

/-- A difference of two numbers on the scale is the sum with the second one turned round. -/
theorem subtract_eq_settle {b : Decimal} (ha : m.OnScale a) (hb : m.OnScale b) :
    m.OnScale b.negate ∧ m.subtract a b = m.settle (m.context.add a b.negate) := by
  obtain ⟨-, t, -, negA, nA, rfl⟩ := ha
  obtain ⟨c, t', hq, negB, nB, rfl⟩ := hb
  exact ⟨⟨c, t', hq, !negB, nB, rfl⟩, rfl⟩

/-- The sum of a number on the scale and an amount is the exact one, on the scale. -/
theorem toRat_of_add {b s : Decimal} (ha : m.OnScale a) (hb : m.Settled b)
    (h : m.add a b = .ok s) : m.OnScale s ∧ s.toRat = a.toRat + b.toRat :=
  toRat_of_settle hb.precision_pos ha hb.onScale h

/-- The difference of a number on the scale and an amount is the exact one, on the scale. -/
theorem toRat_of_subtract {b s : Decimal} (ha : m.OnScale a) (hb : m.Settled b)
    (h : m.subtract a b = .ok s) : m.OnScale s ∧ s.toRat = a.toRat - b.toRat := by
  obtain ⟨hnegate, heq⟩ := subtract_eq_settle ha hb.onScale
  rw [sub_eq_add_neg, ← Decimal.toRat_negate]
  exact toRat_of_settle hb.precision_pos ha hnegate (heq.symm.trans h)

end Money

end RewardLedger
