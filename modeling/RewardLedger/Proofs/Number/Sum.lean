import Mathlib.Algebra.Field.Rat
import Mathlib.Tactic.Ring
import RewardLedger.Number.DecimalContext
import RewardLedger.Proofs.Number.Digits

/-!
# Exact sums of decimals

The value of a decimal number as a rational number, and why sums on one exponent are exact. A sum
that fits the precision is not rounded. One that does not is rounded to a larger exponent with all
digits of the precision in use, so that it cannot be given the old exponent back
(`DecimalContext.quantizeFinite_of_fit`): whoever adds and then asks for the exponent gets the exact sum or a
failure.
-/

namespace RewardLedger

/-! ## Values -/

/-- The value of a finite number; anything else counts as zero. -/
def Decimal.toRat : Decimal → ℚ
  | finite negative c e => (DecimalContext.signed negative c : ℚ) * (10 : ℚ) ^ e
  | _ => 0

namespace DecimalContext

variable {ctx : DecimalContext} {d s : Decimal} {t : Int}

/-- Turning the sign round negates a signed coefficient. -/
theorem signed_not (negative : Bool) (c : Nat) : signed (!negative) c = -signed negative c := by
  cases negative <;> simp [signed]

/-- The sign of a number and its magnitude make up the number. -/
theorem signed_natAbs (n : Int) : signed (decide (n < 0)) n.natAbs = n := by
  unfold signed
  by_cases h : n < 0
  · rw [if_pos (decide_eq_true h)]
    omega
  · rw [if_neg (by simpa using h)]
    omega

/-- Zero has no sign to speak of. -/
theorem signed_zero (negative : Bool) : signed negative 0 = 0 := by cases negative <;> rfl

end DecimalContext

/-- Turning the sign round negates the value. -/
theorem Decimal.toRat_negate (d : Decimal) : d.negate.toRat = -d.toRat := by
  cases d with
  | finite negative c e =>
    simp only [negate, toRat, DecimalContext.signed_not, Int.cast_neg, neg_mul]
  | infinite _ => rfl
  | nan _ _ _ => rfl

namespace DecimalContext

variable {ctx : DecimalContext} {d s : Decimal} {t : Int}

/-- Rounding to the precision uses all digits of the precision, on a larger exponent. -/
theorem fitPrecision_of_lt {negative : Bool} {n : Nat} (hp : 0 < ctx.precision)
    (hn : ctx.precision < digitCount n) (h : ctx.fitPrecision negative n t = .ok d) :
    ∃ c e, d = .finite negative c e ∧ ctx.precision ≤ digitCount c ∧ c ≠ 0 ∧ t < e := by
  unfold fitPrecision at h
  rw [if_neg (Nat.not_le.2 hn)] at h
  dsimp only at h
  generalize hdropped : digitCount n - ctx.precision = dropped at h
  -- the digits that stay are those of the quotient, or of the number after it
  obtain ⟨hkept, hsome⟩ : ctx.precision ≤ digitCount (ctx.dropDigits negative n dropped) ∧
      ctx.dropDigits negative n dropped ≠ 0 := by
    have hmin : min dropped (digitCount n + 1) = dropped := by omega
    have hquot : ctx.precision ≤ digitCount (n / tenTo dropped) := le_digitCount_div (by omega) hp
    have hpos : 0 < n / tenTo dropped := div_tenTo_pos (by omega) (by omega)
    rw [dropDigits, Rounding.dropDigits, hmin]
    rcases ctx.rounding.divide_eq_or negative n (tenTo dropped) with heq | heq
    · rw [heq]
      exact ⟨hquot, hpos.ne'⟩
    · rw [heq]
      exact ⟨hquot.trans (digitCount_mono (Nat.le_succ _)), Nat.succ_ne_zero _⟩
  generalize ctx.dropDigits negative n dropped = rounded at h hkept hsome
  by_cases hfits : digitCount rounded ≤ ctx.precision
  · rw [if_pos hfits] at h
    dsimp only at h
    split at h
    · cases h
    · cases h
      exact ⟨rounded, t + dropped, rfl, hkept, hsome, by omega⟩
  · -- the carry made one more digit, which is dropped as well
    rw [if_neg hfits] at h
    dsimp only at h
    have hquot : ctx.precision ≤ digitCount (rounded / tenTo 1) := by
      refine le_trans ?_ (le_digitCount_div (p := digitCount rounded - 1) (by omega) (by omega))
      omega
    have hpos : 0 < rounded / tenTo 1 := div_tenTo_pos Nat.one_pos (by omega)
    split at h
    · cases h
    · cases h
      exact ⟨rounded / 10, t + dropped + 1, rfl, hquot, hpos.ne', by omega⟩

/-- Giving a finite number an exponent changes neither that it is finite nor what decides it. -/
theorem quantize_finite (ctx : DecimalContext) (negative : Bool) (n : Nat) (e : Int)
    (negative' : Bool) (n' : Nat) (t : Int) :
    ctx.quantize (.finite negative n e) (.finite negative' n' t) =
      ctx.quantizeFinite negative n e t := rfl

/-- The number needs no more digits than the precision has and no greater exponent than there is. -/
def Fits (ctx : DecimalContext) (n : Nat) (t : Int) : Prop :=
  n = 0 ∨ digitCount n ≤ ctx.precision ∧ Decimal.leadingExponent n t ≤ ctx.greatest

/-- Fitting a number that fits keeps it. -/
theorem fit_of_fits {negative : Bool} {n : Nat} (hleast : ctx.tiny ≤ t) (ht : t ≤ ctx.greatest) (h : ctx.Fits n t) :
    ctx.fit negative n t = .ok (.finite negative n t) := by
  unfold fit
  by_cases hzero : n = 0
  · have hexp : min ctx.greatest (max ctx.tiny t) = t := by omega
    rw [if_pos hzero, hexp, hzero]
  · obtain ⟨hdigits, hleading⟩ := h.resolve_left hzero
    rw [if_neg hzero, if_neg (Int.not_lt.2 hleading), if_neg (by omega),
      fitPrecision_of_le ctx negative t hdigits]

/-- Giving a number that fits the exponent that it has keeps it. -/
theorem quantizeFinite_of_fits {negative : Bool} {n : Nat} (hleast : ctx.tiny ≤ t)
    (ht : t ≤ ctx.greatest) (h : ctx.Fits n t) : ctx.quantizeFinite negative n t t = .ok (.finite negative n t) := by
  rw [quantizeFinite, if_neg (by omega)]
  by_cases hzero : n = 0
  · rw [if_pos hzero, hzero, fit_of_fits hleast ht (.inl rfl)]
  · obtain ⟨hdigits, hleading⟩ := h.resolve_left hzero
    have hone : n * tenTo (t - t).toNat = n := by
      rw [Int.sub_self]
      exact Nat.mul_one n
    rw [if_neg hzero, if_neg (by omega), if_neg (Int.not_lt.2 hleading), if_pos (le_refl t)]
    simp only [hone]
    rw [if_neg (by omega)]

/-- A number that was given an exponent has one that the context allows, and fits the context on it. -/
theorem exists_of_quantizeFinite {negative : Bool} {n : Nat} {e : Int}
    (h : ctx.quantizeFinite negative n e t = .ok d) : ctx.tiny ≤ t ∧ t ≤ ctx.greatest ∧
      ∃ c, d = .finite negative c t ∧ ctx.Fits c t ∧ (n = 0 → c = 0) := by
  unfold quantizeFinite at h
  split at h
  · cases h
  rename_i hrange
  have hleast : ctx.tiny ≤ t := by omega
  have ht : t ≤ ctx.greatest := by omega
  refine ⟨hleast, ht, ?_⟩
  split at h
  · rw [fit_of_fits hleast ht (.inl rfl)] at h
    cases h
    exact ⟨0, rfl, .inl rfl, fun _ => rfl⟩
  rename_i hzero
  split at h
  · cases h
  split at h
  · cases h
  dsimp only at h
  generalize (if t ≤ e then n * tenTo (e - t).toNat
    else ctx.dropDigits negative n (t - e).toNat) = c at h
  split at h
  · cases h
  · rename_i hfits
    cases h
    exact ⟨c, rfl, .inr ⟨by omega, by omega⟩, fun h0 => absurd h0 hzero⟩

/-- A number that is fitted to the context and then given the exponent back that it had is not
rounded. -/
theorem quantizeFinite_of_fit {negative : Bool} {n : Nat} (hp : 0 < ctx.precision)
    (hd : ctx.fit negative n t = .ok d) {negative' : Bool} {n' : Nat}
    (hs : ctx.quantize d (.finite negative' n' t) = .ok s) : s = .finite negative n t := by
  unfold fit at hd
  by_cases hzero : n = 0
  · -- a zero has any exponent that the context allows
    subst hzero
    rw [if_pos rfl] at hd
    cases hd
    rw [quantize_finite] at hs
    obtain ⟨-, -, c, rfl, -, hc⟩ := exists_of_quantizeFinite hs
    rw [hc rfl]
  · rw [if_neg hzero] at hd
    split at hd
    · cases hd
    rename_i hleading
    split at hd
    · -- a number too small for the context has lost its exponent to the smallest one
      rename_i hsmall
      cases hd
      rw [quantize_finite, quantizeFinite, if_pos (.inr hsmall.2)] at hs
      cases hs
    by_cases hfits : digitCount n ≤ ctx.precision
    · rw [fitPrecision_of_le ctx negative t hfits] at hd
      cases hd
      rw [quantize_finite] at hs
      obtain ⟨hleast, ht, -⟩ := exists_of_quantizeFinite hs
      rw [quantizeFinite_of_fits hleast ht (.inr ⟨hfits, Int.not_lt.1 hleading⟩)] at hs
      exact (Except.ok.inj hs).symm
    · -- a rounded number would need more digits than the precision on the old exponent
      obtain ⟨c, e, rfl, hcount, hc, hexp⟩ := fitPrecision_of_lt hp (Nat.lt_of_not_le hfits) hd
      rw [quantize_finite, quantizeFinite] at hs
      split at hs
      · cases hs
      rw [if_pos (by omega)] at hs
      cases hs

/-- The sum of two numbers on one exponent is the exact sum, fitted to the context. If it is zero, it
has the sign of the two numbers, or that in which numbers are rounded if their signs differ. -/
theorem exists_add_eq_fit (ctx : DecimalContext) (negA : Bool) (a : Nat) (negB : Bool) (b : Nat)
    (t : Int) : ∃ negative n,
      ctx.add (.finite negA a t) (.finite negB b t) = ctx.fit negative n t ∧
      signed negative n = signed negA a + signed negB b ∧
      (n = 0 → negative = if negA = negB then negA else ctx.rounding == .floor) := by
  have hadd : ctx.add (.finite negA a t) (.finite negB b t) =
      ctx.addOrdered negA a t negB b t := if_pos (le_refl t)
  rw [hadd, addOrdered]
  by_cases ha : a = 0
  · rw [if_pos ha]
    refine ⟨_, b, rfl, ?_, fun hb => if_pos hb⟩
    rw [ha, signed_zero, Int.zero_add]
    by_cases hb : b = 0
    · rw [hb, signed_zero, signed_zero]
    · rw [if_neg hb]
  · have hnot : ¬(t < t ∧ Decimal.leadingExponent b t < t - 1 +
        (if ctx.precision < digitCount a then 0 else (digitCount a : Int) - ctx.precision - 1)) :=
      fun hlt => absurd hlt.1 (lt_irrefl t)
    have hone : a * tenTo (t - t).toNat = a := by
      rw [Int.sub_self]
      exact Nat.mul_one a
    rw [if_neg ha, if_neg hnot, addAligned, hone]
    refine ⟨_, _, rfl, ?_, fun hn => if_pos (Int.natAbs_eq_zero.1 hn)⟩
    generalize signed negA a + signed negB b = total
    by_cases htotal : total = 0
    · rw [htotal]
      exact signed_zero _
    · rw [if_neg htotal]
      exact signed_natAbs total

/-- Signed coefficients are equal only if the coefficients are, and the signs unless they are zero. -/
theorem eq_of_signed_eq {negA negB : Bool} {a b : Nat} (h : signed negA a = signed negB b) :
    a = b ∧ (a = 0 ∨ negA = negB) := by
  cases negA <;> cases negB <;>
    simp only [signed, Bool.false_eq_true, if_true, if_false] at h <;>
    simp only [reduceCtorEq, or_false, or_true, and_true] <;> omega

/-- Numbers of the same sign add up to nothing only if both are zero. -/
theorem eq_zero_of_signed_add {negative : Bool} {a b : Nat}
    (h : signed negative a + signed negative b = 0) : a = 0 ∧ b = 0 := by
  cases negative <;> simp only [signed, Bool.false_eq_true, if_true, if_false] at h <;> omega

end DecimalContext

end RewardLedger
