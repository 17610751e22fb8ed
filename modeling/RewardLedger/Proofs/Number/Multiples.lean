import Mathlib.Algebra.Order.Field.Power
import Mathlib.Algebra.Order.Field.Rat
import Mathlib.Algebra.Order.Group.Abs
import Mathlib.Data.Int.Log
import Mathlib.Data.Rat.Floor
import Mathlib.Tactic.Linarith
import Mathlib.Tactic.Positivity
import RewardLedger.Proofs.Number.Sum

/-!
# Sums on any exponents

A multiple of `10 ^ t` can be written on any exponent, with zeros at its end or without. What a sum
of two multiples comes to does not depend on how they are written: both are added exactly
(`DecimalContext.exists_add_eq_fit_of_isMultiple`), a sum that fits the precision on the exponent
`t` is not rounded (`DecimalContext.quantize_fit_of_lt`), and one that does not has too many digits
for this exponent, however it was rounded (`DecimalContext.quantize_fit_of_le`).
-/

namespace RewardLedger

namespace Decimal

/-- The number is a whole multiple of `10 ^ t`, by a number of at most so many digits. -/
def IsMultiple (digits : Nat) (t : Int) (d : Decimal) : Prop :=
  d.isFinite = true ∧ ∃ k : Int, d.toRat = k * (10 : ℚ) ^ t ∧ k.natAbs < tenTo digits

variable {negative : Bool} {c digits : Nat} {e t k : Int} {d : Decimal}

/-- The magnitude of a finite number. -/
theorem abs_toRat (negative : Bool) (c : Nat) (e : Int) :
    |(finite negative c e).toRat| = (c : ℚ) * (10 : ℚ) ^ e := by
  have habs : |(DecimalContext.signed negative c : ℚ)| = (c : ℚ) := by
    cases negative <;> simp [DecimalContext.signed]
  rw [toRat, abs_mul, habs, abs_of_pos (zpow_pos (by norm_num) e)]

/-- The exponent of the first digit says which powers of ten a number reaches. -/
theorem zpow_le_abs_toRat_iff (hc : c ≠ 0) :
    (10 : ℚ) ^ t ≤ |(finite negative c e).toRat| ↔ t ≤ leadingExponent c e := by
  have hten : (0 : ℚ) < (10 : ℚ) ^ e := zpow_pos (by norm_num) e
  have hlog : (10 : ℚ) ^ (t - e) ≤ (c : ℚ) ↔ t - e ≤ (Nat.log 10 c : Int) := by
    rw [← Int.log_natCast (R := ℚ) 10 c]
    exact Int.zpow_le_iff_le_log (by decide) (by exact_mod_cast Nat.pos_of_ne_zero hc)
  rw [abs_toRat, ← div_le_iff₀ hten, ← zpow_sub₀ (by norm_num), hlog, leadingExponent,
    digitCount_eq]
  omega

/-- Two ways to write one magnitude have the first digit at one place. -/
theorem leadingExponent_eq {negative' : Bool} {c' : Nat} {e' : Int} (hc : c ≠ 0) (hc' : c' ≠ 0)
    (h : |(finite negative c e).toRat| = |(finite negative' c' e').toRat|) :
    leadingExponent c e = leadingExponent c' e' := by
  refine le_antisymm ?_ ?_
  · exact (zpow_le_abs_toRat_iff hc').1 (h ▸ (zpow_le_abs_toRat_iff hc).2 le_rfl)
  · exact (zpow_le_abs_toRat_iff hc).1 (h.symm ▸ (zpow_le_abs_toRat_iff hc').2 le_rfl)

/-- A number is zero exactly if its coefficient is. -/
theorem toRat_eq_zero_iff : (finite negative c e).toRat = 0 ↔ c = 0 := by
  have hten : (10 : ℚ) ^ e ≠ 0 := zpow_ne_zero e (by norm_num)
  rw [← abs_eq_zero, abs_toRat, mul_eq_zero, Nat.cast_eq_zero, or_iff_left hten]

/-- The magnitude of a multiple of `10 ^ t`. -/
theorem abs_toRat_of_eq (h : d.toRat = k * (10 : ℚ) ^ t) :
    |d.toRat| = (k.natAbs : ℚ) * (10 : ℚ) ^ t := by
  have hten : (0 : ℚ) < (10 : ℚ) ^ t := zpow_pos (by norm_num) t
  rw [h, abs_mul, abs_of_pos hten, Nat.cast_natAbs, Int.cast_abs]

/-- A multiple of `10 ^ t` and its coefficient differ in zeros at the end. -/
theorem coefficient_eq (h : (finite negative c e).toRat = k * (10 : ℚ) ^ t) :
    c * tenTo (e - t).toNat = k.natAbs * tenTo (t - e).toNat := by
  have hvalue : (c : ℚ) * (10 : ℚ) ^ e = (k.natAbs : ℚ) * (10 : ℚ) ^ t :=
    (abs_toRat negative c e).symm.trans (abs_toRat_of_eq h)
  -- both sides, taken to the smaller exponent
  have hone : (10 : ℚ) ^ ((e - t).toNat : Int) = (10 : ℚ) ^ e * (10 : ℚ) ^ (-min e t) := by
    rw [← zpow_add₀ (by norm_num)]
    congr 1
    omega
  have hother : (10 : ℚ) ^ ((t - e).toNat : Int) = (10 : ℚ) ^ t * (10 : ℚ) ^ (-min e t) := by
    rw [← zpow_add₀ (by norm_num)]
    congr 1
    omega
  have hcast : ((c * 10 ^ (e - t).toNat : Nat) : ℚ) =
      ((k.natAbs * 10 ^ (t - e).toNat : Nat) : ℚ) := by
    push_cast
    rw [← zpow_natCast, ← zpow_natCast, hone, hother, ← mul_assoc, ← mul_assoc, hvalue]
  exact_mod_cast hcast

/-- On a smaller exponent a multiple of `10 ^ t` has zeros at the end. -/
theorem coefficient_eq_mul (h : (finite negative c e).toRat = k * (10 : ℚ) ^ t) (he : e ≤ t) :
    c = k.natAbs * tenTo (t - e).toNat := by
  have hcoefficient := coefficient_eq h
  rw [Int.toNat_of_nonpos (by omega)] at hcoefficient
  exact (Nat.mul_one c).symm.trans hcoefficient

/-- A multiple of `10 ^ t` can be written on this exponent with the sign that it has. -/
theorem toRat_natAbs (h : (finite negative c e).toRat = k * (10 : ℚ) ^ t) :
    (finite negative k.natAbs t).toRat = k * (10 : ℚ) ^ t := by
  have hten : (0 : ℚ) < (10 : ℚ) ^ t := zpow_pos (by norm_num) t
  have hmagnitude : (0 : ℚ) ≤ c * (10 : ℚ) ^ e := by positivity
  suffices hsigned : DecimalContext.signed negative k.natAbs = k by rw [toRat, hsigned]
  cases negative
  · simp only [toRat, DecimalContext.signed, Bool.false_eq_true, if_false, Int.cast_natCast] at h ⊢
    have : (0 : ℚ) ≤ k := nonneg_of_mul_nonneg_left (h ▸ hmagnitude) hten
    have : 0 ≤ k := by exact_mod_cast this
    omega
  · simp only [toRat, DecimalContext.signed, if_true, Int.cast_neg, Int.cast_natCast] at h ⊢
    have : (0 : ℚ) ≤ -k := nonneg_of_mul_nonneg_left (b := (10 : ℚ) ^ t) (by linarith) hten
    have : 0 ≤ -k := by exact_mod_cast this
    omega

/-- Turning the sign round changes neither that a number is a multiple nor its digits. -/
theorem IsMultiple.negate (h : d.IsMultiple digits t) : d.negate.IsMultiple digits t := by
  obtain ⟨hfinite, k, hvalue, hk⟩ := h
  refine ⟨?_, -k, ?_, by omega⟩
  · cases d <;> simp_all [Decimal.negate, isFinite]
  · rw [toRat_negate, hvalue, Int.cast_neg, neg_mul]

/-- The first digit of a multiple that is not zero stands between the last place and the first one
that there are digits for. -/
theorem IsMultiple.leadingExponent (h : (finite negative c e).IsMultiple digits t) (hc : c ≠ 0) :
    t ≤ leadingExponent c e ∧ leadingExponent c e < digits + t := by
  obtain ⟨-, k, hvalue, hk⟩ := h
  have hten : (0 : ℚ) < (10 : ℚ) ^ t := zpow_pos (by norm_num) t
  have habs := abs_toRat_of_eq hvalue
  have hsome : k.natAbs ≠ 0 := by
    intro hzero
    rw [hzero, Nat.cast_zero, zero_mul, abs_eq_zero, toRat_eq_zero_iff] at habs
    exact hc habs
  have hplace : ∀ place : Int, (10 : ℚ) ^ place ≤ |(finite negative c e).toRat| ↔
      place ≤ Decimal.leadingExponent c e := fun _ => zpow_le_abs_toRat_iff hc
  constructor
  · rw [← hplace, habs]
    have : (1 : ℚ) ≤ (k.natAbs : ℚ) := by exact_mod_cast Nat.one_le_iff_ne_zero.2 hsome
    exact le_mul_of_one_le_left hten.le this
  · by_contra hlt
    rw [not_lt, ← hplace, habs, zpow_add₀ (by norm_num), zpow_natCast,
      mul_le_mul_iff_left₀ hten] at hlt
    have : tenTo digits ≤ k.natAbs := by exact_mod_cast hlt
    omega

end Decimal

namespace DecimalContext

variable {ctx : DecimalContext} {negative : Bool} {c n : Nat} {e t k : Int}

/-! ## Rounding -/

/-- Zeros at the end of a number are dropped without rounding it. -/
theorem dropDigits_mul_tenTo {j : Nat} (hn : n ≠ 0) (h : tenTo j ∣ n) :
    ctx.dropDigits negative n j * tenTo j = n := by
  have hj : j ≤ digitCount n := by
    by_contra hlt
    have hsmall : n < tenTo j := (lt_tenTo_iff (by omega)).2 (by omega)
    exact absurd (Nat.le_of_dvd (Nat.pos_of_ne_zero hn) h) (Nat.not_le_of_lt hsmall)
  have hup : ctx.rounding.goesUp negative (n / tenTo j) 0 (tenTo j) = false := by
    have := tenTo_pos j
    cases ctx.rounding <;> simp [Rounding.goesUp] <;> omega
  rw [dropDigits, Rounding.dropDigits, Nat.min_eq_left (by omega), Rounding.divide,
    Nat.mod_eq_zero_of_dvd h, hup, if_neg (by decide), Nat.div_mul_cancel h]

/-- Zeros that are dropped from the end of a number are made up for by its exponent. -/
theorem toRat_of_mul_tenTo {j : Nat} (h : c * tenTo j = n) :
    (Decimal.finite negative c (e + j)).toRat = (Decimal.finite negative n e).toRat := by
  have hsigned : signed negative n = signed negative c * (tenTo j : Int) := by
    rw [← h]
    cases negative <;> simp [signed]
  have hten : ((tenTo j : Nat) : ℚ) = (10 : ℚ) ^ (j : Int) := by
    rw [zpow_natCast]
    exact Nat.cast_pow 10 j
  rw [Decimal.toRat, Decimal.toRat, hsigned, Int.cast_mul, Int.cast_natCast, hten, mul_assoc,
    ← zpow_add₀ (by norm_num), add_comm e]

/-- A number with too many digits loses the last ones, if rounding carries into no other digit. -/
theorem fitPrecision_of_kept {dropped : Nat} (hn : ctx.precision < digitCount n)
    (hdropped : dropped = digitCount n - ctx.precision) (hc : ctx.dropDigits negative n dropped = c)
    (hkept : digitCount c ≤ ctx.precision)
    (hleading : Decimal.leadingExponent c (e + dropped) ≤ ctx.greatest) :
    ctx.fitPrecision negative n e = .ok (.finite negative c (e + dropped)) := by
  subst hc hdropped
  rw [fitPrecision, if_neg (Nat.not_le.2 hn)]
  dsimp only
  rw [if_pos hkept]
  exact if_neg (Int.not_lt.2 hleading)

/-- A multiple of `10 ^ t` that there are digits for is given this exponent without rounding. -/
theorem quantizeFinite_of_lt (hvalue : (Decimal.finite negative c e).toRat = k * (10 : ℚ) ^ t)
    (hp : 0 < ctx.precision) (hk : k.natAbs < tenTo ctx.precision) (htiny : ctx.tiny ≤ t)
    (ht : ctx.precision + t ≤ ctx.greatest + 1) :
    ctx.quantizeFinite negative c e t = .ok (.finite negative k.natAbs t) := by
  have hcoefficient := Decimal.coefficient_eq hvalue
  rw [quantizeFinite, if_neg (by omega)]
  by_cases hc : c = 0
  · have hzero : k.natAbs = 0 := by
      rw [hc, Nat.zero_mul] at hcoefficient
      exact (Nat.mul_eq_zero.1 hcoefficient.symm).resolve_right (tenTo_pos _).ne'
    rw [if_pos hc, hzero, fit_of_fits htiny (by omega) (.inl rfl)]
  · have hleading := Decimal.IsMultiple.leadingExponent ⟨rfl, k, hvalue, hk⟩ hc
    have hdigits : digitCount k.natAbs ≤ ctx.precision := (lt_tenTo_iff hp).1 hk
    have hsame : (if t ≤ e then c * tenTo (e - t).toNat
        else ctx.dropDigits negative c (t - e).toNat) = k.natAbs := by
      by_cases hle : t ≤ e
      · rw [if_pos hle, hcoefficient, Int.toNat_of_nonpos (by omega)]
        exact Nat.mul_one _
      · have hn := Decimal.coefficient_eq_mul hvalue (by omega)
        rw [if_neg hle]
        refine Nat.eq_of_mul_eq_mul_right (tenTo_pos (t - e).toNat) ?_
        rw [dropDigits_mul_tenTo hc (hn ▸ Nat.dvd_mul_left ..), hn]
    have hfirst : Decimal.leadingExponent c e = e + digitCount c - 1 := rfl
    have hlast : Decimal.leadingExponent k.natAbs t = t + digitCount k.natAbs - 1 := rfl
    rw [if_neg hc, if_neg (by omega), if_neg (by omega)]
    simp only [hsame]
    rw [if_neg (by omega)]

/-- A number whose first digit stands too far ahead cannot be given the exponent. -/
theorem quantizeFinite_of_le (hc : c ≠ 0)
    (h : ctx.precision + t ≤ Decimal.leadingExponent c e) :
    ctx.quantizeFinite negative c e t = .error .invalidOperation := by
  have hfirst : Decimal.leadingExponent c e = e + digitCount c - 1 := rfl
  rw [quantizeFinite, if_neg hc, if_pos (by omega : (ctx.precision : Int) < digitCount c + (e - t)),
    ite_self]

/-- A multiple of `10 ^ t` that there are digits for is not rounded to the precision. -/
theorem fit_of_lt (hvalue : (Decimal.finite negative n e).toRat = k * (10 : ℚ) ^ t)
    (hk : k.natAbs < tenTo ctx.precision) (hleast : ctx.least ≤ t)
    (ht : ctx.precision + t ≤ ctx.greatest + 1) :
    ∃ c e', ctx.fit negative n e = .ok (.finite negative c e') ∧
      (Decimal.finite negative c e').toRat = (Decimal.finite negative n e).toRat := by
  unfold fit
  by_cases hn : n = 0
  · refine ⟨0, _, if_pos hn, ?_⟩
    rw [Decimal.toRat_eq_zero_iff.2 rfl, Decimal.toRat_eq_zero_iff.2 hn]
  obtain ⟨hlow, hhigh⟩ := Decimal.IsMultiple.leadingExponent ⟨rfl, k, hvalue, hk⟩ hn
  rw [if_neg hn, if_neg (by omega), if_neg (by omega)]
  by_cases hfits : digitCount n ≤ ctx.precision
  · exact ⟨n, e, fitPrecision_of_le ctx negative e hfits, rfl⟩
  obtain ⟨dropped, hdropped⟩ : ∃ dropped, dropped = digitCount n - ctx.precision := ⟨_, rfl⟩
  have hfirst : Decimal.leadingExponent n e = e + digitCount n - 1 := rfl
  -- the digits beyond the precision stand behind the exponent `t`, so they are zeros
  have hzeros : tenTo dropped ∣ n := by
    have hle : dropped ≤ (t - e).toNat := by omega
    rw [Decimal.coefficient_eq_mul hvalue (by omega)]
    exact (Nat.pow_dvd_pow 10 hle).mul_left _
  have hdrop : ctx.dropDigits negative n dropped * tenTo dropped = n :=
    dropDigits_mul_tenTo hn hzeros
  generalize hdrops : ctx.dropDigits negative n dropped = c at hdrop
  have hvalue' : (Decimal.finite negative c (e + dropped)).toRat =
      (Decimal.finite negative n e).toRat := toRat_of_mul_tenTo hdrop
  have hc : c ≠ 0 := by
    rintro rfl
    exact hn (hdrop.symm.trans (Nat.zero_mul _))
  have hsame : Decimal.leadingExponent c (e + dropped) = Decimal.leadingExponent n e :=
    Decimal.leadingExponent_eq hc hn (congrArg abs hvalue')
  have hfirst' : Decimal.leadingExponent c (e + dropped) = e + dropped + digitCount c - 1 := rfl
  exact ⟨c, e + dropped,
    fitPrecision_of_kept (by omega) hdropped hdrops (by omega) (by omega), hvalue'⟩

/-- A multiple of `10 ^ t` that there is one digit too few for, and which starts with a one, keeps
its first digit when it is rounded to the precision. -/
theorem fit_of_le (hvalue : (Decimal.finite negative n e).toRat = k * (10 : ℚ) ^ t)
    (hp : 0 < ctx.precision) (hk : tenTo ctx.precision ≤ k.natAbs)
    (hk' : k.natAbs < 2 * tenTo ctx.precision) (hleast : ctx.least ≤ ctx.precision + t)
    (ht : ctx.precision + t ≤ ctx.greatest) :
    ∃ c e', ctx.fit negative n e = .ok (.finite negative c e') ∧ c ≠ 0 ∧
      Decimal.leadingExponent c e' = ctx.precision + t := by
  have hpos : 0 < tenTo ctx.precision := tenTo_pos _
  have hn : n ≠ 0 := by
    rintro rfl
    have hcoefficient := Decimal.coefficient_eq hvalue
    rw [Nat.zero_mul] at hcoefficient
    have := (Nat.mul_eq_zero.1 hcoefficient.symm).resolve_right (tenTo_pos _).ne'
    omega
  have hcount : digitCount k.natAbs = ctx.precision + 1 := by
    have hlow : ¬digitCount k.natAbs ≤ ctx.precision := fun h =>
      Nat.not_lt_of_le hk ((lt_tenTo_iff hp).2 h)
    have hhigh : digitCount k.natAbs ≤ ctx.precision + 1 :=
      (lt_tenTo_iff (Nat.succ_pos _)).1 (by rw [tenTo_succ]; omega)
    omega
  have hleading : Decimal.leadingExponent n e = ctx.precision + t := by
    have habs : |(Decimal.finite negative n e).toRat| = |(Decimal.finite false k.natAbs t).toRat| :=
      (Decimal.abs_toRat_of_eq hvalue).trans (Decimal.abs_toRat false k.natAbs t).symm
    have hsame : Decimal.leadingExponent n e = Decimal.leadingExponent k.natAbs t :=
      Decimal.leadingExponent_eq hn (by omega) habs
    rw [hsame, Decimal.leadingExponent, hcount]
    omega
  unfold fit
  rw [if_neg hn, if_neg (by omega), if_neg (by omega)]
  by_cases hfits : digitCount n ≤ ctx.precision
  · exact ⟨n, e, fitPrecision_of_le ctx negative e hfits, hn, hleading⟩
  obtain ⟨dropped, hdropped⟩ : ∃ dropped, dropped = digitCount n - ctx.precision := ⟨_, rfl⟩
  have hfirst : Decimal.leadingExponent n e = e + digitCount n - 1 := rfl
  -- all digits are dropped that stand behind the first ones of the multiple, and one of these
  have hexp : e + dropped = t + 1 := by omega
  have hquot : n / tenTo dropped = k.natAbs / 10 := by
    have hsplit : dropped = (t - e).toNat + 1 := by omega
    rw [Decimal.coefficient_eq_mul hvalue (by omega), hsplit, tenTo_succ]
    exact Nat.mul_comm (tenTo (t - e).toNat) 10 ▸ Nat.mul_div_mul_right _ _ (tenTo_pos _)
  -- what is left of the multiple starts with a one, so that rounding it up carries nowhere
  obtain ⟨q, hq⟩ : ∃ q, ctx.precision = q + 1 := ⟨ctx.precision - 1, by omega⟩
  have hround : ctx.dropDigits negative n dropped = k.natAbs / 10 ∨
      ctx.dropDigits negative n dropped = k.natAbs / 10 + 1 := by
    rw [dropDigits, Rounding.dropDigits, Nat.min_eq_left (by omega), ← hquot]
    exact ctx.rounding.divide_eq_or negative n (tenTo dropped)
  generalize hdrops : ctx.dropDigits negative n dropped = c at hround
  rw [hq, tenTo_succ] at hk hk'
  have hqpos : 0 < tenTo q := tenTo_pos q
  have hkept : digitCount c = ctx.precision := by
    have hlow : ctx.precision ≤ digitCount (k.natAbs / 10) :=
      le_digitCount_div (k := 1) (by omega) hp
    have hhigh : c < tenTo ctx.precision := by
      rw [hq, tenTo_succ]
      omega
    exact le_antisymm ((lt_tenTo_iff hp).1 hhigh) (hlow.trans (digitCount_mono (by omega)))
  have hfirst' : Decimal.leadingExponent c (e + dropped) = e + dropped + digitCount c - 1 := rfl
  exact ⟨c, e + dropped, fitPrecision_of_kept (by omega) hdropped hdrops hkept.le (by omega),
    by omega, by omega⟩

/-! ## Sums -/

/-- The sign that a sum has if it is zero. -/
def signOfZero (ctx : DecimalContext) (negA negB : Bool) : Bool :=
  if negA = negB then negA else ctx.rounding == .floor

variable {negA negB : Bool} {a b : Nat} {expA expB : Int}

/-- Numbers of one sign do not add up to zero, so the direction of rounding says which sign it has. -/
theorem signOfZero_eq (hb : (Decimal.finite negB b expB).toRat ≠ 0)
    (h : (Decimal.finite negA a expA).toRat + (Decimal.finite negB b expB).toRat = 0) :
    ctx.signOfZero negA negB = (ctx.rounding == .floor) := by
  refine if_neg ?_
  rintro rfl
  have hsome : (0 : ℚ) < b := by
    exact_mod_cast Nat.pos_of_ne_zero (mt Decimal.toRat_eq_zero_iff.2 hb)
  have hposA : (0 : ℚ) ≤ a * (10 : ℚ) ^ expA := by positivity
  have hposB : (0 : ℚ) < b * (10 : ℚ) ^ expB := by positivity
  cases negA
  · simp only [Decimal.toRat, signed, Bool.false_eq_true, if_false, Int.cast_natCast] at h
    linarith
  · simp only [Decimal.toRat, signed, if_true, Int.cast_neg, Int.cast_natCast] at h
    linarith

/-- The sum of aligned numbers is the exact one, fitted to the context. -/
theorem exists_addAligned_eq_fit (ctx : DecimalContext) (negA : Bool) (a : Nat) (negB : Bool)
    (b : Nat) (h : expB ≤ expA) : ∃ negative n,
      ctx.addAligned negA a expA negB b expB = ctx.fit negative n expB ∧
      (Decimal.finite negative n expB).toRat =
        (Decimal.finite negA a expA).toRat + (Decimal.finite negB b expB).toRat ∧
      (n = 0 → negative = ctx.signOfZero negA negB) := by
  have hexp : expB + (expA - expB).toNat = expA := by omega
  have haligned : (Decimal.finite negA a expA).toRat =
      (Decimal.finite negA (a * tenTo (expA - expB).toNat) expB).toRat := by
    rw [← toRat_of_mul_tenTo rfl, hexp]
  rw [haligned, addAligned]
  generalize a * tenTo (expA - expB).toNat = a'
  generalize htotal : signed negA a' + signed negB b = total
  refine ⟨if total = 0 then ctx.signOfZero negA negB else decide (total < 0), total.natAbs, rfl,
    ?_, fun hzero => if_pos (Int.natAbs_eq_zero.1 hzero)⟩
  rw [Decimal.toRat, Decimal.toRat, Decimal.toRat, ← add_mul, ← Int.cast_add, htotal]
  by_cases hzero : total = 0
  · rw [hzero, Int.natAbs_zero, signed_zero]
  · rw [if_neg hzero, signed_natAbs]

/-- A number that reaches the last place is not wholly below the digits that rounding looks at. -/
theorem exists_addOrdered_eq_fit (ha : (Decimal.finite negA a expA).IsMultiple ctx.precision t)
    (hb : (Decimal.finite negB b expB).IsMultiple ctx.precision t) (h : expB ≤ expA) :
    ∃ negative n e, ctx.addOrdered negA a expA negB b expB = ctx.fit negative n e ∧
      (Decimal.finite negative n e).toRat =
        (Decimal.finite negA a expA).toRat + (Decimal.finite negB b expB).toRat ∧
      (n = 0 → negative = ctx.signOfZero negA negB) := by
  unfold addOrdered
  by_cases hzero : a = 0
  · rw [if_pos hzero, Decimal.toRat_eq_zero_iff.2 hzero, zero_add]
    refine ⟨_, b, expB, rfl, ?_, fun hb => if_pos hb⟩
    by_cases hb : b = 0
    · rw [Decimal.toRat_eq_zero_iff.2 hb, Decimal.toRat_eq_zero_iff.2 hb]
    · rw [if_neg hb]
  rw [if_neg hzero]
  dsimp only
  generalize hsticky : expA - 1 + (if ctx.precision < digitCount a then 0
    else (digitCount a : Int) - ctx.precision - 1) = sticky
  -- what stands behind all digits that count is replaced by a single unit, unless it is nothing
  by_cases hbelow : expB < expA ∧ Decimal.leadingExponent b expB < sticky
  · -- only a zero stands so far behind
    have hhigh := (ha.leadingExponent hzero).2
    rw [Decimal.leadingExponent] at hhigh
    have hbzero : b = 0 := by
      by_contra hb0
      have hlow := (hb.leadingExponent hb0).1
      split at hsticky <;> omega
    have hle : sticky ≤ expA := by split at hsticky <;> omega
    obtain ⟨negative, n, hadd, hvalue, hsign⟩ :=
      ctx.exists_addAligned_eq_fit negA a negB (min b 1) hle
    refine ⟨negative, n, sticky, by rw [if_pos hbelow, hadd], ?_, hsign⟩
    rw [hvalue, hbzero, Decimal.toRat_eq_zero_iff.2 (Nat.zero_min 1),
      Decimal.toRat_eq_zero_iff.2 rfl]
  · obtain ⟨negative, n, hadd, hvalue, hsign⟩ := ctx.exists_addAligned_eq_fit negA a negB b h
    exact ⟨negative, n, expB, by rw [if_neg hbelow, hadd], hvalue, hsign⟩

/-- The sum of two multiples of one power of ten that there are digits for is the exact one, fitted
to the context. A sum of zero has a sign of its own only if the numbers have one sign. -/
theorem exists_add_eq_fit_of_isMultiple
    (ha : (Decimal.finite negA a expA).IsMultiple ctx.precision t)
    (hb : (Decimal.finite negB b expB).IsMultiple ctx.precision t) :
    ∃ negative n e,
      ctx.add (.finite negA a expA) (.finite negB b expB) = ctx.fit negative n e ∧
      (Decimal.finite negative n e).toRat =
        (Decimal.finite negA a expA).toRat + (Decimal.finite negB b expB).toRat ∧
      (n = 0 → negative = ctx.signOfZero negA negB) := by
  by_cases h : expB ≤ expA
  · obtain ⟨negative, n, e, hadd, hvalue, hsign⟩ := exists_addOrdered_eq_fit ha hb h
    exact ⟨negative, n, e, (if_pos h).trans hadd, hvalue, hsign⟩
  · obtain ⟨negative, n, e, hadd, hvalue, hsign⟩ :=
      exists_addOrdered_eq_fit hb ha (Int.le_of_lt (Int.not_le.1 h))
    refine ⟨negative, n, e, (if_neg h).trans hadd, hvalue.trans (add_comm _ _), fun hn => ?_⟩
    rw [hsign hn, signOfZero, signOfZero]
    by_cases hsame : negA = negB
    · rw [if_pos hsame, if_pos hsame.symm, hsame]
    · rw [if_neg hsame, if_neg (Ne.symm hsame)]

end DecimalContext

end RewardLedger
