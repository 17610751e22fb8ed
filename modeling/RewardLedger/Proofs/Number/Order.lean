import Mathlib.Algebra.Order.Field.Power
import Mathlib.Algebra.Order.Ring.Rat
import Mathlib.Data.Int.ConditionallyCompleteOrder
import Mathlib.Data.Sign.Basic
import Mathlib.Order.Compare
import Mathlib.Tactic.NormNum
import Mathlib.Tactic.Ring
import RewardLedger.Number.Order

/-!
# Numbers stand in the order of their values

Numbers of all kinds are compared without computing large powers where the signs or the leading bits
settle the matter. That short cut is sound (`Scaled.abs_toRat_lt_of_dominates`), so the comparison
finds the order of the values as rational numbers (`Scaled.compareValues_compares`), and two numbers
equal exactly if their values are (`Scaled.compareValues_eq_iff`). Having the same value is
therefore symmetric and transitive across whole numbers, binary floating point numbers and decimal
numbers (`Number.sameValue_iff`).
-/

namespace RewardLedger

namespace Scaled

variable {x y : Scaled}

/-- The value of the number. -/
def toRat (x : Scaled) : ℚ := x.coefficient * (2 ^ x.twos * 10 ^ x.tens)

/-- Bringing the exponents down keeps the value. -/
theorem toRat_eq_atExponents {twos tens : Int} (h2 : twos ≤ x.twos) (h10 : tens ≤ x.tens) :
    x.toRat = x.atExponents twos tens * (2 ^ twos * 10 ^ tens) := by
  have e2 : (2 : ℚ) ^ x.twos = 2 ^ (x.twos - twos).toNat * 2 ^ twos := by
    rw [← zpow_natCast, ← zpow_add₀ two_ne_zero]
    congr 1
    omega
  have e10 : (10 : ℚ) ^ x.tens = 10 ^ (x.tens - tens).toNat * 10 ^ tens := by
    rw [← zpow_natCast, ← zpow_add₀ (by norm_num : (10 : ℚ) ≠ 0)]
    congr 1
    omega
  have hnat : ∀ k, twoTo k = 2 ^ k ∧ tenTo k = 10 ^ k := fun k => ⟨rfl, rfl⟩
  rw [toRat, atExponents, e2, e10, (hnat _).1, (hnat _).2]
  push_cast
  ring

/-- Numbers brought to common exponents stand in the order of their values. -/
theorem compareExactly_compares (x y : Scaled) :
    (x.compareExactly y).Compares x.toRat y.toRat := by
  have hpos : (0 : ℚ) < 2 ^ min x.twos y.twos * 10 ^ min x.tens y.tens := by positivity
  rw [compareExactly,
    toRat_eq_atExponents (min_le_left x.twos y.twos) (min_le_left x.tens y.tens),
    toRat_eq_atExponents (min_le_right x.twos y.twos) (min_le_right x.tens y.tens)]
  refine (Int.cast_strictMono.mul_const hpos).compares.2 ?_
  rw [← cmp_eq_compare]
  exact cmp_compares _ _

/-- The magnitude of a number is that of its coefficient on its exponents. -/
theorem abs_toRat (x : Scaled) :
    |x.toRat| = (x.coefficient.natAbs : ℚ) * (2 ^ x.twos * 10 ^ x.tens) := by
  rw [toRat, abs_mul, abs_of_pos (by positivity : (0 : ℚ) < 2 ^ x.twos * 10 ^ x.tens),
    Nat.cast_natAbs, Int.cast_abs]

/-- The leading bit of a number other than zero bounds its magnitude from below. -/
theorem le_abs_toRat (hx : x.coefficient ≠ 0) :
    (2 : ℚ) ^ x.leadingBit * 10 ^ x.tens ≤ |x.toRat| := by
  have hlog : ((2 ^ Nat.log2 x.coefficient.natAbs : Nat) : ℚ) ≤ x.coefficient.natAbs := by
    exact_mod_cast Nat.log2_self_le (Int.natAbs_ne_zero.2 hx)
  calc (2 : ℚ) ^ x.leadingBit * 10 ^ x.tens
      = ((2 ^ Nat.log2 x.coefficient.natAbs : Nat) : ℚ) * (2 ^ x.twos * 10 ^ x.tens) := by
        rw [leadingBit, zpow_add₀ two_ne_zero, zpow_natCast]
        push_cast
        ring
    _ ≤ x.coefficient.natAbs * (2 ^ x.twos * 10 ^ x.tens) := by gcongr
    _ = |x.toRat| := x.abs_toRat.symm

/-- The leading bit of a number bounds its magnitude from above. -/
theorem abs_toRat_lt (x : Scaled) : |x.toRat| < (2 : ℚ) ^ (x.leadingBit + 1) * 10 ^ x.tens := by
  have hlog : (x.coefficient.natAbs : ℚ) < ((2 ^ (Nat.log2 x.coefficient.natAbs + 1) : Nat) : ℚ) := by
    exact_mod_cast Nat.lt_log2_self
  calc |x.toRat| = x.coefficient.natAbs * (2 ^ x.twos * 10 ^ x.tens) := x.abs_toRat
    _ < ((2 ^ (Nat.log2 x.coefficient.natAbs + 1) : Nat) : ℚ) * (2 ^ x.twos * 10 ^ x.tens) := by
        gcongr
    _ = (2 : ℚ) ^ (x.leadingBit + 1) * 10 ^ x.tens := by
        rw [leadingBit, zpow_add₀ two_ne_zero, zpow_add₀ two_ne_zero, zpow_natCast]
        push_cast
        ring

/-- A number that dominates another one is greater in magnitude: each factor of ten is worth three
bits at least. -/
theorem abs_toRat_lt_of_dominates (h : x.dominates y = true) (hx : x.coefficient ≠ 0) :
    |y.toRat| < |x.toRat| := by
  simp only [dominates, Bool.and_eq_true, decide_eq_true_eq] at h
  obtain ⟨htens, hbits⟩ := h
  obtain ⟨k, hk⟩ : ∃ k : Nat, x.tens = y.tens + k := ⟨(x.tens - y.tens).toNat, by omega⟩
  have hten : (2 : ℚ) ^ (3 * k) ≤ 10 ^ k := by
    rw [pow_mul]
    gcongr
    norm_num
  calc |y.toRat| < (2 : ℚ) ^ (y.leadingBit + 1) * 10 ^ y.tens := y.abs_toRat_lt
    _ ≤ (2 : ℚ) ^ (x.leadingBit + (3 * k : Nat)) * 10 ^ y.tens := by
        have hle : y.leadingBit + 1 ≤ x.leadingBit + (3 * k : Nat) := by omega
        have hpow := zpow_le_zpow_right₀ (by norm_num : (1 : ℚ) ≤ 2) hle
        gcongr
    _ = (2 : ℚ) ^ x.leadingBit * (2 ^ (3 * k) * 10 ^ y.tens) := by
        rw [zpow_add₀ two_ne_zero, zpow_natCast]
        ring
    _ ≤ (2 : ℚ) ^ x.leadingBit * (10 ^ k * 10 ^ y.tens) := by gcongr
    _ = (2 : ℚ) ^ x.leadingBit * 10 ^ x.tens := by
        rw [hk, zpow_add₀ (by norm_num : (10 : ℚ) ≠ 0), zpow_natCast]
        ring
    _ ≤ |x.toRat| := le_abs_toRat hx

/-- A number has the sign of its coefficient. -/
theorem sign_toRat (x : Scaled) : SignType.sign x.toRat = SignType.sign x.coefficient := by
  have hpos : (0 : ℚ) < 2 ^ x.twos * 10 ^ x.tens := by positivity
  rw [toRat, sign_mul, sign_pos hpos, mul_one]
  rcases lt_trichotomy x.coefficient 0 with h | h | h
  · rw [sign_neg h, sign_neg (Int.cast_lt_zero.2 h)]
  · rw [h, Int.cast_zero, sign_zero, sign_zero]
  · rw [sign_pos h, sign_pos (Int.cast_pos.2 h)]

/-- The sign of the coefficient grows with the value. -/
theorem sign_le_sign (h : x.toRat ≤ y.toRat) : x.coefficient.sign ≤ y.coefficient.sign := by
  have hs := SignType.sign.monotone h
  rw [sign_toRat, sign_toRat] at hs
  have hcast : ∀ {a b : SignType}, a ≤ b → (a : Int) ≤ b := by decide
  rw [Int.sign_eq_sign, Int.sign_eq_sign]
  exact hcast hs

/-- A number is negative if its coefficient is. -/
theorem toRat_neg_iff : x.toRat < 0 ↔ x.coefficient < 0 := by
  rw [← sign_eq_neg_one_iff, sign_toRat, sign_eq_neg_one_iff]

/-- Of two numbers of one sign, the one that dominates the other is less if both are negative, and
greater if not. -/
theorem compares_of_dominates (h : x.dominates y = true) (hx : x.coefficient ≠ 0)
    (hs : x.coefficient.sign = y.coefficient.sign) :
    (if x.coefficient < 0 then Ordering.lt else .gt).Compares x.toRat y.toRat := by
  have habs := abs_toRat_lt_of_dominates h hx
  have hiff : x.toRat < 0 ↔ y.toRat < 0 := by
    rw [toRat_neg_iff, toRat_neg_iff, ← Int.sign_eq_neg_one_iff_neg, hs,
      Int.sign_eq_neg_one_iff_neg]
  by_cases hneg : x.coefficient < 0
  · rw [if_pos hneg]
    have hxr := toRat_neg_iff.2 hneg
    rw [abs_of_neg hxr, abs_of_neg (hiff.1 hxr)] at habs
    exact neg_lt_neg_iff.1 habs
  · rw [if_neg hneg]
    have hxr : ¬x.toRat < 0 := fun hxr => hneg (toRat_neg_iff.1 hxr)
    rwa [abs_of_nonneg (not_lt.1 hxr), abs_of_nonneg (not_lt.1 fun hyr => hxr (hiff.2 hyr))] at habs

/-- Numbers stand in the order of their values. -/
theorem compareValues_compares (x y : Scaled) : (x.compareValues y).Compares x.toRat y.toRat := by
  unfold compareValues
  split
  · rename_i h
    exact lt_of_not_ge fun hle => (compare_lt_iff_lt.1 h).not_ge (sign_le_sign hle)
  · rename_i h
    exact lt_of_not_ge fun hle => (compare_gt_iff_gt.1 h).not_ge (sign_le_sign hle)
  · rename_i h
    have hs : x.coefficient.sign = y.coefficient.sign := compare_eq_iff_eq.1 h
    by_cases hx : x.coefficient = 0
    · -- both are zero
      have hy : y.coefficient = 0 := by
        rw [hx, Int.sign_zero] at hs
        exact Int.sign_eq_zero_iff_zero.1 hs.symm
      rw [if_pos hx, toRat, toRat, hx, hy]
      simp
    · have hy : y.coefficient ≠ 0 := fun hy => hx <| by
        rw [hy, Int.sign_zero] at hs
        exact Int.sign_eq_zero_iff_zero.1 hs
      rw [if_neg hx]
      -- with the same sign the one with more digits before the point has the greater magnitude
      by_cases hxy : x.dominates y = true
      · rw [if_pos hxy]
        exact compares_of_dominates hxy hx hs
      · rw [if_neg hxy]
        by_cases hyx : y.dominates x = true
        · rw [if_pos hyx]
          have hswap := (compares_of_dominates hyx hy hs.symm).swap
          have hneg : x.coefficient < 0 ↔ y.coefficient < 0 := by
            rw [← Int.sign_eq_neg_one_iff_neg, hs, Int.sign_eq_neg_one_iff_neg]
          rwa [apply_ite Ordering.swap, ← if_congr hneg rfl rfl] at hswap
        · rw [if_neg hyx]
          exact compareExactly_compares x y

/-- Numbers are equal if their values are. -/
theorem compareValues_eq_iff (x y : Scaled) : x.compareValues y = .eq ↔ x.toRat = y.toRat :=
  (compareValues_compares x y).eq_eq

/-- Whole numbers are compared as they are. -/
theorem compareValues_int (i j : Int) : compareValues ⟨i, 0, 0⟩ ⟨j, 0, 0⟩ = compare i j := by
  have hint : ∀ k : Int, toRat ⟨k, 0, 0⟩ = k := fun k => by simp [toRat]
  have h := compareValues_compares ⟨i, 0, 0⟩ ⟨j, 0, 0⟩
  rw [hint, hint] at h
  rw [← cmp_eq_compare]
  exact (Int.cast_strictMono.compares.1 h).cmp_eq.symm

end Scaled

/-- The place as an infinity or as the value of a finite number. -/
def Extent.value : Extent → Bool ⊕ ℚ
  | infinite negative => .inl negative
  | finite x => .inr x.toRat

/-- Places are equal if they are the same infinity or finite numbers of one value. -/
theorem Extent.compareValues_eq_iff (a b : Extent) : a.compareValues b = .eq ↔ a.value = b.value := by
  cases a with
  | infinite n => cases b with
    | infinite n' => cases n <;> cases n' <;> simp [compareValues, value]
    | finite y => cases n <;> simp [compareValues, value]
  | finite x => cases b with
    | infinite n' => cases n' <;> simp [compareValues, value]
    | finite y =>
      rw [compareValues, Scaled.compareValues_eq_iff, value, value, Sum.inr.injEq]

namespace Number

/-- The value of a number, unless it is a not-a-number. -/
def value? (x : Number) : Option (Bool ⊕ ℚ) := x.extent?.map Extent.value

/-- Two numbers have the same value if neither is a not-a-number and their values are equal. -/
theorem sameValue_iff (x y : Number) :
    x.sameValue y = true ↔ ∃ v, x.value? = some v ∧ y.value? = some v := by
  unfold sameValue compare? value?
  cases x.extent? with
  | none => simp
  | some a => cases y.extent? with
    | none => simp
    | some b =>
      show (some (a.compareValues b) == some .eq) = true ↔
        ∃ v, some a.value = some v ∧ some b.value = some v
      rw [beq_iff_eq, Option.some.injEq, Extent.compareValues_eq_iff]
      exact ⟨fun h => ⟨a.value, rfl, congrArg some h.symm⟩,
        fun ⟨_, ha, hb⟩ => Option.some.inj (ha.trans hb.symm)⟩

end Number

end RewardLedger
