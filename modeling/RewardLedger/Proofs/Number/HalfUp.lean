import Mathlib.Algebra.Order.Floor.Semifield
import RewardLedger.Proofs.Number.Multiples

/-!
# Rounding halves away from zero

A number that is given a larger exponent loses digits. Where halves are rounded away from zero, what is
left is the whole number of units that is nearest to it (`Decimal.nearest`), with its sign; no digit is
lost on a smaller exponent. This fails exactly if the nearest number needs more digits than there is
room for (`DecimalContext.quantizeFinite_halfUp`): the checks that are made before anything is rounded
only refuse numbers whose nearest one would be refused anyway.
-/

namespace RewardLedger

/-! ## The nearest number -/

/-- The whole number of units of `10 ^ t` that is nearest to the magnitude of a number; of two that are
equally near it is the greater one. -/
def Decimal.nearest (t : Int) (d : Decimal) : Nat := ⌊|d.toRat| / (10 : ℚ) ^ t + 1 / 2⌋₊

namespace Decimal

variable {negative : Bool} {c n : Nat} {e t : Int} {d : Decimal}

/-- A whole number is not above the nearest one exactly if it is half a unit above the magnitude at
most. -/
theorem le_nearest_iff : n ≤ d.nearest t ↔ (n : ℚ) ≤ |d.toRat| / (10 : ℚ) ^ t + 1 / 2 :=
  Nat.le_floor_iff (by positivity)

/-- The nearest number is less than half a unit away, or half a unit above. -/
theorem nearest_spec (t : Int) (d : Decimal) :
    (d.nearest t : ℚ) - 1 / 2 ≤ |d.toRat| / (10 : ℚ) ^ t ∧
      |d.toRat| / (10 : ℚ) ^ t < d.nearest t + 1 / 2 := by
  have hlow := le_nearest_iff.1 (le_refl (d.nearest t))
  have hhigh := mt le_nearest_iff.2 (Nat.not_succ_le_self (d.nearest t))
  push_cast at hhigh
  constructor <;> linarith

/-- A quotient that is rounded half up is the nearest whole number. -/
theorem floor_div_add_half (n : Nat) {m : Nat} (hm : 0 < m) :
    ⌊(n : ℚ) / m + 1 / 2⌋₊ = (2 * n + m) / (2 * m) := by
  have hpos : (0 : ℚ) < m := by exact_mod_cast hm
  have hsum : (n : ℚ) / m + 1 / 2 = ((2 * n + m : Nat) : ℚ) / ((2 * m : Nat) : ℚ) := by
    push_cast
    field_simp
  rw [hsum, Nat.floor_div_eq_div]

end Decimal

/-! ## Dropping digits -/

namespace Rounding

/-- Rounding a quotient half up adds half a divisor and rounds down. -/
theorem divide_halfUp (negative : Bool) (n : Nat) {m : Nat} (hm : 0 < m) :
    halfUp.divide negative n m = (2 * n + m) / (2 * m) := by
  have hsplit : 2 * n + m = 2 * (n % m) + m + 2 * m * (n / m) := by
    have := Nat.mod_add_div n m
    rw [Nat.mul_assoc]
    omega
  have hrest : (2 * (n % m) + m) / (2 * m) = if m ≤ 2 * (n % m) then 1 else 0 := by
    have hlt := Nat.mod_lt n hm
    split
    · exact Nat.div_eq_of_lt_le (by omega) (by omega)
    · exact Nat.div_eq_of_lt (by omega)
  rw [hsplit, Nat.add_mul_div_left _ _ (by omega), hrest, divide]
  simp only [goesUp, decide_eq_true_eq]
  split <;> omega

/-- Dropping digits half up leaves the nearest whole number: beyond the digits that there are nothing
is left either way. -/
theorem dropDigits_halfUp (negative : Bool) (n k : Nat) :
    halfUp.dropDigits negative n k = ⌊(n : ℚ) / tenTo k + 1 / 2⌋₊ := by
  rw [Decimal.floor_div_add_half n (tenTo_pos k), dropDigits, divide_halfUp _ _ (tenTo_pos _)]
  by_cases hk : k ≤ digitCount n + 1
  · rw [Nat.min_eq_left hk]
  · have hn : n < tenTo (digitCount n) := (lt_tenTo_iff (digitCount_pos n)).2 (Nat.le_refl _)
    have hsmall : 10 * n < tenTo (digitCount n + 1) := by
      rw [tenTo_succ]
      omega
    have hmore : tenTo (digitCount n + 1) ≤ tenTo k := Nat.pow_le_pow_right (by decide) (by omega)
    rw [Nat.min_eq_right (by omega), Nat.div_eq_of_lt (by omega), Nat.div_eq_of_lt (by omega)]

end Rounding

/-! ## Prescribing the exponent -/

namespace DecimalContext

variable {ctx : DecimalContext} {negative : Bool} {c : Nat} {e t : Int}

/-- What is computed for an exponent is the nearest number on it. -/
theorem nearest_eq (h : ctx.rounding = .halfUp) :
    (Decimal.finite negative c e).nearest t =
      if t ≤ e then c * tenTo (e - t).toNat else ctx.dropDigits negative c (t - e).toNat := by
  have hten : ∀ k : Nat, ((tenTo k : Nat) : ℚ) = (10 : ℚ) ^ (k : Int) := fun k => by
    rw [zpow_natCast]
    exact Nat.cast_pow 10 k
  have hunits : ∀ k : Int, (c : ℚ) * (10 : ℚ) ^ e / (10 : ℚ) ^ (e - k) = c * (10 : ℚ) ^ k := fun k => by
    rw [mul_div_assoc, ← zpow_sub₀ (by norm_num), sub_sub_cancel]
  rw [Decimal.nearest, Decimal.abs_toRat]
  by_cases hle : t ≤ e
  · obtain ⟨k, rfl⟩ : ∃ k : Nat, t = e - k := ⟨(e - t).toNat, by omega⟩
    have hk : (e - (e - k)).toNat = k := by omega
    have hone : ((c * tenTo k : Nat) : ℚ) = ((c * tenTo k : Nat) : ℚ) / (1 : Nat) := by simp
    rw [if_pos hle, hunits, hk, ← hten, ← Nat.cast_mul, hone, Decimal.floor_div_add_half _ Nat.one_pos]
    omega
  · obtain ⟨k, rfl⟩ : ∃ k : Nat, t = e - (-k) := ⟨(t - e).toNat, by omega⟩
    have hk : (e - (-k) - e).toNat = k := by omega
    rw [if_neg hle, hunits, hk, dropDigits, h, Rounding.dropDigits_halfUp, hten, zpow_neg,
      ← div_eq_mul_inv]

/-- The number of digits that there is room for on an exponent: as many as the precision, unless the
greatest exponent allows for fewer. -/
def room (ctx : DecimalContext) (t : Int) : Nat := min ctx.precision (ctx.greatest + 1 - t).toNat

/-- Where halves are rounded away from zero, a number is given an exponent as the nearest number on it,
with its sign, if there is room for that one. -/
theorem quantizeFinite_halfUp (h : ctx.rounding = .halfUp) (hp : 0 < ctx.precision)
    (htiny : ctx.tiny ≤ t) (ht : t ≤ ctx.greatest) :
    ctx.quantizeFinite negative c e t =
      if (Decimal.finite negative c e).nearest t < tenTo (ctx.room t) then
        .ok (.finite negative ((Decimal.finite negative c e).nearest t) t)
      else .error .invalidOperation := by
  have hroom : 0 < ctx.room t := Nat.lt_min.2 ⟨hp, by omega⟩
  rw [quantizeFinite, if_neg (by omega)]
  by_cases hc : c = 0
  · have hzero : (Decimal.finite negative c e).nearest t = 0 := by
      rw [Decimal.nearest, Decimal.toRat_eq_zero_iff.2 hc, abs_zero, zero_div, zero_add]
      norm_num
    rw [if_pos hc, fit_of_fits htiny ht (.inl rfl), hzero, if_pos (tenTo_pos _)]
  rw [if_neg hc]
  -- a number whose first digit stands beyond the room has a nearest one beyond it
  have hbeyond : ctx.room t + t ≤ Decimal.leadingExponent c e →
      ¬(Decimal.finite negative c e).nearest t < tenTo (ctx.room t) := by
    intro hlead
    have hten : (0 : ℚ) < (10 : ℚ) ^ t := zpow_pos (by norm_num) t
    have habs : (10 : ℚ) ^ (ctx.room t + t) ≤ |(Decimal.finite negative c e).toRat| :=
      (Decimal.zpow_le_abs_toRat_iff hc).2 hlead
    rw [zpow_add₀ (by norm_num), ← le_div_iff₀ hten, zpow_natCast] at habs
    have hcast : ((tenTo (ctx.room t) : Nat) : ℚ) = (10 : ℚ) ^ ctx.room t := Nat.cast_pow 10 _
    rw [Nat.not_lt, Decimal.le_nearest_iff, hcast]
    linarith
  have hlead : Decimal.leadingExponent c e = e + digitCount c - 1 := rfl
  have hmin : ctx.room t = min ctx.precision (ctx.greatest + 1 - t).toNat := rfl
  by_cases hdigits : (ctx.precision : Int) < digitCount c + (e - t)
  · rw [if_pos hdigits, if_neg (hbeyond (by omega))]
  rw [if_neg hdigits]
  by_cases hgreat : ctx.greatest < Decimal.leadingExponent c e
  · rw [if_pos hgreat, if_neg (hbeyond (by omega))]
  rw [if_neg hgreat]
  dsimp only
  rw [← nearest_eq h]
  generalize (Decimal.finite negative c e).nearest t = n
  have hlast : Decimal.leadingExponent n t = t + digitCount n - 1 := rfl
  have hfits := lt_tenTo_iff (n := n) hroom
  by_cases hn : n < tenTo (ctx.room t)
  · rw [if_pos hn, if_neg (by have := hfits.1 hn; omega)]
  · rw [if_neg hn, if_pos (by have := mt hfits.2 hn; omega)]

end DecimalContext

end RewardLedger
