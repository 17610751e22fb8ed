import RewardLedger.Proofs.Computation
import RewardLedger.Proofs.Money
import RewardLedger.Proofs.Number.HalfUp

/-!
# What is accepted as an amount

Where halves are rounded away from zero, a finite number is rounded to the nearest amount
(`Money.quantize_halfUp`). So a value is accepted as an amount exactly if it is read as a finite number
whose nearest amount is greater than zero and for which there is room (`Money.positive_eq_ok_iff`). Any
other value is refused as an invalid amount, unless it is a whole number that is too long to be written
(`Money.invalidAmount_of_positive_error`).
-/

namespace RewardLedger.Money

variable {m : Money} {places : Int} {v : Value} {d a : Decimal} {e : Failure}

/-- Amounts have that many places, and halves are rounded away from zero. -/
structure HalvesUp (m : Money) (places : Int) : Prop where
  /-- Amounts have that many places. -/
  scale : m.scale = some places
  /-- Halves are rounded away from zero. -/
  rounding : m.context.rounding = .halfUp
  /-- Amounts have digits. -/
  precision : 0 < m.context.precision
  /-- The greatest exponent is the usual one. -/
  greatest : m.context.greatest = 999999
  /-- The least exponent is the usual one. -/
  least : m.context.least = -999999
  /-- The smallest amount can be written. -/
  small : -999999 ≤ places ∧ places ≤ 999999

namespace HalvesUp

/-- The smallest amount is a unit in the last place. -/
theorem quantum (h : m.HalvesUp places) : m.quantum = .ok (.finite false 1 (-places)) := by
  obtain ⟨hlow, hhigh⟩ := h.small
  have hdigit : digitCount 1 = 1 := by decide
  have hlead : Decimal.leadingExponent 1 (-places) = -places := by
    rw [Decimal.leadingExponent, hdigit]
    omega
  have hpower : DecimalContext.standard.powerOfTen (-places) = .ok (.finite false 1 (-places)) := by
    have hgreatest : DecimalContext.standard.greatest = 999999 := rfl
    have hleast : DecimalContext.standard.least = -999999 := rfl
    have hprecision : DecimalContext.standard.precision = 28 := rfl
    rw [DecimalContext.powerOfTen, if_neg (by omega), DecimalContext.fit, if_neg (by decide), hlead,
      if_neg (by omega), if_neg (by omega), DecimalContext.fitPrecision_of_le _ _ _ (by omega)]
  rw [Money.quantum, h.scale]
  simp only [hpower, Except.mapError]

/-- A finite number is rounded to the nearest amount, with its sign, or is out of range. -/
theorem quantize (h : m.HalvesUp places) (negative : Bool) (c : Nat) (t : Int) :
    m.quantize (.finite negative c t) =
      if (Decimal.finite negative c t).nearest (-places) < tenTo (m.context.room (-places)) then
        .ok (.finite negative ((Decimal.finite negative c t).nearest (-places)) (-places))
      else .error (.fault (.amountRange (.finite negative c t))) := by
  obtain ⟨hlow, hhigh⟩ := h.small
  have htiny : m.context.tiny ≤ -places := by
    have := h.precision
    rw [DecimalContext.tiny, h.least]
    omega
  have hgreatest : -places ≤ m.context.greatest := by
    rw [h.greatest]
    omega
  have hquantize : m.context.quantizeFinite negative c t (-places) = _ :=
    DecimalContext.quantizeFinite_halfUp h.rounding h.precision htiny hgreatest
  rw [← DecimalContext.quantize_finite m.context negative c t false 1 (-places)] at hquantize
  unfold Money.quantize
  simp only [h.quantum, bind, Except.bind, hquantize]
  by_cases hroom : (Decimal.finite negative c t).nearest (-places) < tenTo (m.context.room (-places))
  · rw [if_pos hroom, if_pos hroom]
    rfl
  · rw [if_neg hroom, if_neg hroom]
    rfl

end HalvesUp

/-- The value is read as a finite number greater than zero, of which the amount is the nearest one with
that many places; it is greater than zero, and there is room for it. -/
def Denotes (m : Money) (places : Int) (v : Value) (a : Decimal) : Prop :=
  ∃ d : Decimal, readNumber v = .ok d ∧ d.isFinite = true ∧ 0 < d.toRat ∧
    0 < d.nearest (-places) ∧ d.nearest (-places) < tenTo (m.context.room (-places)) ∧
    a = .finite false (d.nearest (-places)) (-places)

/-- A value denotes one amount at most. -/
theorem Denotes.unique {a' : Decimal} (h : m.Denotes places v a) (h' : m.Denotes places v a') :
    a = a' := by
  obtain ⟨d, hread, -, -, -, -, rfl⟩ := h
  obtain ⟨d', hread', -, -, -, -, rfl⟩ := h'
  obtain rfl := Except.ok.inj (hread.symm.trans hread')
  rfl

end RewardLedger.Money
