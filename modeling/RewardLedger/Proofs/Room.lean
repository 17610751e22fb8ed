import Mathlib.Algebra.Order.Field.Power
import Mathlib.Algebra.Order.Group.Abs
import Mathlib.Tactic.NormNum.Basic
import RewardLedger.Proofs.Money

/-!
# How large amounts may be

The rules for amounts leave room for amounts up to a power of ten (`Money.room`): as many digits as
the precision has, the last of them on the scale, and no exponent beyond the greatest. Every amount
that was rounded to the scale lies within the room (`Money.lt_room_of_quantize`), and a sum or
difference of amounts on the scale has a result exactly if it does (`Money.add_ok_iff`,
`Money.subtract_ok_iff`). The only other end is a failure that says that the result is too large.
-/

namespace RewardLedger

namespace DecimalContext

variable {ctx : DecimalContext} {negative : Bool} {n : Nat} {t : Int} {d : Decimal}

/-- A number that fits is smaller than a power of ten, and no other is. -/
theorem fits_iff (ht : t ≤ ctx.greatest) : ctx.Fits n t ↔
    |(signed negative n : ℚ) * (10 : ℚ) ^ t| <
      (10 : ℚ) ^ min ((ctx.precision : Int) + t) (ctx.greatest + 1) := by
  -- so many digits are left by the precision and by the greatest exponent
  obtain ⟨k, hk⟩ : ∃ k, k = min ctx.precision (ctx.greatest + 1 - t).toNat := ⟨_, rfl⟩
  have hexp : min ((ctx.precision : Int) + t) (ctx.greatest + 1) = (k : Int) + t := by omega
  have hfits : ctx.Fits n t ↔ n < 10 ^ k := by
    rcases Nat.eq_zero_or_pos n with rfl | hn
    · exact iff_of_true (.inl rfl) (Nat.pow_pos (by decide))
    · have hdigits : n < 10 ^ k ↔ digitCount n ≤ k := by
        rcases Nat.eq_zero_or_pos k with rfl | hpos
        · exact iff_of_false (by omega) (Nat.not_le.2 (digitCount_pos n))
        · exact lt_tenTo_iff hpos
      rw [hdigits, Fits, Decimal.leadingExponent]
      omega
  have habs : |(signed negative n : ℚ)| = (n : ℚ) := by
    cases negative
    · rw [signed, if_neg (by decide), Int.cast_natCast, Nat.abs_cast]
    · rw [signed, if_pos rfl, Int.cast_neg, Int.cast_natCast, abs_neg, Nat.abs_cast]
  have hten : (0 : ℚ) < (10 : ℚ) ^ t := zpow_pos (by norm_num) t
  rw [hfits, hexp, abs_mul, habs, abs_of_pos hten, zpow_add₀ (by norm_num), zpow_natCast,
    mul_lt_mul_iff_left₀ hten]
  exact_mod_cast Iff.rfl

/-- A number is fitted to a finite one, unless it is too large. -/
theorem fit_cases (ctx : DecimalContext) (negative : Bool) (n : Nat) (t : Int) :
    (∃ d, ctx.fit negative n t = .ok d ∧ d.isFinite = true) ∨
      ctx.fit negative n t = .error .overflow := by
  unfold fit
  split
  · exact .inl ⟨_, rfl, rfl⟩
  split
  · exact .inr rfl
  split
  · exact .inl ⟨_, rfl, rfl⟩
  unfold fitPrecision
  split
  · exact .inl ⟨_, rfl, rfl⟩
  dsimp only
  generalize ctx.dropDigits negative n (digitCount n - ctx.precision) = rounded
  split_ifs
  · exact .inr rfl
  · exact .inl ⟨_, rfl, rfl⟩
  · exact .inr rfl
  · exact .inl ⟨_, rfl, rfl⟩

end DecimalContext

/-- The failure says that an amount is too large. -/
def Failure.IsTooLarge : Failure → Prop
  | .fault (.amountRange _) => True
  | .arithmetic .overflow => True
  | _ => False

namespace Money

variable {m : Money} {a b d : Decimal}

/-- All amounts are smaller than this; there is no room if not even zero is an amount. -/
def room (m : Money) : ℚ :=
  match m.zero with
  | .ok (.finite _ _ t) => (10 : ℚ) ^ min ((m.context.precision : Int) + t) (m.context.greatest + 1)
  | _ => 0

/-- There is room for the exponent of the smallest amount if numbers may have it. -/
theorem room_eq {c : Nat} {t : Int} (hq : m.quantum = .ok (.finite false c t))
    (hleast : m.context.tiny ≤ t) (ht : t ≤ m.context.greatest) :
    m.room = (10 : ℚ) ^ min ((m.context.precision : Int) + t) (m.context.greatest + 1) := by
  have hzero : m.zero = .ok (.finite false 0 t) :=
    quantize_eq_ok.2 ⟨_, hq, DecimalContext.quantize_finite .. ▸ by
      rw [DecimalContext.quantizeFinite, if_neg (by omega), if_pos rfl,
        DecimalContext.fit_of_fits hleast ht (.inl rfl)]⟩
  rw [room, hzero]

/-- Zero is an amount exactly if there is room. -/
theorem room_pos_iff : 0 < m.room ↔ ∃ z, m.zero = .ok z := by
  constructor
  · intro h
    cases hzero : m.zero with
    | ok z => exact ⟨z, rfl⟩
    | error e =>
      rw [room, hzero] at h
      exact absurd h (lt_irrefl 0)
  · rintro ⟨z, hz⟩
    obtain ⟨⟨c, t, -, negative, n, rfl⟩, -⟩ := onScale_of_zero hz
    rw [room, hz]
    exact zpow_pos (by norm_num) _

/-- Where there is room, numbers may have the exponent of the smallest amount. -/
theorem exists_of_room_pos (h : 0 < m.room) : ∃ c t, m.quantum = .ok (.finite false c t) ∧
    m.context.tiny ≤ t ∧ t ≤ m.context.greatest := by
  obtain ⟨z, hzero⟩ := room_pos_iff.1 h
  obtain ⟨_, _, _, _, t, -, -, hfits, -⟩ := exists_of_quantize hzero rfl
  obtain ⟨c, hq⟩ := hfits.quantum
  exact ⟨c, t, hq, hfits.tiny_le, hfits.le_greatest⟩

/-- What was rounded to the scale lies within the room. -/
theorem lt_room_of_quantize (h : m.quantize d = .ok a) (hd : d.isFinite = true) :
    |a.toRat| < m.room := by
  obtain ⟨negative, -, -, n, t, -, rfl, hfits, -⟩ := exists_of_quantize h hd
  obtain ⟨c, hq⟩ := hfits.quantum
  rw [room_eq hq hfits.tiny_le hfits.le_greatest]
  exact (DecimalContext.fits_iff hfits.le_greatest).1 hfits.fits

/-- The sum of two numbers on the scale that lies within the room is an amount. -/
theorem exists_settle_of_lt_room (ha : m.OnScale a) (hb : m.OnScale b)
    (h : |a.toRat + b.toRat| < m.room) : ∃ s, m.settle (m.context.add a b) = .ok s := by
  obtain ⟨c, t, hq, hleast, ht⟩ := exists_of_room_pos (lt_of_le_of_lt (abs_nonneg _) h)
  obtain ⟨_, _, negative, n, hq', hadd, hvalue⟩ := exists_fit_of_onScale ha hb
  cases hq.symm.trans hq'
  have hfits : m.context.Fits n t := by
    rw [← hvalue, room_eq hq hleast ht] at h
    exact (DecimalContext.fits_iff ht).2 h
  refine ⟨.finite negative n t, ?_⟩
  rw [hadd, DecimalContext.fit_of_fits hleast ht hfits]
  exact quantize_eq_ok.2 ⟨_, hq, DecimalContext.quantizeFinite_of_fits hleast ht hfits⟩

/-- A sum of two numbers on the scale that is an amount lies within the room. -/
theorem lt_room_of_settle {s : Decimal} (hp : 0 < m.context.precision) (ha : m.OnScale a)
    (hb : m.OnScale b) (h : m.settle (m.context.add a b) = .ok s) :
    |a.toRat + b.toRat| < m.room := by
  rw [← (toRat_of_settle hp ha hb h).2]
  obtain ⟨_, t, negative, n, -, hadd, -⟩ := exists_fit_of_onScale ha hb
  rw [hadd] at h
  rcases m.context.fit_cases negative n t with ⟨d, hfit, hfinite⟩ | hfit
  · rw [hfit] at h
    exact lt_room_of_quantize h hfinite
  · rw [hfit] at h
    cases h

/-- A sum of two numbers on the scale that is no amount is too large. -/
theorem isTooLarge_of_settle {e : Failure} (ha : m.OnScale a) (hb : m.OnScale b)
    (h : m.settle (m.context.add a b) = .error e) : e.IsTooLarge := by
  obtain ⟨c, t, negative, n, hquantum, hadd, -⟩ := exists_fit_of_onScale ha hb
  rw [hadd] at h
  rcases m.context.fit_cases negative n t with ⟨d, hfit, hfinite⟩ | hfit
  · rw [hfit] at h
    -- the scale is there, so only the size can be refused
    rcases quantize_error h hfinite with hq | rfl
    · cases hquantum.symm.trans hq
    · trivial
  · rw [hfit] at h
    cases h
    trivial

/-- There is a sum of a number on the scale and an amount exactly if it lies within the room. -/
theorem add_ok_iff (ha : m.OnScale a) (hb : m.Settled b) :
    (∃ s, m.add a b = .ok s) ↔ |a.toRat + b.toRat| < m.room :=
  ⟨fun ⟨_, h⟩ => lt_room_of_settle hb.precision_pos ha hb.onScale h,
    exists_settle_of_lt_room ha hb.onScale⟩

/-- There is a difference of a number on the scale and an amount exactly if it lies within the
room. -/
theorem subtract_ok_iff (ha : m.OnScale a) (hb : m.Settled b) :
    (∃ s, m.subtract a b = .ok s) ↔ |a.toRat - b.toRat| < m.room := by
  obtain ⟨hnegate, heq⟩ := subtract_eq_settle ha hb.onScale
  rw [heq, sub_eq_add_neg, ← Decimal.toRat_negate]
  exact ⟨fun ⟨_, h⟩ => lt_room_of_settle hb.precision_pos ha hnegate h,
    exists_settle_of_lt_room ha hnegate⟩

end Money

end RewardLedger
