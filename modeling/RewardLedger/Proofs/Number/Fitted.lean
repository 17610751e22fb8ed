import RewardLedger.Proofs.Number.HalfUp

/-!
# Rounding to the precision

A context rounds a sum to the digits that it has. Where halves are rounded away from zero, this gives
the nearest number on the exponent of the last of these digits, or an overflow if that one is too large
(`DecimalContext.fit_halfUp`).

The sum of numbers far apart is not computed exactly: a number that lies wholly below the digits that
rounding looks at counts as one unit there. No half of a unit lies between this sum and the exact one
(`Decimal.SameHalves`), so both are rounded to the same number (`DecimalContext.add_halfUp`).
-/

namespace RewardLedger

namespace Decimal

variable {negative negA negB : Bool} {c n a b : Nat} {e t k expA expB : Int} {p : Int}
  {d d' l r s : Decimal}

/-- A power of ten with an exponent so much greater than another one. -/
theorem zpow_add_one_add (i : Nat) (k : Int) :
    (10 : ℚ) ^ ((i : Int) + 1 + k) = 10 ^ i * 10 * 10 ^ k := by
  rw [zpow_add₀ (by norm_num), zpow_add₀ (by norm_num), zpow_natCast, zpow_one]

/-- A sign has the magnitude one. -/
theorem abs_signed_one (negative : Bool) : |(DecimalContext.signed negative 1 : ℚ)| = 1 := by
  cases negative <;> simp [DecimalContext.signed]

/-- The exponent of the last one of the first `p` digits of a number. -/
def lastPlace (p : Int) (d : Decimal) : Int := Int.log 10 |d.toRat| + 1 - p

/-- The first digit of a number stands at the logarithm of its magnitude. -/
theorem log_abs_toRat (negative : Bool) (e : Int) (hc : c ≠ 0) :
    Int.log 10 |(finite negative c e).toRat| = leadingExponent c e := by
  have hpos : 0 < |(finite negative c e).toRat| := abs_pos.2 (mt toRat_eq_zero_iff.1 hc)
  exact eq_of_forall_le_iff fun j =>
    (Int.zpow_le_iff_le_log (by decide) hpos).symm.trans (zpow_le_abs_toRat_iff hc)

/-- A magnitude reaches the power of ten that its first digit stands at, and not the next one. -/
theorem zpow_leadingExponent_le (negative : Bool) (e : Int) (hc : c ≠ 0) :
    (10 : ℚ) ^ leadingExponent c e ≤ |(finite negative c e).toRat| ∧
      |(finite negative c e).toRat| < (10 : ℚ) ^ (leadingExponent c e + 1) :=
  ⟨(zpow_le_abs_toRat_iff hc).2 le_rfl,
    not_le.1 (mt (zpow_le_abs_toRat_iff hc).1 (not_le.2 (lt_add_one _)))⟩

/-- A number is rounded up to the next number from halfway on. -/
theorem succ_le_nearest_iff : n + 1 ≤ d.nearest t ↔ ((n : ℚ) + 1 / 2) * 10 ^ t ≤ |d.toRat| := by
  have hten : (0 : ℚ) < (10 : ℚ) ^ t := zpow_pos (by norm_num) t
  rw [le_nearest_iff, ← le_div_iff₀ hten]
  push_cast
  constructor <;> intro h <;> linarith

/-- A whole number of units is rounded to itself. -/
theorem nearest_of_units (h : |d.toRat| = n * (10 : ℚ) ^ t) : d.nearest t = n := by
  have hten : (0 : ℚ) < (10 : ℚ) ^ t := zpow_pos (by norm_num) t
  rw [nearest, h, mul_div_cancel_right₀ _ hten.ne', Nat.floor_eq_iff (by positivity)]
  constructor <;> linarith

/-- On an exponent that is no greater a number loses nothing. -/
theorem nearest_mul_zpow (negative : Bool) (c : Nat) (h : t ≤ e) :
    (finite negative c e).nearest t * (10 : ℚ) ^ t = c * (10 : ℚ) ^ e := by
  obtain ⟨i, rfl⟩ : ∃ i : Nat, e = i + t := ⟨(e - t).toNat, by omega⟩
  have hunits : |(finite negative c (i + t)).toRat| = (c * 10 ^ i : Nat) * (10 : ℚ) ^ t := by
    rw [abs_toRat, zpow_add₀ (by norm_num), zpow_natCast]
    push_cast
    ring
  rw [nearest_of_units hunits, ← hunits, abs_toRat]

/-- A magnitude that reaches a power of ten still does when it is rounded. -/
theorem zpow_le_nearest (hk : t ≤ k) (h : (10 : ℚ) ^ k ≤ |d.toRat|) :
    (10 : ℚ) ^ k ≤ d.nearest t * 10 ^ t := by
  have hten : (0 : ℚ) < (10 : ℚ) ^ t := zpow_pos (by norm_num) t
  obtain ⟨j, rfl⟩ : ∃ j : Nat, k = j + t := ⟨(k - t).toNat, by omega⟩
  rw [zpow_add₀ (by norm_num), zpow_natCast] at h ⊢
  rw [mul_le_mul_iff_left₀ hten]
  have hle : 10 ^ j ≤ d.nearest t := by
    rw [le_nearest_iff]
    push_cast
    linarith [(le_div_iff₀ hten).2 h]
  exact_mod_cast hle

/-- A magnitude below a power of ten is rounded to that power at most. -/
theorem nearest_le_zpow (hk : t ≤ k) (h : |d.toRat| < (10 : ℚ) ^ k) :
    d.nearest t * (10 : ℚ) ^ t ≤ 10 ^ k := by
  have hten : (0 : ℚ) < (10 : ℚ) ^ t := zpow_pos (by norm_num) t
  obtain ⟨j, rfl⟩ : ∃ j : Nat, k = j + t := ⟨(k - t).toNat, by omega⟩
  rw [zpow_add₀ (by norm_num), zpow_natCast] at h ⊢
  rw [mul_le_mul_iff_left₀ hten]
  have hle : d.nearest t ≤ 10 ^ j := by
    by_contra hlt
    have hhalf := succ_le_nearest_iff.1 (Nat.lt_of_not_le hlt)
    push_cast at hhalf
    nlinarith
  exact_mod_cast hle

/-! ## Numbers that no half lies between -/

/-- No multiple of `5 · 10 ^ k` lies between the magnitudes of the numbers. -/
def SameHalves (k : Int) (d d' : Decimal) : Prop :=
  ∀ j : Nat, (j : ℚ) * (5 * 10 ^ k) ≤ |d.toRat| ↔ (j : ℚ) * (5 * 10 ^ k) ≤ |d'.toRat|

/-- Numbers that no half lies between are rounded to the same number. -/
theorem SameHalves.nearest_eq (h : SameHalves k d d') (ht : k < t) :
    d.nearest t = d'.nearest t := by
  obtain ⟨i, rfl⟩ : ∃ i : Nat, t = i + 1 + k := ⟨(t - 1 - k).toNat, by omega⟩
  have hhalf : ∀ j : Nat, ((j : ℚ) + 1 / 2) * 10 ^ ((i : Int) + 1 + k) =
      (((2 * j + 1) * 10 ^ i : Nat) : ℚ) * (5 * 10 ^ k) := fun j => by
    rw [zpow_add_one_add]
    push_cast
    ring
  refine eq_of_forall_le_iff fun j => ?_
  cases j with
  | zero => exact ⟨fun _ => Nat.zero_le _, fun _ => Nat.zero_le _⟩
  | succ j => rw [succ_le_nearest_iff, succ_le_nearest_iff, hhalf, h]

/-- Numbers that no half lies between have the first digit at one place. -/
theorem SameHalves.log_eq (h : SameHalves k d d') (hd : d.toRat ≠ 0)
    (hk : k < Int.log 10 |d.toRat|) : Int.log 10 |d'.toRat| = Int.log 10 |d.toRat| := by
  have hpower : ∀ j : Int, k < j → ((10 : ℚ) ^ j ≤ |d.toRat| ↔ (10 : ℚ) ^ j ≤ |d'.toRat|) := by
    intro j hj
    obtain ⟨i, rfl⟩ : ∃ i : Nat, j = i + 1 + k := ⟨(j - 1 - k).toNat, by omega⟩
    have heq : (10 : ℚ) ^ ((i : Int) + 1 + k) = ((2 * 10 ^ i : Nat) : ℚ) * (5 * 10 ^ k) := by
      rw [zpow_add_one_add]
      push_cast
      ring
    rw [heq]
    exact h _
  have hpos : 0 < |d.toRat| := abs_pos.2 hd
  have hreach := (hpower _ hk).1 (Int.zpow_log_le_self (by decide) hpos)
  have hpos' : 0 < |d'.toRat| := lt_of_lt_of_le (zpow_pos (by norm_num) _) hreach
  refine le_antisymm ?_ ((Int.zpow_le_iff_le_log (by decide) hpos').1 hreach)
  refine Int.le_of_lt_add_one ((Int.lt_zpow_iff_log_lt (by decide) hpos').1 ?_)
  exact not_le.1 (mt (hpower _ (by omega)).2 (not_le.2 (Int.lt_zpow_succ_log_self (by decide) _)))

/-- A whole number of tens and up to one unit more, or up to one unit less: between such numbers there is
no multiple of five units. -/
theorem sameHalves_of_units {m : Nat} {x y : ℚ} (hd : |d.toRat| = (10 * m + x) * 10 ^ k)
    (hd' : |d'.toRat| = (10 * m + y) * 10 ^ k) (hx : |x| ≤ 1) (hy : |y| ≤ 1) (hxy : 0 < x * y) :
    SameHalves k d d' := by
  have hten : (0 : ℚ) < (10 : ℚ) ^ k := zpow_pos (by norm_num) k
  have hunits : ∀ {z : ℚ} (j : Nat), (j : ℚ) * (5 * 10 ^ k) ≤ (10 * m + z) * 10 ^ k ↔
      5 * (j : ℚ) ≤ 10 * m + z := fun {z} j => by
    rw [mul_left_comm, ← mul_assoc, mul_le_mul_iff_left₀ hten]
  intro j
  rw [hd, hd', hunits, hunits]
  obtain ⟨hxlow, hxhigh⟩ := abs_le.1 hx
  obtain ⟨hylow, hyhigh⟩ := abs_le.1 hy
  rcases lt_trichotomy j (2 * m) with hj | rfl | hj
  · have hj : (j : ℚ) + 1 ≤ 2 * m := by exact_mod_cast hj
    exact ⟨fun _ => by linarith, fun _ => by linarith⟩
  · push_cast
    rcases (mul_pos_iff.1 hxy) with ⟨hx, hy⟩ | ⟨hx, hy⟩
    · exact ⟨fun _ => by linarith, fun _ => by linarith⟩
    · exact ⟨fun _ => by linarith, fun _ => by linarith⟩
  · have hj : (2 : ℚ) * m + 1 ≤ j := by exact_mod_cast hj
    exact ⟨fun _ => by linarith, fun _ => by linarith⟩

/-! ## Exact sums -/

/-- The number has a minus sign; a zero can have one too. -/
def isNegative : Decimal → Bool
  | finite negative _ _ => negative
  | infinite negative => negative
  | nan negative _ _ => negative

/-- The number is the exact sum of two numbers; a zero has a minus sign only if both have one. -/
structure IsSum (l r s : Decimal) : Prop where
  /-- The sum is a finite number. -/
  finite : s.isFinite = true
  /-- The sum is exact. -/
  toRat : s.toRat = l.toRat + r.toRat
  /-- The sign of a zero is that of both numbers. -/
  zero : s.toRat = 0 → s.isNegative = (l.isNegative && r.isNegative)

/-- The order of the numbers makes no difference. -/
theorem IsSum.symm (h : IsSum l r s) : IsSum r l s where
  finite := h.finite
  toRat := h.toRat.trans (add_comm _ _)
  zero hs := (h.zero hs).trans (Bool.and_comm _ _)

/-- A number is its sign times its magnitude. -/
theorem toRat_eq_signed (negative : Bool) (c : Nat) (e : Int) :
    (finite negative c e).toRat = DecimalContext.signed negative 1 * ((c : ℚ) * 10 ^ e) := by
  cases negative <;> simp [toRat, DecimalContext.signed]

/-- The sign of a number that is not zero is the sign of its value. -/
theorem eq_of_toRat_eq_signed {q : ℚ} (hq : 0 < q)
    (h : (finite negative c e).toRat = DecimalContext.signed negA 1 * q) : negative = negA := by
  have hmagnitude : (0 : ℚ) ≤ c * 10 ^ e := by positivity
  rw [toRat_eq_signed] at h
  cases negative <;> cases negA <;> simp only [DecimalContext.signed] at h <;>
    first | rfl | (exfalso; norm_num at h; linarith)

/-- The units of `10 ^ k` in a number on a greater exponent are a whole number of tens, and one unit
more or less at most leaves its sign as it is. -/
theorem units_of_add {y : ℚ} (ha : a ≠ 0) (hk : k < expA) (hy : |y| ≤ 1)
    (h : (finite negative n e).toRat =
      (finite negA a expA).toRat + DecimalContext.signed negB 1 * (y * 10 ^ k)) :
    negA = negative ∧ |(finite negative n e).toRat| =
      (10 * (a * tenTo (expA - k - 1).toNat : Nat) + DecimalContext.signed (negB != negA) 1 * y) *
        10 ^ k := by
  have hten : (0 : ℚ) < (10 : ℚ) ^ k := zpow_pos (by norm_num) k
  -- the first number is a multiple of ten units, so what is added does not reach it
  obtain ⟨i, rfl⟩ : ∃ i : Nat, expA = i + 1 + k := ⟨(expA - k - 1).toNat, by omega⟩
  have hi : ((i : Int) + 1 + k - k - 1).toNat = i := by omega
  have hmany : (1 : ℚ) ≤ (a * tenTo i : Nat) := by
    exact_mod_cast Nat.mul_pos (Nat.pos_of_ne_zero ha) (tenTo_pos i)
  have htens : (a : ℚ) * (10 : ℚ) ^ ((i : Int) + 1 + k) = 10 * (a * tenTo i : Nat) * 10 ^ k := by
    have hcast : ((tenTo i : Nat) : ℚ) = (10 : ℚ) ^ i := Nat.cast_pow 10 i
    rw [zpow_add_one_add, Nat.cast_mul, hcast]
    ring
  rw [hi]
  generalize ((a * tenTo i : Nat) : ℚ) = m at hmany htens ⊢
  obtain ⟨hlow, hhigh⟩ := abs_le.1 hy
  have hvalue : (finite negative n e).toRat = DecimalContext.signed negA 1 *
      ((10 * m + DecimalContext.signed (negB != negA) 1 * y) * 10 ^ k) := by
    rw [h, toRat_eq_signed negA, htens]
    cases negA <;> cases negB <;> simp [DecimalContext.signed] <;> ring
  have hpos : 0 < (10 * m + DecimalContext.signed (negB != negA) 1 * y) * (10 : ℚ) ^ k := by
    refine mul_pos ?_ hten
    cases negA <;> cases negB <;> simp [DecimalContext.signed] <;> linarith
  refine ⟨(eq_of_toRat_eq_signed hpos hvalue).symm, ?_⟩
  rw [hvalue, abs_mul, abs_signed_one, one_mul, abs_of_pos hpos]

/-- One unit of `10 ^ k` and a part of it, both added to a number on a greater exponent or both taken from
it, make numbers that no half lies between. -/
theorem sameHalves_of_add {negative' : Bool} {n' : Nat} {e' : Int} {y : ℚ} (ha : a ≠ 0) (hk : k < expA)
    (hy : 0 < y) (hy' : y ≤ 1)
    (h : (finite negative n e).toRat =
      (finite negA a expA).toRat + DecimalContext.signed negB 1 * (y * 10 ^ k))
    (h' : (finite negative' n' e').toRat =
      (finite negA a expA).toRat + DecimalContext.signed negB 1 * (1 * 10 ^ k)) :
    SameHalves k (finite negative n e) (finite negative' n' e') := by
  have hunits : |y| ≤ 1 := abs_le.2 ⟨by linarith, hy'⟩
  refine sameHalves_of_units (units_of_add ha hk hunits h).2 (units_of_add ha hk (by norm_num) h').2
    ?_ ?_ ?_
  · rw [abs_mul, abs_signed_one, one_mul]
    exact hunits
  · rw [abs_mul, abs_signed_one, one_mul, abs_one]
  · rw [mul_mul_mul_comm, ← abs_mul_abs_self, abs_signed_one]
    linarith

/-- One unit of `10 ^ k` more or less at most moves the first digit of a number that starts further
ahead by one place at most. -/
theorem zpow_le_abs_toRat_of_add {y : ℚ} (ha : a ≠ 0) (hk : k < leadingExponent a expA)
    (hy : |y| ≤ 1) (h : d.toRat =
      (finite negA a expA).toRat + DecimalContext.signed negB 1 * (y * 10 ^ k)) :
    (10 : ℚ) ^ (leadingExponent a expA - 1) ≤ |d.toRat| := by
  have hten : (0 : ℚ) < (10 : ℚ) ^ k := zpow_pos (by norm_num) k
  have hreach := (zpow_leadingExponent_le negA expA ha).1
  have hstep : (10 : ℚ) ^ leadingExponent a expA = 10 * 10 ^ (leadingExponent a expA - 1) := by
    rw [← zpow_one_add₀ (by norm_num), add_sub_cancel]
  have hunit : (10 : ℚ) ^ k ≤ 10 ^ (leadingExponent a expA - 1) :=
    zpow_le_zpow_right₀ (by norm_num) (by omega)
  have hpart : |DecimalContext.signed negB 1 * (y * (10 : ℚ) ^ k)| ≤ 10 ^ k := by
    rw [abs_mul, abs_signed_one, one_mul, abs_mul, abs_of_pos hten]
    exact mul_le_of_le_one_left hten.le hy
  have htriangle := abs_sub_abs_le_abs_add (finite negA a expA).toRat
    (DecimalContext.signed negB 1 * (y * 10 ^ k))
  rw [← h] at htriangle
  have hpos : (0 : ℚ) < 10 ^ (leadingExponent a expA - 1) := zpow_pos (by norm_num) _
  linarith

end Decimal

namespace DecimalContext

variable {ctx : DecimalContext} {negative negA negB : Bool} {c n a b : Nat} {e t expA expB : Int}
  {q : ℚ} {d d' l r : Decimal}

/-! ## Rounding to the context -/

/-- What is left of the magnitude of a number in the context: the nearest number on the exponent of the
last digit that there is room for. -/
def rounded (ctx : DecimalContext) (d : Decimal) : ℚ :=
  d.nearest (max (d.lastPlace ctx.precision) ctx.tiny) *
    (10 : ℚ) ^ max (d.lastPlace ctx.precision) ctx.tiny

/-- An operation comes to a number of this magnitude, or to an overflow if it is too large. -/
def Gives (ctx : DecimalContext) (negative : Bool) (q : ℚ) (result : Except ArithmeticFault Decimal) :
    Prop :=
  (10 : ℚ) ^ (ctx.greatest + 1) ≤ q ∧ result = .error .overflow ∨
    q < (10 : ℚ) ^ (ctx.greatest + 1) ∧
      ∃ c e, result = .ok (.finite negative c e) ∧ (c : ℚ) * 10 ^ e = q

/-- A number is too large for the context exactly if its first digit stands too far ahead. -/
theorem gives_of_leadingExponent (hc : c ≠ 0) (hq : (c : ℚ) * 10 ^ e = q) :
    ctx.Gives negative q (if ctx.greatest < Decimal.leadingExponent c e then .error .overflow
      else .ok (.finite negative c e)) := by
  have hlead : (10 : ℚ) ^ (ctx.greatest + 1) ≤ |(Decimal.finite negative c e).toRat| ↔
      ctx.greatest < Decimal.leadingExponent c e := Decimal.zpow_le_abs_toRat_iff hc
  rw [Decimal.abs_toRat, hq] at hlead
  by_cases hlarge : ctx.greatest < Decimal.leadingExponent c e
  · exact .inl ⟨hlead.2 hlarge, if_pos hlarge⟩
  · exact .inr ⟨not_le.1 (mt hlead.1 hlarge), c, e, if_neg hlarge, hq⟩

/-- Numbers that no half lies between are the same in the context. -/
theorem rounded_congr {k : Int} (hp : 0 < ctx.precision) (h : Decimal.SameHalves k d d')
    (hd : d.toRat ≠ 0) (hk : k < d.lastPlace ctx.precision) : ctx.rounded d' = ctx.rounded d := by
  have hlast : d.lastPlace ctx.precision = Int.log 10 |d.toRat| + 1 - ctx.precision := rfl
  have hplace : d'.lastPlace ctx.precision = d.lastPlace ctx.precision := by
    rw [Decimal.lastPlace, h.log_eq hd (by omega), hlast]
  rw [rounded, rounded, hplace, h.nearest_eq (lt_of_lt_of_le hk (le_max_left _ _))]

/-- A number with too many digits is rounded to the digits that there is room for; a carry into one more
digit makes it a power of ten. -/
theorem fitPrecision_halfUp (h : ctx.rounding = .halfUp) (hp : 0 < ctx.precision)
    (hn : ctx.precision < digitCount n) (ht : t = e + (digitCount n - ctx.precision : Nat)) :
    ctx.Gives negative ((Decimal.finite negative n e).nearest t * (10 : ℚ) ^ t)
      (ctx.fitPrecision negative n e) := by
  have hsome : n ≠ 0 := by
    rintro rfl
    exact absurd hn (by rw [show digitCount 0 = 1 from rfl]; omega)
  have hlead : Decimal.leadingExponent n e = t + ctx.precision - 1 := by
    rw [Decimal.leadingExponent]
    omega
  obtain ⟨hlow, hhigh⟩ := Decimal.zpow_leadingExponent_le negative e hsome
  rw [hlead] at hlow hhigh
  rw [sub_add_cancel] at hhigh
  have hreach := Decimal.zpow_le_nearest (by omega : t ≤ t + ctx.precision - 1) hlow
  have hbelow := Decimal.nearest_le_zpow (by omega : t ≤ t + ctx.precision) hhigh
  have hdrop := @nearest_eq ctx negative n e t h
  rw [if_neg (by omega), show (t - e).toNat = digitCount n - ctx.precision by omega] at hdrop
  rw [fitPrecision, if_neg (Nat.not_le.2 hn)]
  dsimp only
  rw [← hdrop, ← ht]
  generalize (Decimal.finite negative n e).nearest t = c at hreach hbelow ⊢
  have hten : (0 : ℚ) < (10 : ℚ) ^ t := zpow_pos (by norm_num) t
  have hpos : c ≠ 0 := by
    rintro rfl
    rw [Nat.cast_zero, zero_mul] at hreach
    exact absurd hreach (not_le.2 (zpow_pos (by norm_num) _))
  by_cases hfits : digitCount c ≤ ctx.precision
  · rw [if_pos hfits]
    exact gives_of_leadingExponent hpos rfl
  -- the carry has made a power of ten, which loses its last zero
  obtain ⟨k, hk⟩ : ∃ k, ctx.precision = k + 1 := ⟨ctx.precision - 1, by omega⟩
  have hc : c = tenTo k * 10 := by
    have hle : (c : ℚ) ≤ 10 ^ ctx.precision := by
      rw [add_comm, zpow_add₀ (by norm_num), mul_le_mul_iff_left₀ hten, zpow_natCast] at hbelow
      exact hbelow
    have hge : tenTo ctx.precision ≤ c := Nat.le_of_not_lt (mt (lt_tenTo_iff hp).1 hfits)
    have hle : c ≤ tenTo ctx.precision := by exact_mod_cast hle
    rw [← tenTo_succ, ← hk]
    exact le_antisymm hle hge
  have hquot : c / 10 = tenTo k := by rw [hc, Nat.mul_div_cancel _ (by decide)]
  rw [if_neg hfits]
  dsimp only
  rw [hquot]
  refine gives_of_leadingExponent (tenTo_pos k).ne' ?_
  rw [hc, zpow_add_one₀ (by norm_num)]
  push_cast
  ring

/-- Fitted to the context, a number is rounded to the digits that there is room for. -/
theorem fit_halfUp (h : ctx.rounding = .halfUp) (hp : 0 < ctx.precision)
    (hrange : ctx.least ≤ ctx.greatest) (negative : Bool) (n : Nat) (e : Int) :
    ctx.Gives negative (ctx.rounded (.finite negative n e)) (ctx.fit negative n e) := by
  have hbase : (1 : ℚ) < 10 := by norm_num
  have htiny : ctx.tiny = ctx.least - ctx.precision + 1 := rfl
  unfold fit
  by_cases hn : n = 0
  · have hzero : ctx.rounded (.finite negative n e) = 0 := by
      rw [rounded, Decimal.nearest, Decimal.toRat_eq_zero_iff.2 hn, abs_zero, zero_div, zero_add]
      norm_num
    rw [if_pos hn, hzero]
    exact .inr ⟨zpow_pos (by norm_num) _, 0, _, rfl, by rw [Nat.cast_zero, zero_mul]⟩
  have hlog := Decimal.log_abs_toRat negative e hn
  obtain ⟨hreach, hbelow⟩ := Decimal.zpow_leadingExponent_le negative e hn
  have hlead : Decimal.leadingExponent n e = e + digitCount n - 1 := rfl
  rw [rounded, Decimal.lastPlace, hlog]
  rw [if_neg hn]
  -- the cases are those of the context: too large, too small, and digits to be dropped or none
  by_cases hlarge : ctx.greatest < Decimal.leadingExponent n e
  · -- rounding makes it no smaller
    refine .inl ⟨le_trans (zpow_le_zpow_right₀ hbase.le ?_)
      (Decimal.zpow_le_nearest (by omega) hreach), if_pos hlarge⟩
    omega
  rw [if_neg hlarge]
  by_cases hsmall : Decimal.leadingExponent n e < ctx.least ∧ e < ctx.tiny
  · -- a number below the least exponent is rounded on the smallest one
    have hmax : max (Decimal.leadingExponent n e + 1 - ctx.precision) ctx.tiny = ctx.tiny := by omega
    have hnearest := @nearest_eq ctx negative n e ctx.tiny h
    rw [if_neg (by omega)] at hnearest
    rw [if_pos hsmall, hmax]
    have hleast : |(Decimal.finite negative n e).toRat| < (10 : ℚ) ^ ctx.least :=
      lt_of_lt_of_le hbelow (zpow_le_zpow_right₀ hbase.le (by omega))
    exact .inr ⟨lt_of_le_of_lt (Decimal.nearest_le_zpow (by omega) hleast)
      (zpow_lt_zpow_right₀ hbase (by omega)), _, _, rfl, by rw [hnearest]⟩
  rw [if_neg hsmall]
  by_cases hfits : digitCount n ≤ ctx.precision
  · -- no digit is lost
    generalize hu : max (Decimal.leadingExponent n e + 1 - ctx.precision) ctx.tiny = u
    have hvalue := (Decimal.nearest_mul_zpow negative n (by omega : u ≤ e)).symm
    have hgives := @gives_of_leadingExponent ctx negative n e _ hn hvalue
    rw [if_neg hlarge] at hgives
    rw [fitPrecision_of_le ctx negative e hfits]
    exact hgives
  · exact fitPrecision_halfUp h hp (Nat.lt_of_not_le hfits) (by omega)

/-! ## Sums -/

/-- Where halves are rounded away from zero, a zero has a minus sign if both numbers have one. -/
theorem signOfZero_halfUp (h : ctx.rounding = .halfUp) (negA negB : Bool) :
    ctx.signOfZero negA negB = (negA && negB) := by
  rw [signOfZero, h]
  cases negA <;> cases negB <;> rfl

/-- A sum that is fitted to the context is rounded to it. -/
theorem exists_of_fit (h : ctx.rounding = .halfUp) (hp : 0 < ctx.precision)
    (hrange : ctx.least ≤ ctx.greatest) {result : Except ArithmeticFault Decimal}
    (hresult : ∃ negative n e, result = ctx.fit negative n e ∧
      (Decimal.finite negative n e).toRat =
        (Decimal.finite negA a expA).toRat + (Decimal.finite negB b expB).toRat ∧
      (n = 0 → negative = ctx.signOfZero negA negB)) :
    ∃ s, Decimal.IsSum (.finite negA a expA) (.finite negB b expB) s ∧
      ctx.Gives s.isNegative (ctx.rounded s) result := by
  obtain ⟨negative, n, e, rfl, hvalue, hsign⟩ := hresult
  refine ⟨.finite negative n e, ⟨rfl, hvalue, fun hzero => ?_⟩, fit_halfUp h hp hrange negative n e⟩
  rw [← signOfZero_halfUp h]
  exact hsign (Decimal.toRat_eq_zero_iff.1 hzero)

/-- A number that lies wholly below the digits that rounding looks at can be replaced by one unit
there. -/
theorem gives_of_below (h : ctx.rounding = .halfUp) (hp : 0 < ctx.precision)
    (hrange : ctx.least ≤ ctx.greatest) {k : Int} (ha : a ≠ 0) (hb : b ≠ 0) (hk : k < expA)
    (hk' : k + ctx.precision < Decimal.leadingExponent a expA)
    (hbelow : Decimal.leadingExponent b expB < k) :
    ∃ s, Decimal.IsSum (.finite negA a expA) (.finite negB b expB) s ∧
      ctx.Gives s.isNegative (ctx.rounded s) (ctx.addAligned negA a expA negB 1 k) := by
  have hten : (0 : ℚ) < (10 : ℚ) ^ k := zpow_pos (by norm_num) k
  have hleadB : Decimal.leadingExponent b expB = expB + digitCount b - 1 := rfl
  have hcountB := digitCount_pos b
  obtain ⟨negative, n, -, hexact, hzero⟩ :=
    ctx.exists_addAligned_eq_fit negA a negB b (by omega : expB ≤ expA)
  obtain ⟨negative', n', hadd, hvalue, -⟩ := ctx.exists_addAligned_eq_fit negA a negB 1 hk.le
  -- the second number is a part of a unit, and the unit in its place is a whole one
  obtain ⟨y, hy, hpart, hsmall⟩ : ∃ y : ℚ, 0 < y ∧ (b : ℚ) * 10 ^ expB = y * 10 ^ k ∧ y ≤ 1 := by
    have hlt := lt_of_lt_of_le (Decimal.zpow_leadingExponent_le negB expB hb).2
      (zpow_le_zpow_right₀ (by norm_num) (by omega : _ ≤ k))
    rw [Decimal.abs_toRat] at hlt
    have hpos : (0 : ℚ) < b := by exact_mod_cast Nat.pos_of_ne_zero hb
    exact ⟨b * 10 ^ expB / 10 ^ k, by positivity, (div_mul_cancel₀ _ hten.ne').symm,
      ((div_lt_one hten).2 hlt).le⟩
  rw [Decimal.toRat_eq_signed negB, hpart] at hexact
  rw [Decimal.toRat_eq_signed negB, Nat.cast_one] at hvalue
  have hunits : |y| ≤ 1 := abs_le.2 ⟨by linarith, hsmall⟩
  have hsame := Decimal.sameHalves_of_add ha hk hy hsmall hexact hvalue
  have hreach := Decimal.zpow_le_abs_toRat_of_add ha (by omega) hunits hexact
  have hpos := lt_of_lt_of_le (zpow_pos (by norm_num) _) hreach
  have hplace : Decimal.leadingExponent a expA - 1 ≤
      Int.log 10 |(Decimal.finite negative n expB).toRat| :=
    (Int.zpow_le_iff_le_log (by decide) hpos).1 hreach
  obtain ⟨rfl, -⟩ := Decimal.units_of_add ha hk hunits hexact
  obtain ⟨rfl, -⟩ := Decimal.units_of_add ha hk (by norm_num) hvalue
  have hsome := abs_pos.1 hpos
  have hlast : k < (Decimal.finite negA n expB).lastPlace ctx.precision := by
    rw [Decimal.lastPlace]
    omega
  refine ⟨.finite negA n expB, ⟨rfl, ?_, fun hnone => absurd hnone hsome⟩, ?_⟩
  · rw [hexact, Decimal.toRat_eq_signed negB, hpart]
  · rw [hadd, ← rounded_congr hp hsame hsome hlast]
    exact fit_halfUp h hp hrange negA n' k

/-- Where halves are rounded away from zero, the sum of a number and one on its exponent or a smaller one
is the exact sum, rounded to the context. -/
theorem addOrdered_halfUp (h : ctx.rounding = .halfUp) (hp : 0 < ctx.precision)
    (hrange : ctx.least ≤ ctx.greatest) (hle : expB ≤ expA) :
    ∃ s, Decimal.IsSum (.finite negA a expA) (.finite negB b expB) s ∧
      ctx.Gives s.isNegative (ctx.rounded s) (ctx.addOrdered negA a expA negB b expB) := by
  unfold addOrdered
  by_cases ha : a = 0
  · refine exists_of_fit h hp hrange ⟨_, b, expB, if_pos ha, ?_, fun hb => if_pos hb⟩
    rw [Decimal.toRat_eq_zero_iff.2 ha, zero_add]
    by_cases hb : b = 0
    · rw [Decimal.toRat_eq_zero_iff.2 hb, Decimal.toRat_eq_zero_iff.2 hb]
    · rw [if_neg hb]
  rw [if_neg ha]
  dsimp only
  generalize hsticky : expA - 1 + (if ctx.precision < digitCount a then 0
    else (digitCount a : Int) - ctx.precision - 1) = sticky
  have hlead : Decimal.leadingExponent a expA = expA + digitCount a - 1 := rfl
  have hcount := digitCount_pos a
  by_cases hbelow : expB < expA ∧ Decimal.leadingExponent b expB < sticky
  · rw [if_pos hbelow]
    -- nothing stands behind the digits, or something that one unit may stand for
    by_cases hb : b = 0
    · obtain ⟨negative, n, hadd, hvalue, hsign⟩ :=
        ctx.exists_addAligned_eq_fit negA a negB (min b 1)
          (by split at hsticky <;> omega : sticky ≤ expA)
      refine exists_of_fit h hp hrange ⟨negative, n, sticky, hadd, ?_, hsign⟩
      have hnone : min b 1 = 0 := by omega
      rw [hvalue, Decimal.toRat_eq_zero_iff.2 hnone, Decimal.toRat_eq_zero_iff.2 hb]
    · rw [Nat.min_eq_right (Nat.pos_of_ne_zero hb)]
      refine gives_of_below h hp hrange ha hb ?_ ?_ hbelow.2
      · split at hsticky <;> omega
      · split at hsticky <;> omega
  · rw [if_neg hbelow]
    obtain ⟨negative, n, hadd, hvalue, hsign⟩ := ctx.exists_addAligned_eq_fit negA a negB b hle
    exact exists_of_fit h hp hrange ⟨negative, n, expB, hadd, hvalue, hsign⟩

/-- Where halves are rounded away from zero, a sum is the exact sum, rounded to the context. -/
theorem add_halfUp (h : ctx.rounding = .halfUp) (hp : 0 < ctx.precision)
    (hrange : ctx.least ≤ ctx.greatest) (hl : l.isFinite = true) (hr : r.isFinite = true) :
    ∃ s, l.IsSum r s ∧ ctx.Gives s.isNegative (ctx.rounded s) (ctx.add l r) := by
  cases l with
  | infinite _ | nan _ _ _ => cases hl
  | finite negA a expA =>
    cases r with
    | infinite _ | nan _ _ _ => cases hr
    | finite negB b expB =>
      by_cases hle : expB ≤ expA
      · rw [show ctx.add (.finite negA a expA) (.finite negB b expB) = _ from if_pos hle]
        exact addOrdered_halfUp h hp hrange hle
      · rw [show ctx.add (.finite negA a expA) (.finite negB b expB) = _ from if_neg hle]
        obtain ⟨s, hs, hgives⟩ := addOrdered_halfUp h hp hrange (Int.le_of_lt (Int.not_le.1 hle))
        exact ⟨s, hs.symm, hgives⟩

end DecimalContext

end RewardLedger
