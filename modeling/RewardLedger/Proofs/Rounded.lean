import RewardLedger.Proofs.Accepted

/-!
# Amounts are rounded exactly, and once

Where halves are rounded away from zero, an amount is the number with that many places that is
nearest to the one it was given as (`Decimal.RoundsTo`). There is only one such number
(`Decimal.RoundsTo.unique`), and it is the amount that is read, unless it has more digits than the
precision allows for, which makes it an invalid amount (`Money.reads_rounded`). An amount that was
read is read again as it is, from its text too.
-/

namespace RewardLedger

namespace Decimal

variable {negative : Bool} {c : Nat} {e t : Int} {d a : Decimal}

/-- Rounding to the exponent `t` takes the number `d` to the number `a` if `a` has the sign of `d`,
no number on the exponent is nearer to `d`, and none that is as near is further away from zero. -/
structure RoundsTo (d : Decimal) (t : Int) (a : Decimal) : Prop where
  /-- The sign is kept, and the exponent is as it should be. -/
  form : ∃ negative c e n, d = finite negative c e ∧ a = finite negative n t
  /-- No number on the exponent is nearer. -/
  nearest : ∀ negative n, |a.toRat - d.toRat| ≤ |(finite negative n t).toRat - d.toRat|
  /-- No number that is as near is further away from zero. -/
  away : ∀ negative n, |(finite negative n t).toRat - d.toRat| = |a.toRat - d.toRat| →
    |(finite negative n t).toRat| ≤ |a.toRat|

/-- A number is rounded to one number only. -/
theorem RoundsTo.unique {a' : Decimal} (h : d.RoundsTo t a) (h' : d.RoundsTo t a') : a = a' := by
  obtain ⟨negative, c, e, n, rfl, rfl⟩ := h.form
  obtain ⟨_, _, _, n', heq, rfl⟩ := h'.form
  cases heq
  have hdistance := le_antisymm (h.nearest negative n') (h'.nearest negative n)
  have hmagnitude := le_antisymm (h'.away _ _ hdistance) (h.away _ _ hdistance.symm)
  have hten : (10 : ℚ) ^ t ≠ 0 := zpow_ne_zero t (by norm_num)
  rw [abs_toRat, abs_toRat, mul_left_inj' hten, Nat.cast_inj] at hmagnitude
  rw [hmagnitude]

/-- A whole number less than half a unit below a magnitude, or half a unit above it, is nearest to
it, and the greatest in magnitude of those that are. -/
theorem nearest_of_halves {n : Nat} {q : ℚ} (hq : 0 ≤ q) (hlow : (n : ℚ) - 1 / 2 ≤ q)
    (hhigh : q < n + 1 / 2) (z : Int) :
    |(n : ℚ) - q| ≤ |(z : ℚ) - q| ∧ (|(z : ℚ) - q| = |(n : ℚ) - q| → |(z : ℚ)| ≤ n) := by
  have hhalf : |(n : ℚ) - q| ≤ 1 / 2 := abs_le.2 ⟨by linarith, by linarith⟩
  rcases lt_trichotomy z n with hz | rfl | hz
  · -- below: as near only if the magnitude is halfway
    have hstep : (z : ℚ) ≤ n - 1 := by exact_mod_cast Int.le_sub_one_of_lt hz
    have habs : |(z : ℚ) - q| = q - z := by
      rw [abs_of_nonpos (by linarith)]
      ring
    rw [habs]
    refine ⟨hhalf.trans (by linarith), fun heq => abs_le.2 ⟨?_, by linarith⟩⟩
    rw [heq.symm] at hhalf
    have hnonneg : (0 : ℚ) ≤ n := Nat.cast_nonneg n
    linarith
  · rw [Int.cast_natCast]
    exact ⟨le_rfl, fun _ => (abs_of_nonneg (Nat.cast_nonneg n)).le⟩
  · -- above: further away
    have hstep : (n : ℚ) + 1 ≤ z := by exact_mod_cast hz
    have habs : |(z : ℚ) - q| = z - q := abs_of_nonneg (by linarith)
    rw [habs]
    exact ⟨hhalf.trans (by linarith), fun heq => absurd hhalf (by rw [← heq]; linarith)⟩

/-- The number on the exponent is a whole number of units, counted towards the side of zero that a
number of `q` units is on. -/
theorem exists_units (negative negative' : Bool) {c : Nat} {e t : Int} {q : ℚ}
    (hq : (c : ℚ) * 10 ^ e = q * 10 ^ t) (k : Nat) :
    ∃ z : Int,
      |(finite negative' k t).toRat - (finite negative c e).toRat| = |(z : ℚ) - q| * 10 ^ t ∧
      |(finite negative' k t).toRat| = |(z : ℚ)| * 10 ^ t ∧ (negative' = negative → z = k) := by
  have hten : (0 : ℚ) < (10 : ℚ) ^ t := zpow_pos (by norm_num) t
  have hsign : |(DecimalContext.signed negative 1 : ℚ)| = 1 := by
    cases negative <;> simp [DecimalContext.signed]
  have hvalue : (finite negative c e).toRat = DecimalContext.signed negative 1 * (q * 10 ^ t) := by
    rw [← hq]
    cases negative <;> simp [toRat, DecimalContext.signed]
  have hother : (finite negative' k t).toRat = DecimalContext.signed negative 1 *
      (DecimalContext.signed (negative' != negative) k * 10 ^ t) := by
    cases negative <;> cases negative' <;> simp [toRat, DecimalContext.signed]
  refine ⟨DecimalContext.signed (negative' != negative) k, ?_, ?_, ?_⟩
  · rw [hother, hvalue, ← mul_sub, ← sub_mul, abs_mul, hsign, one_mul, abs_mul, abs_of_pos hten]
  · rw [hother, abs_mul, hsign, one_mul, abs_mul, abs_of_pos hten]
  · rintro rfl
    simp [DecimalContext.signed]

/-- A finite number is rounded to the nearest whole number of units, with its sign. -/
theorem roundsTo_nearest (negative : Bool) (c : Nat) (e t : Int) :
    (finite negative c e).RoundsTo t (finite negative ((finite negative c e).nearest t) t) := by
  have hten : (0 : ℚ) < (10 : ℚ) ^ t := zpow_pos (by norm_num) t
  obtain ⟨hlow, hhigh⟩ := nearest_spec t (finite negative c e)
  rw [abs_toRat] at hlow hhigh
  generalize (finite negative c e).nearest t = n at hlow hhigh ⊢
  generalize hq : (c : ℚ) * 10 ^ e / 10 ^ t = q at hlow hhigh
  have hunits : (c : ℚ) * 10 ^ e = q * 10 ^ t := by rw [← hq, div_mul_cancel₀ _ hten.ne']
  have hnonneg : 0 ≤ q := by
    rw [← hq]
    positivity
  obtain ⟨z, hz, hzabs, hzn⟩ := exists_units negative negative hunits n
  obtain rfl := hzn rfl
  rw [Int.cast_natCast] at hz hzabs
  refine ⟨⟨negative, c, e, n, rfl, rfl⟩, fun negative' k => ?_, fun negative' k heq => ?_⟩
  · obtain ⟨z, hz', -, -⟩ := exists_units negative negative' hunits k
    rw [hz, hz', mul_le_mul_iff_left₀ hten]
    exact (nearest_of_halves hnonneg hlow hhigh z).1
  · obtain ⟨z, hz', hzabs', -⟩ := exists_units negative negative' hunits k
    rw [hz, hz', mul_left_inj' hten.ne'] at heq
    rw [hzabs, hzabs', mul_le_mul_iff_left₀ hten, Nat.abs_cast]
    exact (nearest_of_halves hnonneg hlow hhigh z).2 heq

/-- A finite number is greater than zero if it has no sign and is no zero. -/
theorem isPositive_iff (hd : d.isFinite = true) : d.isPositive = true ↔ 0 < d.toRat := by
  cases d with
  | infinite _ | nan _ _ _ => cases hd
  | finite negative c e =>
    have hten : (0 : ℚ) < (10 : ℚ) ^ e := zpow_pos (by norm_num) e
    rw [toRat, mul_pos_iff_of_pos_right hten, Int.cast_pos]
    cases negative <;> simp [isPositive, DecimalContext.signed, Nat.pos_iff_ne_zero]

/-- The number of digits of a finite number. -/
def digits : Decimal → Nat
  | finite _ c _ => digitCount c
  | _ => 0

end Decimal

/-- The value is the decimal number, or a text that is read as it. -/
def Value.Gives (v : Value) (d : Decimal) : Prop :=
  v = .decimal d ∨ ∃ s, v = .str s ∧ Decimal.ofText? s = some d

namespace Money

variable {m : Money} {places precision : Int} {v : Value} {d a : Decimal}

/-- What gives a number is read as it. -/
theorem readNumber_of_gives (h : v.Gives d) : readNumber v = .ok d := by
  rcases h with rfl | ⟨s, rfl, hs⟩
  · rfl
  · unfold readNumber Value.plain
    dsimp only
    rw [show Decimal.ofChars? s.toList = some d from hs]

/-- What gives a finite number is read as the amount that the number is rounded to. -/
theorem parse_of_gives (h : v.Gives d) (hd : d.isFinite = true) : m.parse v = m.quantize d := by
  simp only [parse, readNumber_of_gives h, bind, Except.bind, hd, if_true]

/-- What was read as an amount is read again as it is, from its number and from its text. -/
theorem parse_again (hm : m.context.greatest ≤ Decimal.greatestExponent) (h : m.parse v = .ok a) :
    m.parse (.decimal a) = .ok a ∧ m.parse (.str a.text) = .ok a := by
  obtain ⟨d, hd, hq⟩ := exists_of_parse h
  obtain ⟨hf, hself⟩ := quantize_self hq hd
  have htext : Value.Gives (.str a.text) a := .inr ⟨_, rfl, ofText?_text_of_parse hm h⟩
  exact ⟨(parse_of_gives (.inl rfl) hf).trans hself, (parse_of_gives htext hf).trans hself⟩

/-- Where halves are rounded away from zero, the amount that a finite number is rounded to has that
many places, the precision being no greater than the exponents allow for. -/
theorem exists_of_make (hplaces : 0 ≤ places ∧ places ≤ 8)
    (hprecision : 1 ≤ precision ∧ precision ≤ 999999) :
    ∃ m, make (some places) precision .halfUp = .ok m ∧ m.HalvesUp places ∧
      (m.context.room (-places) : Int) = precision := by
  obtain ⟨hlow, hhigh⟩ := hprecision
  have hmax : DecimalContext.maxPrecision = 999999999999999999 := rfl
  refine ⟨⟨some places, { precision := precision.toNat, rounding := .halfUp }⟩, ?_,
    ⟨rfl, rfl, ?_, rfl, rfl, ?_⟩, ?_⟩
  · rw [make, if_pos ⟨hlow, by omega⟩]
  · show 0 < precision.toNat
    omega
  · omega
  · show ((min precision.toNat (999999 + 1 - -places).toNat : Nat) : Int) = precision
    omega

/-- What becomes of a value that is rounded to an amount of a precision: the amount is read unless
it has too many digits, it is accepted as a positive one if it is greater than zero as well, and what
was read is read again as it is. -/
structure Reads (m : Money) (precision : Int) (v : Value) (a : Decimal) : Prop where
  /-- An amount that does not have too many digits is read. -/
  parse_eq : a.digits ≤ precision → m.parse v = .ok a
  /-- An amount with too many digits is invalid. -/
  parse_error : precision < a.digits →
    ∃ fault : Fault, m.parse v = .error (.fault fault) ∧ fault.kind = .invalidAmount
  /-- An amount that is read is accepted as a positive one if it is greater than zero. -/
  positive_eq : a.digits ≤ precision → 0 < a.toRat → m.positive v = .ok a
  /-- Any other amount is invalid as a positive one. -/
  positive_error : precision < a.digits ∨ a.toRat ≤ 0 →
    ∃ fault : Fault, m.positive v = .error (.fault fault) ∧ fault.kind = .invalidAmount
  /-- What was read is read again as it is, from its number and from its text. -/
  again : ∀ b, m.parse v = .ok b →
    m.parse (.decimal b) = .ok b ∧ m.parse (.str b.text) = .ok b

/-- The amount that a finite number is rounded to is read, unless it has too many digits. -/
theorem HalvesUp.reads (hm : m.HalvesUp places)
    (hroom : (m.context.room (-places) : Int) = precision)
    (hprecision : 1 ≤ precision ∧ precision ≤ 999999) {negative : Bool} {c : Nat} {e : Int}
    (hv : v.Gives (.finite negative c e)) :
    m.Reads precision v
      (.finite negative ((Decimal.finite negative c e).nearest (-places)) (-places)) := by
  have hparse := (parse_of_gives hv rfl (m := m)).trans (hm.quantize negative c e)
  have hfits := lt_tenTo_iff (n := (Decimal.finite negative c e).nearest (-places))
    (k := m.context.room (-places)) (by omega)
  generalize (Decimal.finite negative c e).nearest (-places) = n at hparse hfits ⊢
  have hdigits : (Decimal.finite negative n (-places)).digits = digitCount n := rfl
  -- whether the amount is accepted depends on the number of its digits alone
  have hok : digitCount n ≤ precision →
      m.parse v = .ok (.finite negative n (-places)) := fun h => by
    rw [hparse, if_pos (hfits.2 (by omega))]
  have herror : precision < digitCount n →
      m.parse v = .error (.fault (.amountRange (.finite negative c e))) := fun h => by
    rw [hparse, if_neg (mt hfits.1 (by omega))]
  have hpositive := Decimal.isPositive_iff (d := .finite negative n (-places)) rfl
  have hgreatest : m.context.greatest ≤ Decimal.greatestExponent := by
    rw [hm.greatest]
    decide
  refine ⟨hok, fun h => ⟨.amountRange _, herror h, rfl⟩, fun h hpos => ?_, fun h => ?_,
    fun b hb => parse_again hgreatest hb⟩
  · rw [positive, hok h]
    exact if_pos (hpositive.2 hpos)
  · by_cases hlong : precision < digitCount n
    · refine ⟨.amountRange (.finite negative c e), ?_, rfl⟩
      rw [positive, herror hlong]
      rfl
    · have hnot := mt hpositive.1 (not_lt.2 (h.resolve_left hlong))
      refine ⟨.amountNotPositive, ?_, rfl⟩
      rw [positive, hok (by omega)]
      exact if_neg hnot

/-- Where halves are rounded away from zero, every finite number, given as a number or as a text, is
read as the amount that it is rounded to, unless that one has too many digits. -/
theorem reads_rounded (hplaces : 0 ≤ places ∧ places ≤ 8)
    (hprecision : 1 ≤ precision ∧ precision ≤ 999999) :
    ∃ m, make (some places) precision .halfUp = .ok m ∧
      ∀ (v : Value) (d : Decimal), v.Gives d → d.isFinite = true →
        ∃ a, d.RoundsTo (-places) a ∧ (∀ a', d.RoundsTo (-places) a' → a' = a) ∧
          m.Reads precision v a := by
  obtain ⟨m, hmake, hm, hroom⟩ := exists_of_make hplaces hprecision
  refine ⟨m, hmake, fun v d hv hd => ?_⟩
  cases d with
  | infinite _ | nan _ _ _ => cases hd
  | finite negative c e =>
    have hrounds := Decimal.roundsTo_nearest negative c e (-places)
    exact ⟨_, hrounds, fun a' ha' => ha'.unique hrounds, hm.reads hroom hprecision hv⟩

/-- With two places, half a cent more than ten, given as a text among blanks, is ten and a cent. -/
theorem reads_rounded_half_cent :
    ((0 : Int) ≤ 2 ∧ (2 : Int) ≤ 8) ∧ ((1 : Int) ≤ 28 ∧ (28 : Int) ≤ 999999) ∧
      ∃ m, make (some 2) 28 .halfUp = .ok m ∧
        m.parse (.str " 1000.5e-2 ") = .ok (.finite false 1001 (-2)) := by
  have hplaces : (0 : Int) ≤ 2 ∧ (2 : Int) ≤ 8 := by decide
  have hprecision : (1 : Int) ≤ 28 ∧ (28 : Int) ≤ 999999 := by decide
  have hgives : Value.Gives (.str " 1000.5e-2 ") (.finite false 10005 (-3)) :=
    .inr ⟨_, rfl, by decide⟩
  have hnearest : (Decimal.finite false 10005 (-3)).nearest (-2) = 1001 := by
    rw [standard.context.nearest_eq rfl]
    decide
  obtain ⟨m, hmake, h⟩ := reads_rounded hplaces hprecision
  obtain ⟨a, -, hunique, hreads⟩ := h _ _ hgives rfl
  obtain rfl := hunique _ (Decimal.roundsTo_nearest false 10005 (-3) (-2))
  rw [hnearest] at hreads
  exact ⟨hplaces, hprecision, m, hmake, hreads.parse_eq (by decide)⟩

end Money

end RewardLedger
