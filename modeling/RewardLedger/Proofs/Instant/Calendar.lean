import RewardLedger.Instant.Basic

/-!
# The calendar

A day between the years 1 and 9999 has one date, and the date leads back to the day
(`daysOf?_dateOf`). The year is found first, by periods of 400, 100, 4 years and one year: the last
of the periods inside a longer one may be a day longer than the others, which is the leap day
(`dayOfYear_spec`). The month is then found by passing over the months before it (`monthAndDay_spec`).
-/

namespace RewardLedger.Instant

/-! ## Months -/

/-- The sum of numbers does not depend on where it starts. -/
theorem foldl_add_start (ns : List Nat) (k : Nat) :
    ns.foldl (· + ·) k = k + ns.foldl (· + ·) 0 := by
  induction ns generalizing k with
  | nil => rfl
  | cons n ns ih => rw [List.foldl_cons, List.foldl_cons, ih (k + n), ih (0 + n)]; omega

/-- A day that lies within months of these lengths lies in one of them, as many days after its start
as there are left when those before it have been passed over. -/
theorem monthAndDay_spec {lengths : List Nat} {day : Nat} (h : day < lengths.foldl (· + ·) 0)
    (passed : Nat) :
    ∃ month inMonth length, monthAndDay lengths passed day = (passed + month + 1, inMonth + 1) ∧
      lengths[month]? = some length ∧ inMonth < length ∧
      (lengths.take month).foldl (· + ·) 0 + inMonth = day := by
  induction lengths generalizing day passed with
  | nil => exact absurd h (Nat.not_lt_zero day)
  | cons n rest ih =>
    rw [List.foldl_cons, foldl_add_start, Nat.zero_add] at h
    rw [monthAndDay]
    by_cases hday : day < n
    · rw [if_pos hday]
      exact ⟨0, day, n, rfl, rfl, hday, Nat.zero_add day⟩
    · have hrest : day - n < rest.foldl (· + ·) 0 := by omega
      obtain ⟨month, inMonth, length, hfound, hlength, hlt, hsum⟩ := ih hrest (passed + 1)
      rw [if_neg hday, hfound]
      refine ⟨month + 1, inMonth, length, ?_, hlength, hlt, ?_⟩
      · rw [Nat.add_right_comm passed 1 month]
        rfl
      · rw [List.take_succ_cons, List.foldl_cons, foldl_add_start]
        omega

/-- The months of a year take 365 days, or 366 in a leap year. -/
theorem sum_monthLengths (year : Nat) :
    (monthLengths year).foldl (· + ·) 0 = if isLeap year then 366 else 365 := by
  unfold monthLengths
  split <;> rfl

/-! ## Years -/

/-- Dividing by the length of a period, at most three times, leaves no more than a period and a
day. -/
theorem min_div_spec {n r period : Nat} (hperiod : 0 < period) (h : r ≤ 4 * period)
    (hn : n = min 3 (r / period)) :
    n ≤ 3 ∧ period * n ≤ r ∧ (n < 3 → r - period * n < period) ∧ r - period * n ≤ period := by
  have hle : period * (r / period) ≤ r := Nat.mul_div_le r period
  have hlt : r < period * (r / period + 1) := Nat.lt_mul_div_succ r hperiod
  rcases Nat.lt_or_ge (r / period) 3 with hsmall | hlarge
  · have heq : n = r / period := by omega
    rw [heq]
    rw [Nat.mul_succ] at hlt
    exact ⟨by omega, hle, fun _ => by omega, by omega⟩
  · have heq : n = 3 := by omega
    have hthree : period * 3 ≤ r := Nat.le_trans (Nat.mul_le_mul_left period hlarge) hle
    rw [heq]
    exact ⟨Nat.le_refl 3, hthree, fun hn3 => absurd hn3 (by decide), by omega⟩

/-- The days before a year are those of the periods before it. -/
theorem daysBeforeYear_of_periods {n400 n100 n4 n1 : Nat} (hn100 : n100 ≤ 3) (hn4 : n4 ≤ 24)
    (hn1 : n1 ≤ 3) :
    daysBeforeYear (400 * n400 + 100 * n100 + 4 * n4 + n1 + 1) =
      146097 * n400 + 36524 * n100 + 1461 * n4 + 365 * n1 := by
  have hfours : (400 * n400 + 100 * n100 + 4 * n4 + n1) / 4 = 100 * n400 + 25 * n100 + n4 := by
    omega
  have hhundreds : (400 * n400 + 100 * n100 + 4 * n4 + n1) / 100 = 4 * n400 + n100 := by omega
  have hperiods : (400 * n400 + 100 * n100 + 4 * n4 + n1) / 400 = n400 := by omega
  simp only [daysBeforeYear, Nat.add_sub_cancel, hfours, hhundreds, hperiods]
  omega

/-- The last of four years is a leap year, unless it is the last of a hundred and these are not the
last of four hundred. -/
theorem isLeap_of_periods {n400 n100 n4 : Nat} (hn4 : n4 < 24 ∨ n4 = 24 ∧ n100 = 3) :
    isLeap (400 * n400 + 100 * n100 + 4 * n4 + 3 + 1) = true := by
  have hfour : (400 * n400 + 100 * n100 + 4 * n4 + 3 + 1) % 4 = 0 := by omega
  simp only [isLeap, Bool.and_eq_true, Bool.or_eq_true, beq_iff_eq, bne_iff_ne]
  refine ⟨hfour, ?_⟩
  rcases hn4 with hlt | ⟨hlast, hthree⟩
  · exact Or.inl (by omega)
  · exact Or.inr (by omega)

/-- The periods before a day take no more days than there are, and what is left of them lies within
the year that follows. -/
theorem dayOfYear_spec {days n400 r400 n100 r100 n4 r4 n1 : Nat}
    (h400 : n400 = days / 146097) (hr400 : r400 = days % 146097)
    (h100 : n100 = min 3 (r400 / 36524)) (hr100 : r100 = r400 - 36524 * n100)
    (h4 : n4 = r100 / 1461) (hr4 : r4 = r100 % 1461) (h1 : n1 = min 3 (r4 / 365)) :
    daysBeforeYear (400 * n400 + 100 * n100 + 4 * n4 + n1 + 1) + (r4 - 365 * n1) = days ∧
      r4 - 365 * n1 <
        if isLeap (400 * n400 + 100 * n100 + 4 * n4 + n1 + 1) then 366 else 365 := by
  have hdays : days = 146097 * n400 + r400 := by omega
  have hr400lt : r400 < 146097 := by omega
  obtain ⟨hn100, hle100, hshort100, hrest100⟩ := min_div_spec (by decide) (by omega) h100
  rw [← hr100] at hshort100 hrest100
  have hr100eq : r100 = 1461 * n4 + r4 := by omega
  have hn4 : n4 ≤ 24 := by omega
  have hr4lt : r4 < 1461 := by omega
  obtain ⟨hn1, hle1, hshort1, hrest1⟩ := min_div_spec (by decide) (by omega) h1
  clear h400 hr400 h100 h4 hr4 h1
  constructor
  · rw [daysBeforeYear_of_periods hn100 hn4 hn1]
    omega
  · rcases Nat.lt_or_ge n1 3 with hlt | hge
    · have hshort := hshort1 hlt
      split <;> omega
    · obtain rfl : n1 = 3 := Nat.le_antisymm hn1 hge
      rcases Nat.lt_or_ge (r4 - 365 * 3) 365 with hday | hday
      · split <;> omega
      · -- the day that this year has more than others
        have hlast : n4 < 24 ∨ n4 = 24 ∧ n100 = 3 := by omega
        rw [if_pos (isLeap_of_periods hlast)]
        omega

/-! ## Dates -/

/-- The first day after the year 9999. -/
theorem daysBeforeYear_10000 : daysBeforeYear 10000 = 3652059 := by decide

/-- A month of a year is one of twelve, and has at most 31 days. -/
theorem bounds_of_monthLengths {year month length : Nat}
    (h : (monthLengths year)[month]? = some length) : month < 12 ∧ length ≤ 31 := by
  obtain ⟨hmonth, -⟩ := List.getElem?_eq_some_iff.1 h
  have hlengths : ∀ n ∈ monthLengths year, n ≤ 31 := by
    unfold monthLengths
    split <;> decide
  exact ⟨hmonth, hlengths length (List.mem_of_getElem? h)⟩

/-- A day before the end of the year 9999 has a date, which leads back to the day. -/
theorem daysOf?_dateOf {days : Nat} (h : days < 3652059) :
    ∃ year month day, dateOf days = (year, month, day) ∧ isDate year month day = true ∧
      daysOf? year month day = some days ∧ year ≤ 9999 ∧ month ≤ 12 ∧ day ≤ 31 := by
  unfold dateOf
  dsimp only
  -- the cycles of 400, 100 and 4 years and the single years that the day comes after
  generalize h400 : days / 146097 = n400
  generalize hr400 : days % 146097 = r400
  generalize h100 : min 3 (r400 / 36524) = n100
  generalize hr100 : r400 - 36524 * n100 = r100
  generalize h4 : r100 / 1461 = n4
  generalize hr4 : r100 % 1461 = r4
  generalize h1 : min 3 (r4 / 365) = n1
  obtain ⟨hdays, hlt⟩ :=
    dayOfYear_spec h400.symm hr400.symm h100.symm hr100.symm h4.symm hr4.symm h1.symm
  generalize hyear : 400 * n400 + 100 * n100 + 4 * n4 + n1 + 1 = year at hdays hlt
  -- each later year begins after the last day that there is
  have hlast : year ≤ 9999 := by
    have hmono : ∀ y, 10000 ≤ y → 3652059 ≤ daysBeforeYear y := fun y hy => by
      simp only [daysBeforeYear]
      omega
    refine Nat.le_of_not_lt fun hlater => ?_
    have hafter := hmono year hlater
    omega
  rw [← sum_monthLengths] at hlt
  obtain ⟨month, inMonth, length, hfound, hlength, hinMonth, hsum⟩ := monthAndDay_spec hlt 0
  obtain ⟨hmonth, hshort⟩ := bounds_of_monthLengths hlength
  rw [Nat.zero_add] at hfound
  rw [hfound]
  have hdate : isDate year (month + 1) (inMonth + 1) = true := by
    rw [isDate, Nat.add_sub_cancel, hlength]
    simp only [Bool.and_eq_true, decide_eq_true_eq]
    exact ⟨⟨⟨hlast, Nat.succ_pos _⟩, Nat.succ_pos _⟩, hinMonth⟩
  refine ⟨year, month + 1, inMonth + 1, rfl, hdate, ?_, hlast, by omega, by omega⟩
  rw [daysOf?, if_pos ⟨by omega, hdate⟩, Nat.add_sub_cancel]
  exact congrArg some (by omega)

end RewardLedger.Instant
