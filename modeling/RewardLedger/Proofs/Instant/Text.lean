import RewardLedger.Instant.Timestamp
import RewardLedger.Proofs.Instant.Calendar
import RewardLedger.Proofs.Number.Digits

/-!
# Reading instants back

An instant is written with its local date and time of day and with its offset in whole minutes. Read
back it shows the same date and time of day (`read_zuluText`); the seconds of its offset are lost
(`inMinutes`), so that an instant with such seconds comes back as another point in time.

What comes back is written as before with one exception (`zuluText_inMinutes`): an offset of less than
a minute is written as `+00:00` or `-00:00`, read as the offset zero, and that is written as `Z`.
-/

namespace RewardLedger.Instant

/-- The instant lies in the years 1 to 9999 of its local calendar, and its offset is less than a
day. -/
def Valid (t : Instant) : Prop :=
  t.exists? = true ∧ ∀ offset, t.offset = some offset → offset.natAbs < 86400

/-- An instant without an offset from Greenwich exists if its local calendar has it. -/
theorem valid_of_utc {t : Instant} (h : t.exists? = true) (ho : t.offset = some 0) : t.Valid :=
  ⟨h, fun offset hoffset => by
    rw [← Option.some.inj (ho.symm.trans hoffset)]
    decide⟩

/-- What is later than an instant that exists is one that exists, if there is such an instant at all. -/
theorem Valid.later? {t u : Instant} (h : t.Valid) {d : Int} (hu : t.later? d = some u) :
    u.Valid := by
  unfold Instant.later? at hu
  dsimp only at hu
  split at hu
  · rename_i hexists
    cases hu
    exact ⟨hexists, h.2⟩
  · cases hu

/-- The offset without its seconds. -/
def wholeMinutes (offset : Int) : Int :=
  if offset < 0 then -((60 * (offset.natAbs / 60) : Nat) : Int)
  else ((60 * (offset.natAbs / 60) : Nat) : Int)

/-- The same local date and time of day, with an offset in whole minutes. -/
def inMinutes (t : Instant) : Instant :=
  let offset := t.offset.map wholeMinutes
  ⟨t.localMicros - offset.getD 0 * 1000000, offset⟩

/-- The offset is not known, zero, or at least a minute. -/
def KeepsZone (t : Instant) : Prop :=
  ∀ offset, t.offset = some offset → offset = 0 ∨ 60 ≤ offset.natAbs

/-- Whether an instant keeps its zone can be found out. -/
instance (t : Instant) : Decidable t.KeepsZone :=
  match h : t.offset with
  | none => .isTrue fun _ ho => by rw [h] at ho; cases ho
  | some offset =>
    decidable_of_iff (offset = 0 ∨ 60 ≤ offset.natAbs)
      ⟨fun hkeeps o ho => by rw [h] at ho; cases ho; exact hkeeps, fun hkeeps => hkeeps offset h⟩

/-! ## Numbers in front of a text -/

/-- A padded number in front of a text is read, and the text is left. -/
theorem takeNumber_paddedText {width n : Nat} (hwidth : 0 < width) (h : n < tenTo width)
    (rest : List Char) : takeNumber width (paddedText width n ++ rest) = some (n, rest) := by
  have hlength := length_paddedText hwidth h
  have htake : (paddedText width n ++ rest).take width = paddedText width n :=
    List.take_left' hlength
  have hdrop : (paddedText width n ++ rest).drop width = rest := List.drop_left' hlength
  have hchars : ∀ c ∈ paddedText width n, c ∈ digitChars := by
    rw [paddedText_eq]
    exact mem_map_digitChar fun _ => lt_of_mem_paddedDigits
  have hdigits : (paddedText width n).all Char.isDigit = true :=
    List.all_eq_true.2 fun c hc => isDigit_of_mem (hchars c hc)
  have hvalue : ofDigits ((paddedText width n).map fun c => c.toNat - 0x30) = n := by
    rw [paddedText_eq, map_toNat_map_digitChar fun _ => lt_of_mem_paddedDigits,
      ofDigits_paddedDigits]
  rw [takeNumber, htake, if_pos ⟨hlength, hdigits⟩, hvalue, hdrop]

/-- A date that the calendar has is read in front of a text. -/
theorem takeDate_paddedText {year month day : Nat} (hdate : isDate year month day = true)
    (hyear : year ≤ 9999) (hmonth : month ≤ 12) (hday : day ≤ 31) (rest : List Char) :
    takeDate (paddedText 4 year ++ '-' :: (paddedText 2 month ++ '-' :: (paddedText 2 day ++ rest))) =
      some (⟨year, month, day⟩, rest) := by
  have htwo : tenTo 2 = 100 := rfl
  have hfour : tenTo 4 = 10000 := rfl
  have h1 : ∀ rest, takeNumber 4 (paddedText 4 year ++ rest) = some (year, rest) :=
    takeNumber_paddedText (by decide) (by omega)
  have h2 : ∀ rest, takeNumber 2 (paddedText 2 month ++ rest) = some (month, rest) :=
    takeNumber_paddedText (by decide) (by omega)
  have h3 : ∀ rest, takeNumber 2 (paddedText 2 day ++ rest) = some (day, rest) :=
    takeNumber_paddedText (by decide) (by omega)
  simp [takeDate, takeChar, h1, h2, h3, hdate]

/-- The text does not go on with a fraction of a second or with digits. -/
def EndsClock (rest : List Char) : Prop :=
  ∀ c ∈ rest.head?, c ≠ '.' ∧ c ≠ ',' ∧ c.isDigit = false

/-- The seconds and their fraction are read in front of what ends a time of day. -/
theorem takeSeconds_paddedText {second micro : Nat} (hsecond : second < 60) (hmicro : micro < 1000000)
    {rest : List Char} (hrest : EndsClock rest) :
    takeSeconds (':' :: (paddedText 2 second ++
      ((if micro = 0 then [] else '.' :: paddedText 6 micro) ++ rest))) =
      some (second, micro, rest) := by
  have htwo : tenTo 2 = 100 := rfl
  have hsix : tenTo 6 = 1000000 := rfl
  have h1 : ∀ rest, takeNumber 2 (paddedText 2 second ++ rest) = some (second, rest) :=
    takeNumber_paddedText (by decide) (by omega)
  by_cases hzero : micro = 0
  · -- no fraction is written, and what follows is none
    rw [if_pos hzero, List.nil_append]
    cases rest with
    | nil =>
      have hread : takeNumber 2 (paddedText 2 second) = some (second, []) := by
        rw [← h1 [], List.append_nil]
      simp [takeSeconds, hread, hzero]
    | cons c rest =>
      obtain ⟨hpoint, hcomma, -⟩ := hrest c rfl
      simp [takeSeconds, h1, hzero, hpoint, hcomma]
  · -- six digits of a fraction denote microseconds
    have hlength : (paddedText 6 micro).length = 6 := length_paddedText (by decide) (by omega)
    have hchars : ∀ c ∈ paddedText 6 micro, c.isDigit = true := by
      rw [paddedText_eq]
      exact fun c hc => isDigit_of_mem (mem_map_digitChar (fun _ => lt_of_mem_paddedDigits) c hc)
    have htake : (paddedText 6 micro ++ rest).takeWhile Char.isDigit = paddedText 6 micro := by
      rw [List.takeWhile_append_of_pos hchars]
      cases rest with
      | nil => simp
      | cons c rest => simp [(hrest c rfl).2.2]
    have hvalue : fractionMicros (paddedText 6 micro) = micro := by
      have hone : tenTo (6 - 6) = 1 := rfl
      rw [fractionMicros, List.take_of_length_le (Nat.le_of_eq hlength), hlength, hone, Nat.mul_one,
        paddedText_eq, map_toNat_map_digitChar fun _ => lt_of_mem_paddedDigits,
        ofDigits_paddedDigits]
    have hne : paddedText 6 micro ≠ [] := by
      intro hnil
      rw [hnil] at hlength
      cases hlength
    have hdrop : (paddedText 6 micro ++ rest).drop 6 = rest := List.drop_left' hlength
    have hisEmpty : (paddedText 6 micro).isEmpty = false := by
      rw [List.isEmpty_eq_false_iff]
      exact hne
    rw [if_neg hzero, List.cons_append, takeSeconds, h1]
    simp only [Option.bind_eq_bind, Option.bind_some, htake, hisEmpty, hvalue, hlength, hdrop,
      true_or, if_true, Bool.false_eq_true, if_false]

/-- A time of day is read in front of what ends it. -/
theorem takeTimeOfDay_paddedText {hour minute second micro : Nat} (hhour : hour < 24)
    (hminute : minute < 60) (hsecond : second < 60) (hmicro : micro < 1000000)
    {rest : List Char} (hrest : EndsClock rest) :
    takeTimeOfDay (paddedText 2 hour ++ ':' :: (paddedText 2 minute ++ ':' ::
      (paddedText 2 second ++ ((if micro = 0 then [] else '.' :: paddedText 6 micro) ++ rest)))) =
      some ((3600 * hour + 60 * minute + second) * 1000000 + micro, rest) := by
  have htwo : tenTo 2 = 100 := rfl
  have h1 : ∀ rest, takeNumber 2 (paddedText 2 hour ++ rest) = some (hour, rest) :=
    takeNumber_paddedText (by decide) (by omega)
  have h2 : ∀ rest, takeNumber 2 (paddedText 2 minute ++ rest) = some (minute, rest) :=
    takeNumber_paddedText (by decide) (by omega)
  have h3 := takeSeconds_paddedText hsecond hmicro hrest
  simp [takeTimeOfDay, takeChar, h1, h2, h3, hhour, hminute, hsecond]

/-! ## Offsets -/

/-- An offset does not go on with what ends a time of day. -/
theorem endsClock_zoneText (offset : Option Int) : EndsClock ((offset.map zoneText).getD []) := by
  have hsigns : ∀ c ∈ ['Z', '-', '+'], c ≠ '.' ∧ c ≠ ',' ∧ c.isDigit = false :=
    forall_of_all (by decide)
  cases offset with
  | none => exact fun c hc => by cases hc
  | some o =>
    intro c hc
    rw [Option.map_some, Option.getD_some, zoneText] at hc
    refine hsigns c ?_
    split at hc
    · cases hc
      exact List.mem_cons_self
    · rw [minuteOffsetText] at hc
      split at hc <;> cases hc <;> decide

/-- An offset of less than a day is read back without its seconds. -/
theorem readMinuteOffset_zoneText {offset : Option Int}
    (h : ∀ o, offset = some o → o.natAbs < 86400) :
    readMinuteOffset ((offset.map zoneText).getD []) = some (offset.map wholeMinutes) := by
  cases offset with
  | none => rfl
  | some o =>
    have hday := h o rfl
    have htwo : tenTo 2 = 100 := rfl
    have hhours : ∀ rest, takeNumber 2 (paddedText 2 (o.natAbs / 3600) ++ rest) =
        some (o.natAbs / 3600, rest) := takeNumber_paddedText (by decide) (by omega)
    have hminutes : takeNumber 2 (paddedText 2 (o.natAbs / 60 % 60) ++ []) =
        some (o.natAbs / 60 % 60, []) := takeNumber_paddedText (by decide) (by omega) []
    rw [List.append_nil] at hminutes
    have hlt : o.natAbs / 3600 < 24 ∧ o.natAbs / 60 % 60 < 60 := by omega
    have htotal : 3600 * (o.natAbs / 3600) + 60 * (o.natAbs / 60 % 60) = 60 * (o.natAbs / 60) := by
      omega
    by_cases hzero : o = 0
    · rw [hzero]
      rfl
    · rw [Option.map_some, Option.getD_some, Option.map_some, zoneText, if_neg hzero,
        minuteOffsetText, wholeMinutes]
      by_cases hnegative : o < 0
      · rw [if_pos hnegative, if_pos hnegative, ← htotal]
        simp [readMinuteOffset, hhours, hminutes, hlt]
      · rw [if_neg hnegative, if_neg hnegative, ← htotal]
        simp [readMinuteOffset, hhours, hminutes, hlt]

/-! ## Whole instants -/

/-- An instant is read back from its text but for the seconds of its offset. -/
theorem read_zuluText {t : Instant} (h : t.Valid) : read t.zuluText = .ok t.inMinutes := by
  obtain ⟨hexists, hoffset⟩ := h
  have hend : endOfTime = 3652059 * 86400000000 := by
    rw [endOfTime, daysBeforeYear_10000]
    rfl
  simp only [exists?, hend, Bool.and_eq_true, decide_eq_true_eq] at hexists
  have hdays : t.localMicros.toNat / 86400000000 < 3652059 := by omega
  obtain ⟨year, month, day, hfound, hdate, hback, hyear, hmonth, hday⟩ := daysOf?_dateOf hdays
  -- the day and the time of day that are written are the fields of the local instant
  generalize hinDay : t.localMicros.toNat % 86400000000 = inDay
  have hlt : inDay < 86400000000 := by omega
  have htime : (3600 * (inDay / 3600000000) + 60 * (inDay / 60000000 % 60) +
      inDay / 1000000 % 60) * 1000000 + inDay % 1000000 = inDay := by omega
  have hfields : t.fields = ⟨year, month, day, inDay / 3600000000, inDay / 60000000 % 60,
      inDay / 1000000 % 60, inDay % 1000000⟩ := by
    rw [fields, hfound, hinDay]
  have hhour : inDay / 3600000000 < 24 := by omega
  have hminute : inDay / 60000000 % 60 < 60 := by omega
  have hsecond : inDay / 1000000 % 60 < 60 := by omega
  have hmicro : inDay % 1000000 < 1000000 := by omega
  have hclock := takeTimeOfDay_paddedText hhour hminute hsecond hmicro (endsClock_zoneText t.offset)
  -- read back, they make the same local time, under an offset without its seconds
  have hlocal : ofLocal ⟨year, month, day⟩ inDay (t.offset.map wholeMinutes) =
      .ok t.inMinutes := by
    have hmicros : ((t.localMicros.toNat / 86400000000 : Nat) : Int) * microsPerDay + inDay =
        t.localMicros := by
      rw [microsPerDay]
      omega
    simp only [ofLocal, ofLocal?, hback, Option.bind_eq_bind, Option.bind_some, Option.pure_def,
      Option.map_some, hmicros]
    rfl
  have hread : dateAndTime? t.zuluText.toList = some (.ok t.inMinutes) := by
    have htext : t.zuluText.toList = t.localText 'T' ++ (t.offset.map zoneText).getD [] :=
      String.toList_ofList
    rw [htext, localText, hfields, dateAndTime?]
    simp only [List.append_assoc, List.cons_append]
    rw [takeDate_paddedText hdate hyear hmonth hday]
    simp [takeSeparator, hclock, htime, readMinuteOffset_zoneText hoffset, hlocal]
  rw [read, hread]
  rfl

/-- Dropping the seconds of the offset does not change the local date and time of day. -/
theorem localMicros_inMinutes (t : Instant) : t.inMinutes.localMicros = t.localMicros := by
  show t.localMicros - (t.offset.map wholeMinutes).getD 0 * 1000000 +
    (t.offset.map wholeMinutes).getD 0 * 1000000 = t.localMicros
  omega

/-- An instant that comes back is written as before exactly if it keeps its zone. -/
theorem zuluText_inMinutes {t : Instant} : t.inMinutes.zuluText = t.zuluText ↔ t.KeepsZone := by
  have hlocal : t.inMinutes.localText 'T' = t.localText 'T' := by
    rw [localText, localText, fields, fields, localMicros_inMinutes]
  have hlists : t.inMinutes.zuluText = t.zuluText ↔
      ((t.offset.map wholeMinutes).map zoneText).getD [] = (t.offset.map zoneText).getD [] := by
    rw [zuluText, zuluText, String.ofList_inj, hlocal, List.append_right_inj]
    rfl
  rw [hlists, KeepsZone]
  cases t.offset with
  | none => simp
  | some o =>
    have hmagnitude : (wholeMinutes o).natAbs = 60 * (o.natAbs / 60) := by
      rw [wholeMinutes]
      split <;> omega
    constructor
    · -- an offset of less than a minute is read as zero and then written as a letter
      intro htext offset ho
      cases ho
      by_contra hlost
      rw [not_or] at hlost
      have hzero : wholeMinutes o = 0 := by omega
      rw [Option.map_some, Option.map_some, Option.map_some, Option.getD_some, Option.getD_some,
        zoneText, if_pos hzero, zoneText, if_neg hlost.1, minuteOffsetText] at htext
      split at htext <;> cases htext
    · -- otherwise hours and minutes are those of the offset, and so is its sign
      intro hkeeps
      rcases hkeeps o rfl with rfl | hlong
      · rfl
      · have hne : o ≠ 0 := by omega
        have hne' : wholeMinutes o ≠ 0 := by omega
        have hsign : (wholeMinutes o < 0) = (o < 0) := by
          refine propext ?_
          rw [wholeMinutes]
          split <;> omega
        have hhours : (wholeMinutes o).natAbs / 3600 = o.natAbs / 3600 := by omega
        have hminutes : (wholeMinutes o).natAbs / 60 % 60 = o.natAbs / 60 % 60 := by omega
        rw [Option.map_some, Option.map_some, Option.map_some, Option.getD_some, Option.getD_some,
          zoneText, if_neg hne', zoneText, if_neg hne, minuteOffsetText, minuteOffsetText, hhours,
          hminutes]
        simp only [hsign]

end RewardLedger.Instant
