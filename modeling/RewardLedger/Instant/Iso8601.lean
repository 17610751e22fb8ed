import RewardLedger.Instant.Text

/-!
# Instants in the form of ISO 8601

The standard names a day by its month or by its week, with hyphens between the parts or without them.
A time of day follows after any single character, with colons between its parts or without them, and
may be cut short. An offset in the same form or `Z` may stand at its end, after one more character if
need be. A date alone is its first moment.

The weeks of a year start on Mondays, and the first of them is the one with the first Thursday of the
year (`daysBeforeWeeks_mod`).
-/

namespace RewardLedger.Instant

/-! ## Days -/

/-- The number of days before the first week of a year, counted from the start of the year 1, which is
a Monday. -/
def daysBeforeWeeks (year : Nat) : Nat := (daysBeforeYear year + 3) / 7 * 7

/-- The number of weeks of a year. -/
def weeksOf (year : Nat) : Nat :=
  let weekday := daysBeforeYear year % 7
  if weekday = 3 ∨ (weekday = 2 ∧ isLeap year) then 53 else 52

/-- The number of days from the first day of the year 1 to a day of a week, if there is such a day. -/
def daysOfWeek? (year week day : Nat) : Option Nat :=
  if 1 ≤ year ∧ 1 ≤ week ∧ week ≤ weeksOf year ∧ 1 ≤ day ∧ day ≤ 7 then
    some (daysBeforeWeeks year + 7 * (week - 1) + (day - 1))
  else none

/-- A digit at the start of a text is the day of a week rather than what stands between the date and
the time of day: it is alone, or an even number of digits stands there. -/
def startsWithWeekday (cs : List Char) : Bool :=
  let digits := (cs.takeWhile Char.isDigit).length
  digits == 1 || (2 ≤ digits && digits % 2 == 0)

/-- Read the day of a week, if it is there; otherwise it is the first. -/
def takeWeekday (hyphens : Bool) (cs : List Char) : Option (Nat × List Char) :=
  if hyphens then
    match cs with
    | '-' :: rest =>
      if (rest.takeWhile Char.isDigit).length = 1 then takeNumber 1 rest else some (1, cs)
    | _ => some (1, cs)
  else if startsWithWeekday cs then takeNumber 1 cs
  else some (1, cs)

/-- Pass over the hyphen between two parts of a date that has hyphens. -/
def takeHyphen (hyphens : Bool) (cs : List Char) : Option (List Char) :=
  if hyphens then takeChar '-' cs else some cs

/-- Read a day, as the number of days from the first day of the year 1. -/
def takeDay (cs : List Char) : Option (Nat × List Char) := do
  let (year, cs) ← takeNumber 4 cs
  let hyphens := cs.head? == some '-'
  match ← takeHyphen hyphens cs with
  | 'W' :: cs =>
    let (week, cs) ← takeNumber 2 cs
    let (day, cs) ← takeWeekday hyphens cs
    return (← daysOfWeek? year week day, cs)
  | cs =>
    let (month, cs) ← takeNumber 2 cs
    let (day, cs) ← takeNumber 2 (← takeHyphen hyphens cs)
    return (← daysOf? year month day, cs)

/-! ## Hours, minutes and seconds -/

/-- Hours, minutes, seconds and microseconds. -/
structure ClockParts where
  /-- The hours. -/
  hour : Nat
  /-- The minutes. -/
  minute : Nat
  /-- The seconds. -/
  second : Nat
  /-- The microseconds. -/
  micro : Nat
  deriving DecidableEq, Repr

/-- The parts in seconds, the microseconds being left out. -/
def ClockParts.seconds (p : ClockParts) : Nat := 3600 * p.hour + 60 * p.minute + p.second

/-- The character stands between a number and its fraction. -/
def isPoint (c : Char) : Bool := c == '.' || c == ','

/-- Read the minutes or the seconds; what is not there is zero. -/
def takeClockPart (colons : Bool) (cs : List Char) : Option (Nat × List Char) :=
  match cs with
  | [] => some (0, [])
  | c :: rest =>
    if isPoint c then some (0, cs)
    else if colons then (takeChar ':' (c :: rest)).bind (takeNumber 2)
    else takeNumber 2 cs

/-- Read a fraction of a second, in microseconds; what is not there is zero. -/
def readFraction : List Char → Option Nat
  | [] => some 0
  | c :: digits =>
    if isPoint c && !digits.isEmpty && digits.all Char.isDigit then some (fractionMicros digits)
    else none

/-- The text without the one character that is left of it, if one may be passed over. -/
def passOne (stray : Bool) (cs : List Char) : List Char :=
  if stray && cs.length = 1 then [] else cs

/-- Read hours, minutes and seconds, with one character at the end passed over if `stray` says so. -/
def readClockParts (stray : Bool) (cs : List Char) : Option ClockParts := do
  let (hour, cs) ← takeNumber 2 cs
  let colons := cs.head? == some ':'
  let (minute, cs) ← takeClockPart colons (passOne stray cs)
  let (second, cs) ← takeClockPart colons (passOne stray cs)
  return ⟨hour, minute, second, ← readFraction (passOne stray cs)⟩

/-- Read a time of day, in microseconds since midnight. -/
def readTimeOfDay (stray : Bool) (cs : List Char) : Option Nat := do
  let p ← readClockParts stray cs
  if p.hour < 24 ∧ p.minute < 60 ∧ p.second < 60 then some (p.seconds * 1000000 + p.micro)
  else none

/-- Read an offset of less than a day, to the second; nothing is an offset that is not known. -/
def readOffset (cs : List Char) : Option (Option Int) :=
  match cs with
  | [] => some none
  | ['Z'] => some (some 0)
  | sign :: rest => do
    let negative ← if sign = '-' then some true else if sign = '+' then some false else none
    let p ← readClockParts false rest
    if p.micro = 0 ∧ p.seconds < 86400 then
      some (some (if negative then -(p.seconds : Int) else p.seconds))
    else none

/-! ## Instants -/

/-- An offset starts with the character. -/
def startsOffset (c : Char) : Bool := c == '+' || c == '-' || c == 'Z'

/-- Read a time of day with its offset, if it has one. -/
def readTime (cs : List Char) : Option (Nat × Option Int) := do
  let zone := cs.dropWhile (!startsOffset ·)
  let timeOfDay ← readTimeOfDay (!zone.isEmpty) (cs.takeWhile (!startsOffset ·))
  return (timeOfDay, ← readOffset zone)

/-- Read an instant. -/
def ofIso? (s : String) : Option Instant := do
  let (days, rest) ← takeDay s.toList
  let (timeOfDay, offset) ← if rest.isEmpty then some (0, none) else readTime (rest.drop 1)
  let t : Instant := ⟨(days : Int) * microsPerDay + timeOfDay - offset.getD 0 * 1000000, offset⟩
  if t.exists? then some t else none

/-- The first week of a year starts on a Monday. -/
theorem daysBeforeWeeks_mod (year : Nat) : daysBeforeWeeks year % 7 = 0 :=
  Nat.mul_mod_left _ 7

/-- The first week of a year has the fourth of January in it: the week starts on that day or on one of
the six days before. -/
theorem daysBeforeWeeks_le (year : Nat) :
    daysBeforeWeeks year ≤ daysBeforeYear year + 3 ∧
      daysBeforeYear year + 3 < daysBeforeWeeks year + 7 := by
  simp only [daysBeforeWeeks]
  omega

end RewardLedger.Instant
