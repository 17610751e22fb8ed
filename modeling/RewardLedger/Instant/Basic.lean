
/-!
# Instants

An instant counts microseconds and remembers the offset from Greenwich at which it is written. If that
offset is not known, the instant is one of a local clock only. Two instants are compared by their
position in time alone, and only if both offsets are known or neither is. Dates are those of the
Gregorian calendar, extended to the year 1; an instant whose local date would leave the years 1 to
9999 does not exist.
-/

namespace RewardLedger

/-- A point in time together with the offset at which it is written. -/
structure Instant where
  /-- Microseconds since the start of the year 1, at Greenwich if the offset is known and on the local
  clock otherwise. -/
  micros : Int
  /-- The offset of the local clock, in seconds east of Greenwich, if it is known. -/
  offset : Option Int
  deriving DecidableEq, Repr, Inhabited

namespace Instant

/-! ## The calendar -/

/-- The year is a leap year. -/
def isLeap (year : Nat) : Bool := year % 4 == 0 && (year % 100 != 0 || year % 400 == 0)

/-- The lengths of the months of a year. -/
def monthLengths (year : Nat) : List Nat :=
  [31, if isLeap year then 29 else 28, 31, 30, 31, 30, 31, 31, 30, 31, 30, 31]

/-- The number of days before the given year, counted from the start of the year 1. -/
def daysBeforeYear (year : Nat) : Nat :=
  let y := year - 1
  365 * y + y / 4 - y / 100 + y / 400

/-- The month and the day of the month of the day `day` (from 0) of a year with these month lengths,
where `month` months have passed already. -/
def monthAndDay : (lengths : List Nat) → (month day : Nat) → Nat × Nat
  | [], month, day => (month, day + 1)
  | n :: rest, month, day =>
    if day < n then (month + 1, day + 1) else monthAndDay rest (month + 1) (day - n)

/-- The year, month and day of the day that many days after the first day of the year 1. -/
def dateOf (days : Nat) : Nat × Nat × Nat :=
  let n400 := days / 146097
  let r400 := days % 146097
  let n100 := min 3 (r400 / 36524)
  let r100 := r400 - 36524 * n100
  let n4 := r100 / 1461
  let r4 := r100 % 1461
  let n1 := min 3 (r4 / 365)
  let year := 400 * n400 + 100 * n100 + 4 * n4 + n1 + 1
  let (month, day) := monthAndDay (monthLengths year) 0 (r4 - 365 * n1)
  (year, month, day)

/-- The calendar has this date in the year, which may be the year 0 before the first. -/
def isDate (year month day : Nat) : Bool :=
  match (monthLengths year)[month - 1]? with
  | none => false
  | some n => year ≤ 9999 && 1 ≤ month && 1 ≤ day && day ≤ n

/-- The number of days from the first day of the year 1 to a date, if there is such a date. -/
def daysOf? (year month day : Nat) : Option Nat :=
  if 1 ≤ year ∧ isDate year month day then
    some (daysBeforeYear year + ((monthLengths year).take (month - 1)).foldl (· + ·) 0 + day - 1)
  else none

/-! ## Position in time -/

/-- The microseconds of a day. -/
def microsPerDay : Int := 86400000000

/-- The first microsecond after the year 9999. -/
def endOfTime : Int := (daysBeforeYear 10000 : Int) * microsPerDay

/-- Microseconds on the local clock since the start of the year 1. -/
def localMicros (t : Instant) : Int := t.micros + t.offset.getD 0 * 1000000

/-- The local date lies in the years 1 to 9999. -/
def exists? (t : Instant) : Bool := 0 ≤ t.localMicros && t.localMicros < endOfTime

/-- The instant `d` microseconds later, if there is one. -/
def later? (t : Instant) (d : Int) : Option Instant :=
  let u : Instant := ⟨t.micros + d, t.offset⟩
  if u.exists? then some u else none

/-- The first instant is not after the second. -/
def notAfter (t u : Instant) : Bool := t.micros ≤ u.micros

/-- The two instants can be put in order: the offsets of both are known, or of neither. -/
def comparable (t u : Instant) : Bool := t.offset.isSome == u.offset.isSome

/-- The two instants are the same point in time. -/
def sameTime (t u : Instant) : Bool := t.comparable u && t.micros == u.micros

/-! ## The local calendar and clock -/

/-- The date and time of day on the local clock: year, month, day, hour, minute, second and
microsecond. -/
structure Fields where
  /-- The year. -/
  year : Nat
  /-- The month, from 1. -/
  month : Nat
  /-- The day of the month, from 1. -/
  day : Nat
  /-- The hour. -/
  hour : Nat
  /-- The minute. -/
  minute : Nat
  /-- The second. -/
  second : Nat
  /-- The microsecond. -/
  micro : Nat
  deriving DecidableEq, Repr

/-- What the local calendar and clock show. -/
def fields (t : Instant) : Fields :=
  let l := t.localMicros.toNat
  let (year, month, day) := dateOf (l / 86400000000)
  let inDay := l % 86400000000
  ⟨year, month, day, inDay / 3600000000, inDay / 60000000 % 60, inDay / 1000000 % 60,
    inDay % 1000000⟩

/-- An instant comes no earlier than itself. -/
theorem notAfter_refl (t : Instant) : t.notAfter t = true := by simp [notAfter]

/-- The order of instants is transitive. -/
theorem notAfter_trans {t u v : Instant} (h : t.notAfter u = true) (k : u.notAfter v = true) :
    t.notAfter v = true := by
  simp only [notAfter, decide_eq_true_eq] at *
  omega

end Instant

end RewardLedger
