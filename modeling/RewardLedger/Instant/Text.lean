import RewardLedger.Instant.Basic
import RewardLedger.Number.Digits

/-!
# The text of instants

An instant is written as its local date and time of day followed by its offset, if that is known.
The offset is written out to the second, or shortened to whole minutes with `Z` for zero. The readers
of dates and times of day here take what they read from the start of a text.
-/

namespace RewardLedger.Instant

/-! ## Writing -/

/-- The date and the time of day, with `separator` between them and a fraction of the second only if
there is one. -/
def localText (separator : Char) (t : Instant) : List Char :=
  let f := t.fields
  paddedText 4 f.year ++ '-' :: paddedText 2 f.month ++ '-' :: paddedText 2 f.day ++
    separator :: paddedText 2 f.hour ++ ':' :: paddedText 2 f.minute ++ ':' ::
    paddedText 2 f.second ++ (if f.micro = 0 then [] else '.' :: paddedText 6 f.micro)

/-- The offset as a sign, hours and minutes. -/
def minuteOffsetText (offset : Int) : List Char :=
  (if offset < 0 then '-' else '+') :: paddedText 2 (offset.natAbs / 3600) ++ ':' ::
    paddedText 2 (offset.natAbs / 60 % 60)

/-- The offset as a sign, hours and minutes, and seconds only if there are any. -/
def offsetText (offset : Int) : List Char :=
  minuteOffsetText offset ++
    (if offset.natAbs % 60 = 0 then [] else ':' :: paddedText 2 (offset.natAbs % 60))

/-- The offset in whole minutes, the seconds being dropped, with `Z` for the offset zero. -/
def zoneText (offset : Int) : List Char :=
  if offset = 0 then ['Z'] else minuteOffsetText offset

/-- The instant with its numeric offset, as in `2024-01-01T00:00:00+00:00`. -/
def isoText (t : Instant) : String :=
  String.ofList (t.localText 'T' ++ (t.offset.map offsetText).getD [])

/-- The instant with a blank between date and time. -/
def spacedText (t : Instant) : String :=
  String.ofList (t.localText ' ' ++ (t.offset.map offsetText).getD [])

/-- The instant with `Z` for the offset zero, as in `2024-01-01T00:00:00Z`. -/
def zuluText (t : Instant) : String :=
  String.ofList (t.localText 'T' ++ (t.offset.map zoneText).getD [])

/-! ## Reading -/

/-- The value of exactly `count` ASCII digits at the start of a text, and the rest. -/
def takeNumber (count : Nat) (cs : List Char) : Option (Nat × List Char) :=
  let ds := cs.take count
  if ds.length = count ∧ ds.all Char.isDigit then
    some (ofDigits (ds.map fun c => c.toNat - 0x30), cs.drop count)
  else none

/-- Pass over the given character. -/
def takeChar (c : Char) : List Char → Option (List Char)
  | d :: rest => if c = d then some rest else none
  | [] => none

/-- A date. -/
structure Date where
  /-- The year. -/
  year : Nat
  /-- The month, from 1. -/
  month : Nat
  /-- The day of the month, from 1. -/
  day : Nat
  deriving DecidableEq, Repr

/-- Read a date that the calendar has, the year 0 included. -/
def takeDate (cs : List Char) : Option (Date × List Char) := do
  let (year, cs) ← takeNumber 4 cs
  let (month, cs) ← takeNumber 2 (← takeChar '-' cs)
  let (day, cs) ← takeNumber 2 (← takeChar '-' cs)
  if isDate year month day then some (⟨year, month, day⟩, cs) else none

/-- Pass over the character between a date and a time of day. -/
def takeSeparator : List Char → Option (List Char)
  | [] => none
  | c :: rest => if c = 'T' ∨ c = 't' ∨ c = ' ' ∨ c = '_' then some rest else none

/-- The microseconds that the digits of a fraction of a second denote; digits beyond the sixth are
dropped. -/
def fractionMicros (ds : List Char) : Nat :=
  let kept := ds.take 6
  ofDigits (kept.map fun c => c.toNat - 0x30) * tenTo (6 - kept.length)

/-- Read the seconds and their fraction, if they are there. -/
def takeSeconds (cs : List Char) : Option (Nat × Nat × List Char) :=
  match cs with
  | ':' :: rest => do
    let (second, rest) ← takeNumber 2 rest
    match rest with
    | [] => some (second, 0, [])
    | c :: fraction =>
      if c = '.' ∨ c = ',' then
        let ds := fraction.takeWhile Char.isDigit
        if ds.isEmpty then none else some (second, fractionMicros ds, fraction.drop ds.length)
      else some (second, 0, rest)
  | _ => some (0, 0, cs)

/-- Read a time of day, in microseconds since midnight. -/
def takeTimeOfDay (cs : List Char) : Option (Nat × List Char) := do
  let (hour, cs) ← takeNumber 2 cs
  let (minute, cs) ← takeNumber 2 (← takeChar ':' cs)
  let (second, micro, cs) ← takeSeconds cs
  if hour < 24 ∧ minute < 60 ∧ second < 60 then
    some ((3600 * hour + 60 * minute + second) * 1000000 + micro, cs)
  else none

/-- The instant that a local calendar and clock show, unless the year is 0. -/
def ofLocal? (date : Date) (timeOfDay : Nat) (offset : Option Int) : Option Instant :=
  (daysOf? date.year date.month date.day).map fun days =>
    ⟨(days : Int) * microsPerDay + timeOfDay - offset.getD 0 * 1000000, offset⟩

end RewardLedger.Instant
