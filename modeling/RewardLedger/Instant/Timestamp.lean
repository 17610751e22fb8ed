import RewardLedger.Instant.Text
import RewardLedger.Number.Binary64

/-!
# Timestamps

An instant can be given as a number of seconds since the start of the year 1970. A number that is too
large for seconds counts milliseconds instead. A number with a fraction is split into whole seconds
and microseconds in binary floating point arithmetic; a number and the text of a number are split
in different ways.

Besides timestamps a text may hold a date alone, or a date and a time of day with or without an
offset.
-/

namespace RewardLedger

/-- The part of a number behind the point, with the number's sign, and a not-a-number for the
numbers that are not finite. -/
def Binary64.fraction : Binary64 → Binary64
  | .finite negative m e =>
    let d := twoTo (-e).toNat
    .ofQuotient negative (m * twoTo e.toNat % d) d
  | _ => .nan

/-- The greatest whole number that is not greater. -/
def Binary64.floor? : Binary64 → Option Int
  | .finite negative m e =>
    let n : Int := (m * twoTo e.toNat : Nat)
    some ((if negative then -n else n).fdiv (twoTo (-e).toNat : Nat))
  | _ => none

/-- The magnitude of a number as a quotient of natural numbers. -/
def Binary64.quotient : Binary64 → Nat × Nat
  | .finite _ m e => (m * twoTo e.toNat, twoTo (-e).toNat)
  | _ => (0, 1)

namespace Instant

/-- Why a text or a number is no instant. -/
inductive Misread where
  /-- The text does not denote an instant. -/
  | unreadable
  /-- There is no such instant. -/
  | impossible
  deriving DecidableEq, Repr

/-! ## Whole numbers -/

/-- The largest number of a timestamp that counts seconds. -/
def mostSeconds : Int := 20000000000

/-- Seconds from the start of the year 1 to the start of the year 1970. -/
def epochSeconds : Int := 62135596800

/-- Seconds since the start of 1970 at the start of the year 0. -/
def leastTimestamp : Int := -62167219200

/-- Seconds since the start of 1970 at the last second of the year 9999. -/
def greatestTimestamp : Int := 253402300799

/-- The instant at Greenwich that many seconds and microseconds after the start of 1970; a number that
is too large for seconds counts milliseconds. Timestamps reach back to the year 0, instants do not. -/
def ofTimestamp (number : Int) (micros : Nat) : Except Misread Instant :=
  let total : Int :=
    if mostSeconds < number.natAbs then number * 1000 + micros else number * 1000000 + micros
  let seconds := total.fdiv 1000000
  if seconds < leastTimestamp ∨ greatestTimestamp < seconds then .error .unreadable
  else if seconds < -epochSeconds then .error .impossible
  else .ok ⟨total + epochSeconds * 1000000, some 0⟩

/-! ## Numbers with a fraction -/

/-- The microseconds of a magnitude in seconds, to the nearest, a half away from zero. -/
def roundedMicros (x : Binary64) : Nat :=
  let (n, d) := x.quotient
  let (n, d) := (Binary64.ofQuotient false (n * 1000000) d).quotient
  (2 * n + d) / (2 * d)

/-- The instant that a floating point number of seconds denotes. The magnitude of its fraction counts
forward from the whole second below it. -/
def ofFloat (x : Binary64) : Except Misread Instant :=
  match x.floor? with
  | some seconds => ofTimestamp seconds (roundedMicros x.fraction)
  | none => .error .unreadable

/-- The difference between a number and the whole number below it. -/
def aboveFloor (x : Binary64) (below : Int) : Binary64 :=
  match x with
  | .finite negative m e =>
    let d := twoTo (-e).toNat
    let n : Int := (m * twoTo e.toNat : Nat)
    .ofQuotient false ((if negative then -n else n) - below * (d : Int)).toNat d
  | _ => .nan

/-- The number brought from milliseconds to seconds, if it is too large for seconds. -/
def inSeconds (x : Binary64) : Binary64 :=
  match x with
  | .finite negative m e =>
    let n := m * twoTo e.toNat
    let d := twoTo (-e).toNat
    if 20000000000 * d < n then .ofQuotient negative n (1000 * d) else x
  | _ => x

/-- The instant that the text of a number with a point denotes: the number is brought to seconds
first and then split. -/
def ofPointed (x : Binary64) : Except Misread Instant :=
  let seconds := inSeconds x
  match seconds.floor? with
  | some below => ofTimestamp below (roundedMicros (aboveFloor seconds below))
  | none => .error .unreadable

/-! ## Texts -/

/-- Read an offset in hours and minutes at the end of a text; nothing is an offset that is not
known. -/
def readMinuteOffset (cs : List Char) : Option (Option Int) :=
  match cs with
  | [] => some none
  | ['Z'] => some (some 0)
  | ['z'] => some (some 0)
  | sign :: rest => do
    let negative ← if sign = '-' ∨ sign = '−' then some true
      else if sign = '+' then some false else none
    let (hours, rest) ← takeNumber 2 rest
    let (minutes, rest) ← match rest with
      | ':' :: r => takeNumber 2 r
      | r => takeNumber 2 r
    if rest.isEmpty ∧ hours < 24 ∧ minutes < 60 then
      let total : Int := (3600 * hours + 60 * minutes : Nat)
      some (some (if negative then -total else total))
    else none

/-- The instant that a local calendar and clock show. -/
def ofLocal (date : Date) (timeOfDay : Nat) (offset : Option Int) : Except Misread Instant :=
  match ofLocal? date timeOfDay offset with
  | some t => .ok t
  | none => .error .impossible

/-- Read a date and a time of day, with or without an offset. -/
def dateAndTime? (cs : List Char) : Option (Except Misread Instant) := do
  let (date, cs) ← takeDate cs
  let (timeOfDay, cs) ← takeTimeOfDay (← takeSeparator cs)
  let offset ← readMinuteOffset cs
  pure (ofLocal date timeOfDay offset)

/-- Read a date alone, which stands for its first moment. -/
def dateAlone? (cs : List Char) : Option (Except Misread Instant) := do
  let (date, rest) ← takeDate cs
  if rest.isEmpty then some (ofLocal date 0 none) else none

/-- The values of a text of ASCII digits. -/
def asciiDigits? (cs : List Char) : Option (List Nat) :=
  if cs.all Char.isDigit then some (cs.map fun c => c.toNat - 0x30) else none

/-- Read a timestamp: a number with an optional sign and an optional point. -/
def timestamp? (cs : List Char) : Option (Except Misread Instant) := do
  let (negative, cs) := match cs with
    | '-' :: r => (true, r)
    | '+' :: r => (false, r)
    | r => (false, r)
  let whole ← asciiDigits? (cs.takeWhile (· != '.'))
  match cs.dropWhile (· != '.') with
  | [] =>
    if whole.isEmpty then none
    else
      let n : Int := ofDigits whole
      some (ofTimestamp (if negative then -n else n) 0)
  | _ :: rest =>
    let places ← asciiDigits? rest
    let digits := whole ++ places
    if digits.isEmpty then none
    else
      let n := ofDigits digits
      some (ofPointed (.ofScientific negative n (digitCount n) (-(places.length : Int))))

/-- Read an instant in any of its forms. -/
def read (s : String) : Except Misread Instant :=
  let cs := s.toList
  (((dateAndTime? cs).or (timestamp? cs)).or (dateAlone? cs)).getD (.error .unreadable)

end Instant

end RewardLedger
