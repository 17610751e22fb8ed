import RewardLedger.Number.Binary64
import RewardLedger.Number.Digits
import RewardLedger.Text.Blank
import RewardLedger.Text.Digit

/-!
# The text of binary floating point numbers

A number is written with the fewest decimal digits that still read back as it, and of those the
digits nearest to it. For one digit, two digits and so on, the two multiples of the matching power of
ten around the number are tested against the interval of the numbers that round to it; the first
power with a hit decides, and of two hits the nearer one. The layout is positional as long as the
first digit stands for at least `10 ^ -4` and less than `10 ^ 16`, with `.0` behind a whole number.
-/

namespace RewardLedger.Binary64

/-! ## The shortest digits -/

/-- Four times the number and four times the two ends of the interval of the reals that round to
it, in units of `2 ^ (exponent - 2)`. -/
structure RoundingInterval where
  /-- Four times the lower end. -/
  lower : Nat
  /-- Four times the number. -/
  center : Nat
  /-- Four times the upper end. -/
  upper : Nat
  /-- The ends themselves round to the number. -/
  closed : Bool

/-- The interval of a positive number. Below a power of two the neighbours lie twice as close. -/
def roundingInterval (mantissa : Nat) (exponent : Int) : RoundingInterval where
  lower :=
    if mantissa = 0x10000000000000 ∧ leastExponent < exponent then 4 * mantissa - 1 else 4 * mantissa - 2
  center := 4 * mantissa
  upper := 4 * mantissa + 2
  closed := mantissa % 2 = 0

/-- The decimal number `d · 10 ^ k` rounds to the number whose interval is given in units of
`2 ^ unit`. -/
def RoundingInterval.contains (i : RoundingInterval) (unit : Int) (d : Nat) (k : Int) : Bool :=
  let x := d * tenTo k.toNat * twoTo (-unit).toNat
  let scale := tenTo (-k).toNat * twoTo unit.toNat
  if i.closed then i.lower * scale ≤ x && x ≤ i.upper * scale
  else i.lower * scale < x && x < i.upper * scale

/-- The exponent `k` with `10 ^ k ≤ center · 2 ^ unit < 10 ^ (k + 1)`, searched upwards from a lower
bound. -/
def decimalOrder (center : Nat) (unit : Int) : (fuel : Nat) → (k : Int) → Int
  | 0, k => k
  | fuel + 1, k =>
    if center * twoTo unit.toNat * tenTo (-(k + 1)).toNat
        < tenTo (k + 1).toNat * twoTo (-unit).toNat then k
    else decimalOrder center unit fuel (k + 1)

/-- The best multiple of `10 ^ k` for the number, if one of the two around it rounds to it. -/
def candidate? (i : RoundingInterval) (unit k : Int) : Option Nat :=
  let n := i.center * twoTo unit.toNat * tenTo (-k).toNat
  let scale := twoTo (-unit).toNat * tenTo k.toNat
  let below := n / scale
  let r := n % scale
  match i.contains unit below k && below != 0, i.contains unit (below + 1) k with
  | true, true =>
    some (if 2 * r < scale || (2 * r == scale && below % 2 == 0) then below else below + 1)
  | true, false => some below
  | false, true => some (below + 1)
  | false, false => none

/-- The first hit with `count` digits or more, `fuel` bounding the search; `k` is the exponent of
the number's first digit. -/
def shortestFrom (i : RoundingInterval) (unit order : Int) : (fuel count : Nat) → Nat × Int
  | 0, count => (0, order - count + 1)
  | fuel + 1, count =>
    let k := order - count + 1
    match candidate? i unit k with
    | some d => (d, k)
    | none => shortestFrom i unit order fuel (count + 1)

/-- The shortest decimal number `d · 10 ^ k` that rounds to the positive number. -/
def shortest (mantissa : Nat) (exponent : Int) : Nat × Int :=
  let i := roundingInterval mantissa exponent
  let unit := exponent - 2
  let bits : Int := Nat.log2 mantissa + exponent
  let start : Int := Int.fdiv (bits * 30103) 100000 - 1
  shortestFrom i unit (decimalOrder i.center unit 4 start) 17 1

/-! ## Layout -/

/-- The digits without the zeros at their end, and how many there were. -/
def stripZeros (ds : List Char) : List Char × Nat :=
  let zeros := (ds.reverse.takeWhile (· = '0')).length
  (ds.take (ds.length - zeros), zeros)

/-- The digits laid out as a number whose first digit stands for `10 ^ order`. -/
def layout (digits : List Char) (order : Int) : List Char :=
  if -4 ≤ order ∧ order < 16 then
    if order < 0 then "0.".toList ++ List.replicate (-order - 1).toNat '0' ++ digits
    else
      let whole := order.toNat + 1
      if digits.length ≤ whole then
        digits ++ List.replicate (whole - digits.length) '0' ++ ".0".toList
      else digits.take whole ++ '.' :: digits.drop whole
  else
    let mantissa := match digits with
      | d :: e :: rest => d :: '.' :: e :: rest
      | ds => ds
    mantissa ++ 'e' :: (if order < 0 then '-' else '+') :: paddedText 2 order.natAbs

/-- The text of a number, as characters. -/
def chars : Binary64 → List Char
  | nan => "nan".toList
  | infinite negative => (if negative then "-inf" else "inf").toList
  | finite negative m e =>
    let body :=
      if m = 0 then "0.0".toList
      else
        let (d, k) := shortest m e
        let (digits, zeros) := stripZeros (natText d)
        layout digits (k + zeros + digits.length - 1)
    (if negative then ['-'] else []) ++ body

/-- The text of a number. -/
def text (x : Binary64) : String := String.ofList x.chars

/-! ## Reading -/

/-- The digit values of a run in which a single underscore may stand between two digits. -/
def groupedDigits? : List Char → Option (List Nat)
  | [] => some []
  | [c] => (Text.decimalValue? c).map ([·])
  | c :: '_' :: d :: rest => do
    let v ← Text.decimalValue? c
    let vs ← groupedDigits? (d :: rest)
    pure (v :: vs)
  | c :: rest => do
    let v ← Text.decimalValue? c
    let vs ← groupedDigits? rest
    pure (v :: vs)

/-- The value of an optionally signed run of digits, of which there is at least one. -/
def exponent? (cs : List Char) : Option Int :=
  let (negative, rest) := match cs with
    | '-' :: r => (true, r)
    | '+' :: r => (false, r)
    | r => (false, r)
  match rest with
  | [] => none
  | _ => (groupedDigits? rest).map fun ds => if negative then -(ofDigits ds : Int) else ofDigits ds

/-- Read an unsigned finite number. -/
def readFinite (negative : Bool) (cs : List Char) : Option Binary64 := do
  let (mantissa, tail) := cs.span fun c => c != 'e' && c != 'E'
  let exponent ← match tail with
    | [] => some 0
    | _ :: r => exponent? r
  let (whole, point) := mantissa.span (· != '.')
  let wholeDigits ← groupedDigits? whole
  let fractionDigits ← groupedDigits? (point.drop 1)
  let ds := wholeDigits ++ fractionDigits
  if ds.isEmpty then none
  else
    let significant := ds.dropWhile (· = 0)
    some (ofScientific negative (ofDigits significant) significant.length
      (exponent - fractionDigits.length))

/-- Read an unsigned number, finite or not. -/
def readMagnitude (negative : Bool) (cs : List Char) : Option Binary64 :=
  match cs.map Char.toLower with
  | ['i', 'n', 'f'] => some (infinite negative)
  | ['i', 'n', 'f', 'i', 'n', 'i', 't', 'y'] => some (infinite negative)
  | ['n', 'a', 'n'] => some nan
  | _ => readFinite negative cs

/-- Read a number from a text, with blanks at its ends passed over. -/
def ofText? (s : String) : Option Binary64 :=
  match Text.trim s.toList with
  | '-' :: r => readMagnitude true r
  | '+' :: r => readMagnitude false r
  | r => readMagnitude false r

end RewardLedger.Binary64
