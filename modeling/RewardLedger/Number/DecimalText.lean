import RewardLedger.Number.Decimal
import RewardLedger.Text.Blank
import RewardLedger.Text.Digit

/-!
# The text of decimal numbers

Writing: a number is written positionally if its exponent is at most zero and its first digit stands
at the sixth place behind the point or further left; otherwise in scientific form with a capital
`E` and a signed exponent. All digits of the coefficient are written, so the text determines the
number.

Reading: blanks at both ends and underscores anywhere are passed over, letters may have either
case, and digits may come from any script. A number whose first digit would lie beyond the largest
exponent, or whose last one lies below the smallest, cannot be represented and is no number.
-/

namespace RewardLedger.Decimal

/-! ## Writing -/

/-- The digits with a point before the last `places` of them. -/
def positional (digits : List Char) (places : Nat) : List Char :=
  if places = 0 then digits
  else
    let padded := List.replicate (places + 1 - digits.length) '0' ++ digits
    padded.take (padded.length - places) ++ '.' :: padded.drop (padded.length - places)

/-- The digits in scientific form, the first of them standing for `10 ^ leading`. -/
def scientific (digits : List Char) (leading : Int) : List Char :=
  let mantissa := match digits with
    | [] => []
    | [d] => [d]
    | d :: rest => d :: '.' :: rest
  mantissa ++ 'E' :: (if leading < 0 then intText leading else '+' :: intText leading)

/-- The text of a magnitude. -/
def magnitudeText (coefficient : Nat) (exponent : Int) : List Char :=
  let leading := leadingExponent coefficient exponent
  if exponent ≤ 0 ∧ -6 ≤ leading then positional (natText coefficient) (-exponent).toNat
  else scientific (natText coefficient) leading

/-- The minus sign of a negative number. -/
def signText (negative : Bool) : List Char := if negative then ['-'] else []

/-- The text of a decimal number, as characters. -/
def chars : Decimal → List Char
  | finite negative c e => signText negative ++ magnitudeText c e
  | infinite negative => signText negative ++ "Infinity".toList
  | nan negative signaling payload =>
    signText negative ++ (if signaling then "sNaN" else "NaN").toList ++
      (if payload = 0 then [] else natText payload)

/-- The text of a decimal number. -/
def text (d : Decimal) : String := String.ofList d.chars

/-! ## Reading -/

/-- The largest exponent that the first digit of a number can have. -/
def greatestExponent : Int := 999999999999999999

/-- The smallest exponent that the last digit of a number can have. -/
def leastExponent : Int := -1999999999999999997

/-- The value of a run of digits of any script, or nothing if another character occurs. -/
def digitRun? (cs : List Char) : Option (List Nat) := cs.mapM Text.decimalValue?

/-- The value of an optionally signed whole number that has a digit. -/
def signedNumber? (cs : List Char) : Option Int :=
  let (negative, rest) := match cs with
    | '-' :: r => (true, r)
    | '+' :: r => (false, r)
    | r => (false, r)
  match rest with
  | [] => none
  | _ => (digitRun? rest).map fun ds => if negative then -(ofDigits ds : Int) else ofDigits ds

/-- The number fits the exponents that can be represented. -/
def inExponentRange (coefficient : Nat) (exponent : Int) : Bool :=
  leastExponent ≤ exponent &&
    (if coefficient = 0 then exponent ≤ greatestExponent
      else leadingExponent coefficient exponent ≤ greatestExponent)

/-- Read an unsigned finite number: digits with at most one point and a digit on one of its sides,
then possibly an exponent. -/
def readFinite (negative : Bool) (cs : List Char) : Option Decimal := do
  let (mantissa, tail) := cs.span fun c => c != 'e' && c != 'E'
  let exponent ← match tail with
    | [] => some 0
    | _ :: r => signedNumber? r
  let (whole, point) := mantissa.span (· != '.')
  let fraction := point.drop 1
  let wholeDigits ← digitRun? whole
  let fractionDigits ← digitRun? fraction
  if wholeDigits.isEmpty && fractionDigits.isEmpty then none
  else
    let coefficient := ofDigits (wholeDigits ++ fractionDigits)
    let scaled := exponent - fractionDigits.length
    if inExponentRange coefficient scaled then some (finite negative coefficient scaled) else none

/-- Read the payload of a not-a-number: digits, possibly none. -/
def readNaN (negative signaling : Bool) (cs : List Char) : Option Decimal :=
  (digitRun? cs).map fun ds => nan negative signaling (ofDigits ds)

/-- Read an unsigned number, finite or not. -/
def readMagnitude (negative : Bool) (cs : List Char) : Option Decimal :=
  match cs.map Char.toLower with
  | ['i', 'n', 'f'] => some (infinite negative)
  | ['i', 'n', 'f', 'i', 'n', 'i', 't', 'y'] => some (infinite negative)
  | 'n' :: 'a' :: 'n' :: _ => readNaN negative false (cs.drop 3)
  | 's' :: 'n' :: 'a' :: 'n' :: _ => readNaN negative true (cs.drop 4)
  | _ => readFinite negative cs

/-- Read a decimal number. -/
def ofChars? (cs : List Char) : Option Decimal :=
  match (Text.trim cs).filter (· != '_') with
  | '-' :: r => readMagnitude true r
  | '+' :: r => readMagnitude false r
  | r => readMagnitude false r

/-- Read a decimal number from a text. -/
def ofText? (s : String) : Option Decimal := ofChars? s.toList

end RewardLedger.Decimal
