import RewardLedger.Number.Digits
import RewardLedger.Text.Blank

/-!
# Reading whole numbers

Two readers. The plain one accepts an optional minus sign and ASCII digits without a leading zero. The
lenient one accepts besides that blanks at both ends, a plus sign, leading zeros, single underscores
between digits, and a fraction of one or more zeros. Zeros are also dropped in front of a minus sign,
so that `0-5` reads as `-5`.
-/

namespace RewardLedger.IntText

/-- Why a text is no whole number. -/
inductive Fault where
  /-- The text does not have the form of a whole number. -/
  | unreadable
  /-- The number has too many digits. -/
  | tooLong
  deriving DecidableEq, Repr

/-- The greatest number of digits that is read. -/
def greatestLength : Nat := 4300

/-- The digit values of a text of ASCII digits that does not start with a needless zero. -/
def plainDigits? (cs : List Char) : Option (List Nat) :=
  if cs.isEmpty || !cs.all Char.isDigit || (cs.head? == some '0' && cs.length != 1) then none
  else some (cs.map fun c => c.toNat - 0x30)

/-- Read a number in its plain form. -/
def readPlain (cs : List Char) : Except Fault Int :=
  let (negative, digits) := match cs with
    | '-' :: r => (true, r)
    | r => (false, r)
  match plainDigits? digits with
  | none => .error .unreadable
  | some ds =>
    if greatestLength < ds.length then .error .tooLong
    else .ok (if negative then -(ofDigits ds : Int) else ofDigits ds)

/-- Drop zeros and underscores before the first other digit or minus sign; the last character stays,
and the zero before a point too. -/
def dropZeros : List Char → Option (List Char)
  | [] => none
  | [c] => some [c]
  | c :: '.' :: rest => some (c :: '.' :: rest)
  | _ :: d :: rest =>
    if d = '0' ∨ d = '_' then dropZeros (d :: rest)
    else if d.isDigit ∨ d = '-' then some (d :: rest)
    else none

/-- Drop the leading zeros of a number. -/
def withoutLeadingZeros (cs : List Char) : Option (List Char) :=
  match cs with
  | '0' :: _ => dropZeros cs
  | c :: _ => if c.isDigit ∨ c = '-' then some cs else none
  | [] => none

/-- Drop a fraction that consists of one or more zeros. -/
def withoutZeroFraction (cs : List Char) : List Char :=
  let fraction := (cs.dropWhile (· != '.')).drop 1
  if !fraction.isEmpty && fraction.all (· = '0') then cs.takeWhile (· != '.') else cs

/-- No two underscores stand side by side, and none at an end. -/
def wellGrouped (cs : List Char) : Bool :=
  cs.head? != some '_' && cs.getLast? != some '_' &&
    (cs.zip (cs.drop 1)).all fun p => !(p.1 = '_' && p.2 = '_')

/-- The plain form of a number without its sign. -/
def tidyMagnitude? (cs : List Char) : Option (List Char) := do
  let digits := withoutZeroFraction (← withoutLeadingZeros cs)
  pure (if wellGrouped digits then digits.filter (· != '_') else digits)

/-- The plain form of a number in its lenient form. -/
def tidy? (cs : List Char) : Option (List Char) :=
  match ((cs.dropWhile Text.isWhite).reverse.dropWhile Text.isWhite).reverse with
  | '+' :: '-' :: _ => none
  | '+' :: magnitude => tidyMagnitude? magnitude
  | '-' :: magnitude => (tidyMagnitude? magnitude).map ('-' :: ·)
  | magnitude => tidyMagnitude? magnitude

/-- Read a number in its lenient form. -/
def read (s : String) : Except Fault Int :=
  match readPlain s.toList with
  | .error .unreadable =>
    match tidy? s.toList with
    | none => .error .unreadable
    | some cs =>
      match readPlain cs with
      | .ok i => .ok i
      | .error _ => .error .unreadable
  | answer => answer

end RewardLedger.IntText
