import RewardLedger.Text.Blank
import RewardLedger.Text.Digit
import RewardLedger.Text.Hex

/-!
# Universally unique identifiers

An identifier is a number of 128 bits, written as 32 hexadecimal digits in five groups. Two readers
exist. The strict one accepts the plain, the hyphenated, the braced and the `urn:uuid:` form. The
loose one looks at the 32 characters that remain when hyphens, outer braces and the words `urn:` and
`uuid:` are taken away and reads them as a number in base sixteen.
-/

namespace RewardLedger

/-- A universally unique identifier. -/
structure Uuid where
  /-- The identifier as a number. -/
  value : Nat
  deriving DecidableEq, Repr, Inhabited

namespace Uuid

/-- The five groups of hexadecimal digits of an identifier. -/
def chars (u : Uuid) : List Char :=
  let ds := Text.hexText 32 u.value
  ds.take 8 ++ '-' :: (ds.drop 8).take 4 ++ '-' :: (ds.drop 12).take 4 ++
    '-' :: (ds.drop 16).take 4 ++ '-' :: ds.drop 20

/-- The text of an identifier. -/
def text (u : Uuid) : String := String.ofList u.chars

/-! ## Strict reading -/

/-- Read 32 hexadecimal digits. -/
def ofPlain? (cs : List Char) : Option Uuid :=
  if cs.length = 32 then (cs.mapM Text.hexValue?).map fun ds => ⟨Text.ofHex ds⟩ else none

/-- Read five groups of hexadecimal digits with hyphens between them. -/
def ofHyphenated? (cs : List Char) : Option Uuid :=
  if cs.length = 36 ∧ [8, 13, 18, 23].all (fun i => cs[i]? == some '-') then
    let ds := cs.take 8 ++ (cs.drop 9).take 4 ++ (cs.drop 14).take 4 ++ (cs.drop 19).take 4 ++
      cs.drop 24
    ofPlain? ds
  else none

/-- Read an identifier in one of its four forms. -/
def ofText? (s : String) : Option Uuid :=
  let cs := s.toList
  match cs.length with
  | 32 => ofPlain? cs
  | 36 => ofHyphenated? cs
  | 38 =>
    if cs.head? = some '{' ∧ cs.getLast? = some '}' then ofHyphenated? (cs.drop 1).dropLast
    else none
  | 45 =>
    if cs.take 9 = ['u', 'r', 'n', ':', 'u', 'u', 'i', 'd', ':'] then ofHyphenated? (cs.drop 9)
    else none
  | _ => none

/-! ## Loose reading -/

/-- Why a text is no identifier for the loose reader. -/
inductive Fault where
  /-- The text does not have 32 characters of its own. -/
  | wrongLength
  /-- The characters, which are kept here, are no number in base sixteen. -/
  | notANumber (digits : String)
  /-- The number has a sign that takes it out of the range of identifiers. -/
  | outOfRange
  deriving DecidableEq, Repr

/-- Remove every occurrence of a word, from left to right. -/
def withoutWord (word : List Char) : (skip : Nat) → List Char → List Char
  | _, [] => []
  | skip + 1, _ :: rest => withoutWord word skip rest
  | 0, c :: rest =>
    if word.isPrefixOf (c :: rest) then withoutWord word (word.length - 1) rest
    else c :: withoutWord word 0 rest

/-- The ASCII digit of the same value in place of a decimal digit of any script. -/
def plainDigit (c : Char) : Char :=
  match Text.decimalValue? c with
  | some v => Char.ofNat (0x30 + v)
  | none => c

/-- Read digits in base sixteen, a single underscore being allowed before each but the first. -/
def looseDigits? : List Char → Option (List Nat)
  | [] => some []
  | '_' :: c :: rest => do
    let v ← Text.hexValue? c
    let vs ← looseDigits? rest
    pure (v :: vs)
  | c :: rest => do
    let v ← Text.hexValue? c
    let vs ← looseDigits? rest
    pure (v :: vs)

/-- Read a number in base sixteen with an optional sign and an optional `0x` before it, between
blanks. -/
def looseNumber? (cs : List Char) : Option Int :=
  let bare := ((cs.dropWhile Text.isWhite).reverse.dropWhile Text.isWhite).reverse
  let (negative, rest) := match bare.map plainDigit with
    | '-' :: r => (true, r)
    | '+' :: r => (false, r)
    | r => (false, r)
  let (marked, digits) := match rest with
    | '0' :: 'x' :: r => (true, r)
    | '0' :: 'X' :: r => (true, r)
    | r => (false, r)
  let magnitude :=
    match digits with
    | [] => none
    | '_' :: _ => if marked then looseDigits? digits else none
    | _ => looseDigits? digits
  magnitude.map fun ds => if negative then -(Text.ofHex ds : Int) else Text.ofHex ds

/-- Read an identifier loosely. -/
def readLoosely (s : String) : Except Fault Uuid :=
  let bare := withoutWord ['u', 'u', 'i', 'd', ':'] 0 (withoutWord ['u', 'r', 'n', ':'] 0 s.toList)
  let isBrace (c : Char) : Bool := c = '{' || c = '}'
  let inner := ((bare.dropWhile isBrace).reverse.dropWhile isBrace).reverse
  let digits := inner.filter (· != '-')
  if digits.length ≠ 32 then .error .wrongLength
  else
    match looseNumber? digits with
    | none => .error (.notANumber (String.ofList digits))
    | some i => if 0 ≤ i ∧ i < 0x100000000000000000000000000000000 then .ok ⟨i.toNat⟩ else .error .outOfRange

/-- The text of an identifier has 36 characters. -/
theorem length_chars (u : Uuid) : u.chars.length = 36 := by
  simp [chars, Text.length_hexText]

end Uuid

end RewardLedger
