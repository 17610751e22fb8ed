import RewardLedger.Instant.Timestamp
import RewardLedger.Number.Binary64Text
import RewardLedger.Number.DecimalText
import RewardLedger.Number.IntText
import RewardLedger.Schema.Checked

/-!
# Checks by kind

What a value must be to be accepted as an identifier, a text, a number and so on. The checks are
lenient: an identifier, an instant or a number may be given as a text that denotes it.
-/

namespace RewardLedger.Check

/-- Null or a value that passes the check. -/
def optional {α : Type} (check : Check α) : Check (Option α)
  | .null => .valid none
  | v => Checked.map some (check v)

/-- An identifier or its text. -/
def uuid : Check Uuid
  | .uuid u => .valid u
  | .str s =>
    match Uuid.ofText? s with
    | some u => .valid u
    | none => .wrong .unreadableUuid
  | _ => .wrong .notUuid

/-- A text. -/
def text : Check String
  | .str s => .valid s
  | _ => .wrong .notText

/-- A text with a number of characters between two bounds, none of which is a lone half of a
surrogate pair. -/
def textOf (least greatest : Nat) : Check String := fun v =>
  (text v).andThen fun s =>
    if Text.holdsHalf s then .wrong .notUnicode
    else if greatest < s.length then .wrong .textTooLong
    else if s.length < least then .wrong .textTooShort
    else .valid s

/-- The instant that a number denotes. -/
def timestamp (reading : Except Instant.Misread Instant) : Checked Instant :=
  match reading with
  | .ok t => .valid t
  | .error _ => .wrong .impossibleInstant

/-- The instant that a floating point number of seconds denotes. -/
def floatTimestamp (x : Binary64) : Checked Instant := timestamp (Instant.ofFloat x)

/-- The instant that a whole number denotes; one of more than 64 bits counts as the floating point
number that is nearest to it, if there is one. -/
def intTimestamp (i : Int) : Checked Instant :=
  if -0x8000000000000000 ≤ i ∧ i < 0x8000000000000000 then timestamp (Instant.ofTimestamp i 0)
  else
    let x := Binary64.ofQuotient (i < 0) i.natAbs 1
    if x.isFinite then floatTimestamp x else .wrong .notInstant

/-- An instant, its text, or a timestamp; a decimal number counts as the floating point number that is
nearest to it. -/
def instant : Check Instant
  | .instant t => .valid t
  | .str s =>
    match Instant.read s with
    | .ok t => .valid t
    | .error .unreadable => .wrong .unreadableInstant
    | .error .impossible => .wrong .impossibleInstant
  | .int i => intTimestamp i
  | .float x => floatTimestamp x
  | .decimal d => if d.isSignaling then .wrong .notInstant else floatTimestamp (.ofDecimal d)
  | _ => .wrong .notInstant

/-- A decimal number that must be finite. -/
def finiteDecimal (d : Decimal) : Checked Decimal :=
  if d.isFinite then .valid d else .wrong .notFinite

/-- The coefficient that the list of its digits denotes. -/
def coefficient? : Value → Option Nat
  | .list digits => (digits.mapM digit?).map ofDigits
  | .tuple digits => (digits.mapM digit?).map ofDigits
  | _ => none
where
  /-- A digit, given as a whole number below ten. -/
  digit? (v : Value) : Option Nat := do
    let i ← v.whole?
    if 0 ≤ i ∧ i < 10 then some i.toNat else none

/-- The decimal number with the given sign and coefficient and an exponent, in whose place a letter
may say that the number is not finite. -/
def decimalWithExponent (negative : Bool) (coefficient : Nat) (exponent : Value) : Checked Decimal :=
  match exponent, exponent.whole? with
  | _, some e =>
    if Decimal.inExponentRange coefficient e then .valid (.finite negative coefficient e)
    else .wrong .unreadableDecimal
  | .str letter, none =>
    if ["F", "n", "N"].contains letter then .wrong .notFinite else .wrong .notDecimal
  | _, none => .wrong .notDecimal

/-- The decimal number that is given by its sign, its digits and its exponent. -/
def decimalOfParts : List Value → Checked Decimal
  | [sign, digits, exponent] =>
    match sign.whole?, coefficient? digits with
    | some 0, some c => decimalWithExponent false c exponent
    | some 1, some c => decimalWithExponent true c exponent
    | _, _ => .wrong .notDecimal
  | _ => .wrong .notDecimal

/-- A finite number, its text, or the sequence of its sign, its digits and its exponent; a binary
floating point number stands for its shortest decimal text. -/
def decimal : Check Decimal
  | .decimal d => finiteDecimal d
  | .int i => finiteDecimal (.ofInt i)
  | .float x => readDecimal x.chars
  | .str s => readDecimal s.toList
  | .tuple parts => decimalOfParts parts
  | _ => .wrong .notDecimal
where
  /-- The finite number that a text denotes. -/
  readDecimal (cs : List Char) : Checked Decimal :=
    match Decimal.ofChars? cs with
    | some d => finiteDecimal d
    | none => .wrong .unreadableDecimal

/-- The whole number that a floating point number is, if it fits into 64 bits. -/
def wholeFloat (x : Binary64) : Checked Int :=
  match x.toInt? with
  | some i =>
    if -0x8000000000000000 < i ∧ i < 0x8000000000000000 then .valid i else .wrong .tooManyDigits
  | none => .wrong (if x.isFinite then .fractional else .notFinite)

/-- The whole number that a decimal number is. -/
def wholeDecimal (d : Decimal) : Checked Int :=
  match d.toInt? with
  | some i => .valid i
  | none => .wrong (if d.isFinite then .fractional else .notFinite)

/-- A whole number, its text, or another number without a fraction. -/
def int : Check Int
  | .int i => .valid i
  | .bool b => .valid (if b then 1 else 0)
  | .float x => wholeFloat x
  | .decimal d => wholeDecimal d
  | .str s =>
    match IntText.read s with
    | .ok i => .valid i
    | .error .unreadable => .wrong .unreadableInt
    | .error .tooLong => .wrong .tooManyDigits
  | _ => .wrong .notInt

/-- A whole number that is not below a bound. -/
def intFrom (least : Int) : Check Int := fun v =>
  (int v).andThen fun i => if i < least then .wrong .tooSmall else .valid i

/-- A whole number between two bounds. -/
def intBetween (least greatest : Int) : Check Int := fun v =>
  (int v).andThen fun i =>
    if greatest < i then .wrong .tooLarge
    else if i < least then .wrong .tooSmall
    else .valid i

/-- The words for a truth value. -/
def boolWord? (s : String) : Option Bool :=
  let word := String.ofList (s.toList.map Char.toLower)
  if ["1", "on", "t", "true", "y", "yes"].contains word then some true
  else if ["0", "off", "f", "false", "n", "no"].contains word then some false
  else none

/-- The truth value that 0 or 1 stands for; a number that does not fit into 64 bits is not even
looked at. -/
def boolOfInt (i : Int) : Checked Bool :=
  if i = 0 then .valid false
  else if i = 1 then .valid true
  else if -0x8000000000000000 ≤ i ∧ i < 0x8000000000000000 then .wrong .unreadableBool
  else .wrong .notBool

/-- The truth value that a floating point number stands for. -/
def boolOfFloat (x : Binary64) : Checked Bool :=
  match wholeFloat x with
  | .valid i => boolOfInt i
  | .invalid _ => .wrong .notBool

/-- A truth value, a word for one, or one of the numbers 0 and 1; a decimal number counts as the
floating point number that is nearest to it. -/
def bool : Check Bool
  | .bool b => .valid b
  | .int i => boolOfInt i
  | .float x => boolOfFloat x
  | .decimal d => if d.isSignaling then .wrong .notBool else boolOfFloat (.ofDecimal d)
  | .str s =>
    match boolWord? s with
    | some b => .valid b
    | none => .wrong .unreadableBool
  | _ => .wrong .notBool

/-- An object. -/
def object : Check Fields
  | .object fields => .valid fields
  | _ => .wrong .notObject

/-- An object, whatever its keys are. -/
def mapping : Check Value
  | .object fields => .valid (.object fields)
  | .map entries => .valid (.map entries)
  | _ => .wrong .notObject

/-- A list of objects of which there are at least so many. -/
def objects (least : Nat) : Check (List Fields)
  | .list vs => listOf vs
  | .tuple vs => listOf vs
  | _ => .wrong .notList
where
  /-- The objects of a list, if there are enough of them. -/
  listOf (vs : List Value) : Checked (List Fields) :=
    (Checked.items object 0 vs).andThen fun os =>
      if os.length < least then .wrong .listTooShort else .valid os

/-- One of the names that `ofName?` knows. -/
def member {α : Type} (ofName? : String → Option α) : Check α
  | .str s =>
    match ofName? s with
    | some a => .valid a
    | none => .wrong .notMember
  | _ => .wrong .notMember

/-- A record, given as an object with its fields. -/
def record {α : Type} (read : Fields → Checked α) : Check α
  | .object fields => read fields
  | _ => .wrong .notRecord

/-- A record that may be given as anything that can have parts. Objects have their fields as parts;
decimal numbers and identifiers have none that a record has, and the other values have no parts at
all. -/
def partsOf {α : Type} (read : Fields → Checked α) : Check α
  | .object fields => read fields
  | .decimal _ | .uuid _ => read []
  | _ => .wrong .noParts

/-- A text passes the check of texts unchanged. -/
@[simp] theorem text_str (s : String) : text (.str s) = .valid s := rfl

/-- An identifier passes the check of identifiers unchanged. -/
@[simp] theorem uuid_uuid (u : Uuid) : uuid (.uuid u) = .valid u := rfl

/-- A name that is known passes as what it names. -/
theorem member_of_eq {α : Type} {ofName? : String → Option α} {s : String} {a : α}
    (h : ofName? s = some a) : member ofName? (.str s) = .valid a := by
  rw [member, h]

end RewardLedger.Check
