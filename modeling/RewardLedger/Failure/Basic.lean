import RewardLedger.Failure.Fault
import RewardLedger.Failure.Issue
import RewardLedger.Number.DecimalContext

/-!
# Failures

Everything that can end an operation without a result. Besides the faults of the domain these are
refusals of the store, values of a kind that an operation cannot work with, numbers and dates out of
range, and records that do not have the form of what they should be.
-/

namespace RewardLedger

/-- The end of an operation without a result. -/
inductive Failure where
  /-- A refusal of the domain. -/
  | fault (cause : Fault)
  /-- A row with these values exists already. -/
  | duplicate (table index : String) (key : List Value)
  /-- The table does not let these columns be changed. -/
  | immutable (table : String) (columns : List String)
  /-- The row names no primary key. -/
  | noPrimaryKey (table column : String)
  /-- There is no table of the name. -/
  | unknownTable (table : Value)
  /-- There is no row with the key. -/
  | unknownRow (table : String) (key : Value)
  /-- The table has no index of the name. -/
  | unknownIndex (table index : String)
  /-- The row lacks the column. -/
  | noColumn (column : String)
  /-- The text is no whole number. -/
  | notWhole (text : String)
  /-- The number has too many digits to be written. -/
  | numberTooLong
  /-- The text has this many digits, too many for a number. -/
  | textTooLong (digits : Nat)
  /-- The item at this place should have been a pair and has another length. -/
  | notPair (place length : Nat)
  /-- The text is no identifier. -/
  | notUuid (cause : Uuid.Fault)
  /-- The value is not one of the names of the enumeration. -/
  | notMember (enumeration : String) (given : Value)
  /-- The precision is not positive, or too large. -/
  | precisionRange
  /-- The operation does not apply to a value of this kind. -/
  | wrongKind
  /-- The value has no such part. -/
  | noPart
  /-- A number, a date or a span of time is beyond what can be represented. -/
  | outOfRange
  /-- The caller gave the transaction up. -/
  | abandoned
  /-- A decimal operation has no result. -/
  | arithmetic (cause : ArithmeticFault)
  /-- A value has no JSON form. -/
  | noJsonForm
  /-- A number that is not finite has no form in JSON. -/
  | notJsonNumber
  /-- A text to be written holds a lone half of a surrogate pair. -/
  | notUnicode
  /-- The result cannot be sent, because this text in it holds a lone half of a surrogate pair. -/
  | unsendable (text : String)
  /-- A record does not have the required form. -/
  | malformed (issues : List Issue)
  deriving Repr

namespace Failure

/-- The kind of a failure that belongs to the domain: a fault, or a violated unique constraint. -/
def faultKind? : Failure → Option FaultKind
  | fault cause => some cause.kind
  | duplicate .. => some .uniqueViolation
  | _ => none

/-- The start of a text, as far as a message shows it. -/
def excerpt (s : String) : String := String.ofList (s.toList.take 200)

/-- Where the first lone halves of surrogate pairs stand in a text. -/
def halvesText (cs : List Char) : String :=
  let isHalf (c : Char) : Bool := (Text.halfOf? c).isSome
  let start := (cs.takeWhile fun c => !isHalf c).length
  let run := (cs.drop start).takeWhile isHalf
  match run.filterMap Text.halfOf? with
  | [half] =>
    "character '" ++ String.ofList (Text.codePoint half) ++ "' in position " ++
      String.ofList (natText start)
  | halves =>
    "characters in position " ++ String.ofList (natText start) ++ "-" ++
      String.ofList (natText (start + halves.length - 1))

/-- The message of a failure that has one. -/
def message? : Failure → Option String
  | fault cause => some cause.message
  | duplicate table index key =>
    some ("Unique constraint " ++ table ++ "." ++ index ++ " violated for " ++
      Value.keyLiteral key)
  | immutable table columns =>
    some (table ++ " columns " ++ quotedList columns ++ " are immutable")
  | noPrimaryKey table column =>
    some (table ++ " row is missing primary key " ++ Text.quote column)
  | unknownTable table => some (Text.quote ("Unknown table " ++ table.literalText))
  | unknownRow table key =>
    some (Text.quote (table ++ " row " ++ key.literalText ++ " does not exist"))
  | unknownIndex table index => some (Value.keyLiteral [.str table, .str index])
  | noColumn column => some (Text.quote column)
  | notWhole text => some ("invalid literal for int() with base 10: " ++ excerpt (Text.quote text))
  | numberTooLong =>
    some ("Exceeds the limit (4300 digits) for integer string conversion; " ++
      "use sys.set_int_max_str_digits() to increase the limit")
  | textTooLong digits =>
    some ("Exceeds the limit (4300 digits) for integer string conversion: value has " ++
      String.ofList (natText digits) ++
      " digits; use sys.set_int_max_str_digits() to increase the limit")
  | notPair place length =>
    some ("dictionary update sequence element #" ++ String.ofList (natText place) ++
      " has length " ++ String.ofList (natText length) ++ "; 2 is required")
  | notUuid .wrongLength => some "badly formed hexadecimal UUID string"
  | notUuid (.notANumber digits) =>
    some ("invalid literal for int() with base 16: " ++ excerpt (Text.quote digits))
  | notUuid .outOfRange => some "int is out of range (need a 128-bit value)"
  | notMember enumeration given =>
    some (given.literalText ++ " is not a valid " ++ enumeration)
  | precisionRange => some "valid range for prec is [1, MAX_PREC]"
  | noJsonForm => some "Unable to serialize unknown type: <class 'object'>"
  | notJsonNumber => some "Out of range float values are not JSON compliant"
  | unsendable text =>
    some ("Error serializing to JSON: UnicodeEncodeError: 'utf-8' codec can't encode " ++
      halvesText text.toList ++ ": surrogates not allowed")
  | wrongKind | noPart | outOfRange | abandoned | arithmetic _ | notUnicode | malformed _ => none

end Failure

/-- A malformed rule as a failure. -/
def RuleFault.failure (fault : RuleFault) : Failure := .fault (.malformedRule fault)

end RewardLedger
