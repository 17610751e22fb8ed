/-!
# Issues of a malformed record or request

An issue says where in a record or a request something is wrong, and what.
-/

namespace RewardLedger

/-- A step from a record to one of its parts. -/
inductive PathStep where
  /-- The field of that name. -/
  | field (name : String)
  /-- The item at that place, from 0. -/
  | index (place : Nat)
  deriving DecidableEq, Repr

/-- What is wrong with a part of a record or request. -/
inductive IssueKind where
  /-- A required part is absent. -/
  | missing
  /-- The part is no text. -/
  | notText
  /-- The text holds a lone half of a surrogate pair. -/
  | notUnicode
  /-- The text has too few characters. -/
  | textTooShort
  /-- The text has too many characters. -/
  | textTooLong
  /-- The text does not have the required form. -/
  | textMismatch
  /-- The part is neither an identifier nor a text. -/
  | notUuid
  /-- The text is no identifier. -/
  | unreadableUuid
  /-- The part is no instant. -/
  | notInstant
  /-- The text is no instant. -/
  | unreadableInstant
  /-- The number or text denotes an instant that does not exist. -/
  | impossibleInstant
  /-- The part is no decimal number. -/
  | notDecimal
  /-- The text is no decimal number. -/
  | unreadableDecimal
  /-- The number is not finite. -/
  | notFinite
  /-- The part is none of the allowed names. -/
  | notMember
  /-- The part is no object. -/
  | notObject
  /-- The part is no list. -/
  | notList
  /-- The list has too few items. -/
  | listTooShort
  /-- The part is no truth value. -/
  | notBool
  /-- The part cannot be read as a truth value. -/
  | unreadableBool
  /-- The part is no whole number. -/
  | notInt
  /-- The text is no whole number. -/
  | unreadableInt
  /-- The number has a fraction. -/
  | fractional
  /-- The text has too many digits for a whole number. -/
  | tooManyDigits
  /-- The number is too small. -/
  | tooSmall
  /-- The number is too large. -/
  | tooLarge
  /-- The part is no record. -/
  | notRecord
  /-- The part is not anything that has the parts of a record. -/
  | noParts
  /-- The body is no JSON text. -/
  | notJson
  deriving DecidableEq, Repr

/-- The code under which an issue is reported. -/
def IssueKind.code : IssueKind → String
  | missing => "missing"
  | notText => "string_type"
  | notUnicode => "string_unicode"
  | textTooShort => "string_too_short"
  | textTooLong => "string_too_long"
  | textMismatch => "string_pattern_mismatch"
  | notUuid => "uuid_type"
  | unreadableUuid => "uuid_parsing"
  | notInstant => "datetime_type"
  | unreadableInstant => "datetime_from_date_parsing"
  | impossibleInstant => "datetime_parsing"
  | notDecimal => "decimal_type"
  | unreadableDecimal => "decimal_parsing"
  | notFinite => "finite_number"
  | notMember => "enum"
  | notObject => "dict_type"
  | notList => "list_type"
  | listTooShort => "too_short"
  | notBool => "bool_type"
  | unreadableBool => "bool_parsing"
  | notInt => "int_type"
  | unreadableInt => "int_parsing"
  | fractional => "int_from_float"
  | tooManyDigits => "int_parsing_size"
  | tooSmall => "greater_than_equal"
  | tooLarge => "less_than_equal"
  | notRecord => "model_type"
  | noParts => "model_attributes_type"
  | notJson => "json_invalid"

/-- Something wrong at a place of a record or request. -/
structure Issue where
  /-- The way from the record to the place. -/
  path : List PathStep
  /-- What is wrong there. -/
  kind : IssueKind
  deriving DecidableEq, Repr

/-- The issue seen from a record of which the record with the issue is a part. -/
def Issue.under (step : PathStep) (issue : Issue) : Issue :=
  { issue with path := step :: issue.path }

end RewardLedger
