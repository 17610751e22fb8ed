import RewardLedger.Number.Binary64Text
import RewardLedger.Number.DecimalText
import RewardLedger.Text.Quoted
import RewardLedger.Value.Basic

/-!
# The text of values in messages

Messages show a value in one of two ways. Its literal names the kind of the value and quotes texts;
the plain text differs from it for texts, decimals, identifiers and instants only, which it shows
without quotes and names. Inside lists and objects all values are literals. A value that holds a whole
number of too many digits cannot be written (`Value.isWritable`).
-/

namespace RewardLedger

/-- The offset of an instant in a literal. -/
def Instant.zoneLiteral (offset : Int) : List Char :=
  if offset = 0 then "datetime.timezone.utc".toList
  else
    let days := offset.fdiv 86400
    let seconds := offset.fmod 86400
    let parts :=
      (if days = 0 then [] else ["days=".toList ++ intText days]) ++
        (if seconds = 0 then [] else ["seconds=".toList ++ intText seconds])
    "datetime.timezone(datetime.timedelta(".toList ++ List.intercalate [',', ' '] parts ++
      [')', ')']

/-- The literal of an instant: the parts of date and time, the second and its fraction only if they
are not zero. -/
def Instant.literal (t : Instant) : List Char :=
  let f := t.fields
  let parts := [f.year, f.month, f.day, f.hour, f.minute] ++
    (if f.micro ≠ 0 then [f.second, f.micro] else if f.second ≠ 0 then [f.second] else [])
  "datetime.datetime(".toList ++ List.intercalate [',', ' '] (parts.map natText) ++
    (match t.offset with
      | some offset => ", tzinfo=".toList ++ Instant.zoneLiteral offset
      | none => []) ++ [')']

namespace Value

/-- Texts between brackets with commas between them. -/
def bracketed (left : Char) (right : List Char) (parts : List (List Char)) : List Char :=
  left :: List.intercalate [',', ' '] parts ++ right

mutual

/-- The literal of a value. -/
def literal : Value → List Char
  | null => "None".toList
  | bool b => (if b then "True" else "False").toList
  | int i => intText i
  | float x => x.chars
  | decimal d => "Decimal('".toList ++ d.chars ++ ['\'', ')']
  | str s => Text.quoted s.toList
  | uuid u => "UUID('".toList ++ u.chars ++ ['\'', ')']
  | instant t => t.literal
  | list items => bracketed '[' [']'] (itemLiterals items)
  | tuple items =>
    bracketed '(' (if items.length = 1 then [',', ')'] else [')']) (itemLiterals items)
  | object fields => bracketed '\x7b' ['\x7d'] (fieldLiterals fields)
  | map entries => bracketed '\x7b' ['\x7d'] (entryLiterals entries)
  | opaqueThing => "<object object>".toList

/-- The literals of the items of a list. -/
def itemLiterals : List Value → List (List Char)
  | [] => []
  | v :: rest => v.literal :: itemLiterals rest

/-- The fields of an object with their names in quotes. -/
def fieldLiterals : List (String × Value) → List (List Char)
  | [] => []
  | (k, v) :: rest => (Text.quoted k.toList ++ ':' :: ' ' :: v.literal) :: fieldLiterals rest

/-- The entries of an object with the literals of their keys. -/
def entryLiterals : List (Value × Value) → List (List Char)
  | [] => []
  | (k, v) :: rest => (k.literal ++ ':' :: ' ' :: v.literal) :: entryLiterals rest

end

/-- The plain text of a value. -/
def plain : Value → List Char
  | str s => s.toList
  | decimal d => d.chars
  | uuid u => u.chars
  | instant t => t.spacedText.toList
  | v => v.literal

/-- The literal of a value, as a string. -/
def literalText (v : Value) : String := String.ofList v.literal

/-- The plain text of a value, as a string. -/
def plainText (v : Value) : String := String.ofList v.plain

/-- The literal of a composite key. -/
def keyLiteral (key : List Value) : String := (tuple key).literalText

/-- The greatest number of digits of a whole number that is written. -/
def longestWhole : Nat := 4300

mutual

/-- The value can be written: no whole number in it has too many digits. -/
def isWritable : Value → Bool
  | int i => digitCount i.natAbs ≤ longestWhole
  | list items => itemsWritable items
  | tuple items => itemsWritable items
  | object fields => fieldsWritable fields
  | map entries => entriesWritable entries
  | _ => true

/-- The items of a list can be written. -/
def itemsWritable : List Value → Bool
  | [] => true
  | v :: rest => v.isWritable && itemsWritable rest

/-- The fields of an object can be written. -/
def fieldsWritable : List (String × Value) → Bool
  | [] => true
  | (_, v) :: rest => v.isWritable && fieldsWritable rest

/-- The entries of an object can be written. -/
def entriesWritable : List (Value × Value) → Bool
  | [] => true
  | (k, v) :: rest => k.isWritable && v.isWritable && entriesWritable rest

end

/-- A text is its own plain text. -/
theorem plainText_str (s : String) : (str s).plainText = s := by
  simp [plainText, plain]

end Value

/-- The literals of several texts as a list. -/
def quotedList (names : List String) : String := (Value.list (names.map .str)).literalText

end RewardLedger
