import RewardLedger.Number.Binary64Text
import RewardLedger.Text.Hex
import RewardLedger.Text.Surrogate
import RewardLedger.Value.Basic

/-!
# Reading JSON

A JSON text is read as a value. Besides JSON proper the words `NaN`, `Infinity` and `-Infinity` are
read as the floating point numbers that they name. A number without a fraction and an exponent is a
whole number of any size, up to 4300 digits; any other is a floating point number. Of several fields
of one name the last counts, at the place of the first. Escapes in a string are units of 16 bits,
which may be lone halves of surrogate pairs. Lists and objects can be nested up to `deepest`.

A reader takes the text that is left and answers with what it has read and what is left after that.
A fault is told by how many characters were left at the place where it shows, so that `read` can
tell the place itself.
-/

namespace RewardLedger.JsonText

/-- Why a text is no JSON. -/
inductive Fault where
  /-- The text goes wrong with so many characters left. -/
  | unexpected (left : Nat)
  /-- A whole number has too many digits. -/
  | numberTooLong
  /-- Lists and objects are nested too deeply. -/
  | tooDeep
  deriving DecidableEq, Repr

/-- The text goes wrong where this much is left of it. -/
def unexpected {α : Type} (rest : List Char) : Except Fault α := .error (.unexpected rest.length)

/-! ## Blanks -/

/-- The character is a blank between the parts of a text. -/
def isSpace (c : Char) : Bool := c == ' ' || c == '\t' || c == '\n' || c == '\r'

/-- The text after blanks. -/
def skipSpace (cs : List Char) : List Char := cs.dropWhile isSpace

/-! ## Strings -/

/-- The character that a backslash and this character stand for. -/
def escape? (c : Char) : Option Char :=
  match c with
  | '"' => some '"'
  | '\\' => some '\\'
  | '/' => some '/'
  | 'b' => some '\x08'
  | 'f' => some '\x0c'
  | 'n' => some '\n'
  | 'r' => some '\r'
  | 't' => some '\t'
  | _ => none

/-- The units of a string up to its closing quote; `opening` characters were left at its opening
quote. -/
def stringUnits (opening : Nat) : List Char → Except Fault (List Nat × List Char)
  | [] => .error (.unexpected opening)
  | '"' :: rest => .ok ([], rest)
  | ['\\'] => .error (.unexpected opening)
  | '\\' :: 'u' :: a :: b :: c :: d :: e :: rest =>
    match [a, b, c, d].mapM Text.hexValue? with
    | some ds => do
      let (units, rest) ← stringUnits opening (e :: rest)
      pure (Text.ofHex ds :: units, rest)
    | none => .error (.unexpected (rest.length + 6))
  | '\\' :: 'u' :: rest => .error (.unexpected (rest.length + 1))
  | '\\' :: c :: rest =>
    match escape? c with
    | some c => do
      let (units, rest) ← stringUnits opening rest
      pure (c.toNat :: units, rest)
    | none => .error (.unexpected (rest.length + 2))
  | c :: rest =>
    if c.toNat < 0x20 then .error (.unexpected (rest.length + 1))
    else do
      let (units, rest) ← stringUnits opening rest
      pure (c.toNat :: units, rest)

/-- Read a string after its opening quote. -/
def readString (cs : List Char) : Except Fault (String × List Char) := do
  let (units, rest) ← stringUnits (cs.length + 1) cs
  pure (String.ofList (Text.ofUnits units), rest)

/-! ## Numbers -/

/-- The character is an ASCII digit. -/
def isDigit (c : Char) : Bool := '0' ≤ c && c ≤ '9'

/-- The longest start of a text that consists of digits, and the rest. -/
def spanDigits (cs : List Char) : List Char × List Char := (cs.takeWhile isDigit, cs.dropWhile isDigit)

/-- No character is lost between the digits and the rest. -/
theorem spanDigits_append (cs : List Char) : (spanDigits cs).1 ++ (spanDigits cs).2 = cs :=
  List.takeWhile_append_dropWhile

/-- The first part consists of digits. -/
theorem isDigit_of_mem_spanDigits {cs : List Char} {c : Char} (h : c ∈ (spanDigits cs).1) :
    isDigit c = true := by
  have all := List.all_takeWhile (p := isDigit) (l := cs)
  exact List.all_eq_true.1 all c h

/-- The digits in front of the point: a zero alone, or digits of which the first is not zero. -/
def spanWhole : List Char → List Char × List Char
  | '0' :: rest => (['0'], rest)
  | cs => spanDigits cs

/-- A fraction, if there is one: a point and at least one digit. -/
def spanFraction : List Char → List Char × List Char
  | '.' :: rest =>
    match spanDigits rest with
    | ([], _) => ([], '.' :: rest)
    | (ds, rest) => ('.' :: ds, rest)
  | cs => ([], cs)

/-- A sign, if there is one. -/
def spanSign : List Char → List Char × List Char
  | '+' :: rest => (['+'], rest)
  | '-' :: rest => (['-'], rest)
  | cs => ([], cs)

/-- An exponent, if there is one: a letter, perhaps a sign, and at least one digit. -/
def spanExponent (cs : List Char) : List Char × List Char :=
  match cs with
  | c :: rest =>
    if c = 'e' ∨ c = 'E' then
      let (sign, digits) := spanSign rest
      match spanDigits digits with
      | ([], _) => ([], cs)
      | (ds, rest) => (c :: sign ++ ds, rest)
    else ([], cs)
  | [] => ([], [])

/-- The greatest number of digits of a whole number. -/
def greatestLength : Nat := 4300

/-- The whole number with these digits. -/
def wholeNumber (negative : Bool) (digits : List Char) : Except Fault Value :=
  if greatestLength < digits.length then .error .numberTooLong
  else
    let n := ofDigits (digits.map fun c => c.toNat - 0x30)
    .ok (.int (if negative then -(n : Int) else n))

/-- Read a number without its sign; the rest with the sign is `start`. -/
def readMagnitude (start : List Char) (negative : Bool) (cs : List Char) : Except Fault (Value × List Char) :=
  let (whole, afterWhole) := spanWhole cs
  let (fraction, afterFraction) := spanFraction afterWhole
  let (exponent, rest) := spanExponent afterFraction
  if whole.isEmpty then unexpected start
  else if fraction.isEmpty && exponent.isEmpty then do
    pure (← wholeNumber negative whole, rest)
  else
    let text := String.ofList ((if negative then ['-'] else []) ++ whole ++ fraction ++ exponent)
    match Binary64.ofText? text with
    | some x => .ok (.float x, rest)
    | none => unexpected start

/-- Read a number. -/
def readNumber : List Char → Except Fault (Value × List Char)
  | '-' :: rest => readMagnitude ('-' :: rest) true rest
  | cs => readMagnitude cs false cs

/-! ## Words -/

/-- The words that are values. -/
def words : List (List Char × Value) := [
  ("null".toList, .null), ("true".toList, .bool true), ("false".toList, .bool false),
  ("NaN".toList, .float .nan), ("Infinity".toList, .float (.infinite false)),
  ("-Infinity".toList, .float (.infinite true))]

/-- Read one of the words, or else a number. -/
def readWord (cs : List Char) : Except Fault (Value × List Char) :=
  match words.find? fun w => w.1.isPrefixOf cs with
  | some (word, v) => .ok (v, cs.drop word.length)
  | none => readNumber cs

/-! ## Values -/

/-- How deeply lists and objects can be nested. -/
def deepest : Nat := 950

mutual

/-- Read a value, in which lists and objects may be nested `room` deep. -/
def readValue : (fuel room : Nat) → List Char → Except Fault (Value × List Char)
  | 0, _, cs => unexpected cs
  | fuel + 1, room, cs =>
    match cs, room with
    | '"' :: rest, _ => do
      let (s, rest) ← readString rest
      pure (.str s, rest)
    | '[' :: _, 0 => .error .tooDeep
    | '[' :: rest, room + 1 =>
      match skipSpace rest with
      | ']' :: rest => .ok (.list [], rest)
      | rest => do
        let (items, rest) ← readItems fuel room rest
        pure (.list items, rest)
    | '\x7b' :: _, 0 => .error .tooDeep
    | '\x7b' :: rest, room + 1 =>
      match skipSpace rest with
      | '\x7d' :: rest => .ok (.object [], rest)
      | rest => do
        let (fields, rest) ← readMembers fuel room [] rest
        pure (.object fields, rest)
    | cs, _ => readWord cs

/-- Read the items of a list, of which there is at least one, and the closing bracket. -/
def readItems : (fuel room : Nat) → List Char → Except Fault (List Value × List Char)
  | 0, _, cs => unexpected cs
  | fuel + 1, room, cs => do
    let (v, rest) ← readValue fuel room cs
    match skipSpace rest with
    | ']' :: rest => pure ([v], rest)
    | ',' :: rest => do
      let (vs, rest) ← readItems fuel room (skipSpace rest)
      pure (v :: vs, rest)
    | rest => unexpected rest

/-- Read the further fields of an object, of which there is at least one, and the closing brace. -/
def readMembers : (fuel room : Nat) → Fields → List Char → Except Fault (Fields × List Char)
  | 0, _, _, cs => unexpected cs
  | fuel + 1, room, before, cs =>
    match cs with
    | '"' :: rest => do
      let (name, rest) ← readString rest
      match skipSpace rest with
      | ':' :: rest => do
        let (v, rest) ← readValue fuel room (skipSpace rest)
        let fields := before.put name v
        match skipSpace rest with
        | '\x7d' :: rest => pure (fields, rest)
        | ',' :: rest => readMembers fuel room fields (skipSpace rest)
        | rest => unexpected rest
      | rest => unexpected rest
    | rest => unexpected rest

end

/-- Read a text that is one value with blanks around it. -/
def readAll (cs : List Char) : Except Fault Value := do
  let (v, rest) ← readValue (2 * cs.length + 2) deepest (skipSpace cs)
  match skipSpace rest with
  | [] => pure v
  | rest => unexpected rest

/-- Why a text could not be read as JSON. -/
inductive ReadFault where
  /-- The text goes wrong at this place, counted in characters from 0. -/
  | invalid (position : Nat)
  /-- A whole number has too many digits. -/
  | numberTooLong
  /-- Lists and objects are nested too deeply. -/
  | tooDeep
  deriving DecidableEq, Repr

/-- Read a JSON text. -/
def read (cs : List Char) : Except ReadFault Value :=
  match readAll cs with
  | .ok v => .ok v
  | .error (.unexpected left) => .error (.invalid (cs.length - left))
  | .error .numberTooLong => .error .numberTooLong
  | .error .tooDeep => .error .tooDeep

end RewardLedger.JsonText
