import RewardLedger.Failure.Basic
import RewardLedger.Text.Hex

/-!
# Values as JSON

Two conversions. `jsonForm` turns a value into one that consists of the kinds of JSON only:
decimals, identifiers and instants become texts, fixed sequences become lists and numbers that are
not finite become null; an opaque thing has no such form. `canonical?` is the canonical JSON text of
a value that already has only those kinds: names in ascending order, no blanks, and every character
beyond the printable ASCII range escaped in units of 16 bits.

A lone half of a surrogate pair may stand in texts, which can then be escaped but not sent, and not
in names of fields.
-/

namespace RewardLedger

namespace Value

/-- A text as the name of a field in JSON; a lone half of a surrogate pair cannot be part of one. -/
def fieldName (s : String) : Except Failure String :=
  if Text.holdsHalf s then .error .notUnicode else .ok s

mutual

/-- The name of a field whose key is the value: truth values are written in lower case, instants as in
JSON, and the parts of a sequence with commas between them. -/
def keyText : Value → Except Failure String
  | bool b => .ok (if b then "true" else "false")
  | instant t => .ok t.zuluText
  | tuple items => do return String.intercalate "," (← itemKeyTexts items)
  | opaqueThing => .error .noJsonForm
  | v => fieldName v.plainText

/-- The names of several keys. -/
def itemKeyTexts : List Value → Except Failure (List String)
  | [] => .ok []
  | v :: rest => do
    let s ← v.keyText
    let ss ← itemKeyTexts rest
    pure (s :: ss)

end

mutual

/-- The JSON form of a value. -/
def jsonForm : Value → Except Failure Value
  | float x => .ok (if x.isFinite then float x else null)
  | decimal d => .ok (str d.text)
  | uuid u => .ok (str u.text)
  | instant t => .ok (str t.zuluText)
  | list items => do return list (← itemsJsonForm items)
  | tuple items => do return list (← itemsJsonForm items)
  | object fields => do return object (← fieldsJsonForm fields)
  | map entries => do return object (Fields.putAll [] (← entriesJsonForm entries))
  | opaqueThing => .error .noJsonForm
  | v => .ok v

/-- The JSON forms of the items of a list. -/
def itemsJsonForm : List Value → Except Failure (List Value)
  | [] => .ok []
  | v :: rest => do
    let w ← v.jsonForm
    let ws ← itemsJsonForm rest
    pure (w :: ws)

/-- The fields of an object with the JSON forms of their values. -/
def fieldsJsonForm : List (String × Value) → Except Failure (List (String × Value))
  | [] => .ok []
  | (k, v) :: rest => do
    let name ← fieldName k
    let w ← v.jsonForm
    let ws ← fieldsJsonForm rest
    pure ((name, w) :: ws)

/-- The fields that entries become in JSON. -/
def entriesJsonForm : List (Value × Value) → Except Failure (List (String × Value))
  | [] => .ok []
  | (k, v) :: rest => do
    let name ← k.keyText
    let w ← v.jsonForm
    let ws ← entriesJsonForm rest
    pure ((name, w) :: ws)

end

/-- The text, if it holds a lone half of a surrogate pair. -/
def ifHalved (s : String) : Option String := if Text.holdsHalf s then some s else none

mutual

/-- The first text in a value, names of fields included, that holds a lone half of a surrogate
pair. -/
def halvedText? : Value → Option String
  | str s => ifHalved s
  | list items => halvedAmongItems? items
  | tuple items => halvedAmongItems? items
  | object fields => halvedAmongFields? fields
  | map entries => halvedAmongEntries? entries
  | _ => none

/-- The first such text among the items of a list. -/
def halvedAmongItems? : List Value → Option String
  | [] => none
  | v :: rest => v.halvedText?.or (halvedAmongItems? rest)

/-- The first such text among the fields of an object. -/
def halvedAmongFields? : List (String × Value) → Option String
  | [] => none
  | (k, v) :: rest => (ifHalved k).or (v.halvedText?.or (halvedAmongFields? rest))

/-- The first such text among the entries of an object. -/
def halvedAmongEntries? : List (Value × Value) → Option String
  | [] => none
  | (k, v) :: rest => k.halvedText?.or (v.halvedText?.or (halvedAmongEntries? rest))

end

mutual

/-- The value holds a floating point number that is not finite. -/
def holdsNonFinite : Value → Bool
  | float x => !x.isFinite
  | list items => nonFiniteAmongItems items
  | tuple items => nonFiniteAmongItems items
  | object fields => nonFiniteAmongFields fields
  | map entries => nonFiniteAmongEntries entries
  | _ => false

/-- One of the items of a list holds such a number. -/
def nonFiniteAmongItems : List Value → Bool
  | [] => false
  | v :: rest => v.holdsNonFinite || nonFiniteAmongItems rest

/-- One of the fields of an object holds such a number. -/
def nonFiniteAmongFields : List (String × Value) → Bool
  | [] => false
  | (_, v) :: rest => v.holdsNonFinite || nonFiniteAmongFields rest

/-- One of the entries of an object holds such a number. -/
def nonFiniteAmongEntries : List (Value × Value) → Bool
  | [] => false
  | (k, v) :: rest => k.holdsNonFinite || v.holdsNonFinite || nonFiniteAmongEntries rest

end

/-- A unit of 16 bits as an escape. -/
def unitEscape (n : Nat) : List Char := '\\' :: 'u' :: Text.hexText 4 n

/-- A character beyond the printable ASCII range as escapes: as one unit if it is a lone half of a
surrogate pair or no pair, otherwise as two. -/
def escapedChar (c : Char) : List Char :=
  match Text.halfOf? c with
  | some half => unitEscape half
  | none =>
    if c.toNat < 0x10000 then unitEscape c.toNat
    else
      let n := c.toNat - 0x10000
      unitEscape (0xD800 + n / 0x400) ++ unitEscape (0xDC00 + n % 0x400)

/-- A character of a JSON text. -/
def jsonChar (c : Char) : List Char :=
  if c = '"' ∨ c = '\\' then ['\\', c]
  else if c = '\n' then ['\\', 'n']
  else if c = '\r' then ['\\', 'r']
  else if c = '\t' then ['\\', 't']
  else if c = '\x08' then ['\\', 'b']
  else if c = '\x0c' then ['\\', 'f']
  else if 0x20 ≤ c.toNat ∧ c.toNat < 0x7F then [c]
  else escapedChar c

/-- A text in JSON. -/
def jsonString (s : String) : List Char := '"' :: s.toList.flatMap jsonChar ++ ['"']

/-- A floating point number in JSON, with words for those that are not finite. -/
def jsonFloat : Binary64 → List Char
  | .nan => "NaN".toList
  | .infinite negative => (if negative then "-Infinity" else "Infinity").toList
  | x => x.chars

/-- Insert a named text into a list in ascending order of names. -/
def insertNamed (f : String × List Char) : List (String × List Char) → List (String × List Char)
  | [] => [f]
  | g :: rest => if g.1 ≤ f.1 then g :: insertNamed f rest else f :: g :: rest

mutual

/-- The canonical JSON text of a value; nothing for kinds that JSON does not have. -/
def canonical? : Value → Option (List Char)
  | null => some "null".toList
  | bool b => some (if b then "true" else "false").toList
  | int i => some (intText i)
  | float x => some (jsonFloat x)
  | str s => some (jsonString s)
  | list items => (canonicalItems? items).map fun ts =>
      '[' :: List.intercalate [','] ts ++ [']']
  | tuple items => (canonicalItems? items).map fun ts =>
      '[' :: List.intercalate [','] ts ++ [']']
  | object fields => (canonicalFields? fields).map fun ts =>
      '\x7b' :: List.intercalate [','] ((ts.foldr insertNamed []).map fun t =>
        jsonString t.1 ++ ':' :: t.2) ++ ['\x7d']
  | _ => none

/-- The canonical JSON texts of the items of a list. -/
def canonicalItems? : List Value → Option (List (List Char))
  | [] => some []
  | v :: rest => do
    let t ← v.canonical?
    let ts ← canonicalItems? rest
    pure (t :: ts)

/-- The canonical JSON texts of the fields of an object, by name. -/
def canonicalFields? : List (String × Value) → Option (List (String × List Char))
  | [] => some []
  | (k, v) :: rest => do
    let t ← v.canonical?
    let ts ← canonicalFields? rest
    pure ((k, t) :: ts)

end

end Value

end RewardLedger
