import RewardLedger.Text.Hex
import RewardLedger.Text.Printable
import RewardLedger.Text.Surrogate

/-!
# Quoted text

A text in quotes, as messages show it. Single quotes are used unless the text contains a single
quote and no double one. Backslashes, the quote in use, line breaks and tabs are written with a
backslash, and other characters that cannot be shown by their code point in two, four or eight
hexadecimal digits.
-/

namespace RewardLedger.Text

/-- The quote that surrounds a text. -/
def quoteFor (cs : List Char) : Char := if '\'' ∈ cs ∧ '"' ∉ cs then '"' else '\''

/-- The code point of a character that cannot be shown. -/
def codePoint (n : Nat) : List Char :=
  if n < 0x100 then '\\' :: 'x' :: hexText 2 n
  else if n < 0x10000 then '\\' :: 'u' :: hexText 4 n
  else '\\' :: 'U' :: hexText 8 n

/-- A character between quotes. -/
def escaped (quote c : Char) : List Char :=
  if c = quote ∨ c = '\\' then ['\\', c]
  else if c = '\n' then ['\\', 'n']
  else if c = '\r' then ['\\', 'r']
  else if c = '\t' then ['\\', 't']
  else if isPrintable c then [c]
  else codePoint ((halfOf? c).getD c.toNat)

/-- The text in quotes. -/
def quoted (cs : List Char) : List Char :=
  let quote := quoteFor cs
  quote :: cs.flatMap (escaped quote) ++ [quote]

/-- The text in quotes, as a string. -/
def quote (s : String) : String := String.ofList (quoted s.toList)

/-- A text without quotes stands between single ones. -/
theorem quoteFor_of_notMem {cs : List Char} (h : '\'' ∉ cs) : quoteFor cs = '\'' := by
  simp [quoteFor, h]

end RewardLedger.Text
