import RewardLedger.Text.Surrogate
import RewardLedger.Text.Utf8

/-!
# Encodings of texts

A text that comes as octets without a word about its encoding is in UTF-8, UTF-16 or UTF-32. The
first characters of a JSON text are in the ASCII range, so the zeros among its first octets tell which
one it is. Units of 16 and 32 bits may be lone halves of surrogate pairs.
-/

namespace RewardLedger.Text

/-- An encoding of texts; the octets of a unit come with the greatest part first or last. -/
inductive Encoding where
  /-- One to four octets for each character. -/
  | utf8
  /-- Units of two octets. -/
  | utf16 (greatestFirst : Bool)
  /-- Units of four octets. -/
  | utf32 (greatestFirst : Bool)
  deriving DecidableEq, Repr

namespace Encoding

/-- The encoding of a JSON text, by where its first octets are zero. -/
def ofOctets : List Nat → Encoding
  | 0 :: b :: _ :: _ :: _ => if b = 0 then utf32 true else utf16 true
  | _ :: 0 :: c :: d :: _ => if c = 0 ∧ d = 0 then utf32 false else utf16 false
  | [0, _] => utf16 true
  | [_, 0] => utf16 false
  | _ => utf8

/-- The numbers of two parts each, which lie below `base`; nothing if a part is left. -/
def joined (greatestFirst : Bool) (base : Nat) : List Nat → Option (List Nat)
  | [] => some []
  | [_] => none
  | a :: b :: rest => do
    let numbers ← joined greatestFirst base rest
    pure ((if greatestFirst then a * base + b else b * base + a) :: numbers)

/-- The characters of code points, unless one lies beyond the last. -/
def ofPoints? (points : List Nat) : Option (List Char) :=
  if points.all (· < 0x110000) then some (points.map ofUnit) else none

/-- The characters of octets in the encoding, unless they break off or go beyond the last code
point. What is no UTF-8 is replaced. -/
def decode? : Encoding → List Nat → Option (List Char)
  | utf8, octets => some (Utf8.decode octets)
  | utf16 greatestFirst, octets => (joined greatestFirst 0x100 octets).map ofUnits
  | utf32 greatestFirst, octets => do
    let units ← joined greatestFirst 0x100 octets
    let points ← joined greatestFirst 0x10000 units
    ofPoints? points

/-- Octets of which none is zero are in UTF-8. -/
theorem ofOctets_of_notMem {octets : List Nat} (h : 0 ∉ octets) : ofOctets octets = utf8 := by
  unfold ofOctets
  split <;> simp_all

end Encoding

end RewardLedger.Text
