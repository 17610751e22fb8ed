/-!
# UTF-8

A character is written as one to four octets. A sequence of octets is read as characters; what is no
UTF-8 is read as the replacement character, once for each longest start of a character that does not
go on as one. `Pending` is where the reader stands inside a character: what it has read of it, how
many octets it still needs, and between which bounds the next one must lie. The bounds exclude
needlessly long forms, halves of surrogate pairs and code points beyond the last one.
-/

namespace RewardLedger.Utf8

/-- The character that stands for what is no UTF-8. -/
def replacement : Char := '\uFFFD'

/-- The octets of a character. -/
def encodeChar (c : Char) : List Nat :=
  let n := c.toNat
  if n < 0x80 then [n]
  else if n < 0x800 then [0xC0 + n / 0x40, 0x80 + n % 0x40]
  else if n < 0x10000 then [0xE0 + n / 0x1000, 0x80 + n / 0x40 % 0x40, 0x80 + n % 0x40]
  else
    [0xF0 + n / 0x40000, 0x80 + n / 0x1000 % 0x40, 0x80 + n / 0x40 % 0x40, 0x80 + n % 0x40]

/-- The octets of a text. -/
def encode (cs : List Char) : List Nat := cs.flatMap encodeChar

/-- The start of a character of several octets. -/
structure Pending where
  /-- The bits read so far, as a number. -/
  bits : Nat
  /-- How many octets are needed after the next one. -/
  more : Nat
  /-- The least octet that can come next. -/
  least : Nat := 0x80
  /-- The greatest octet that can come next. -/
  greatest : Nat := 0xBF
  deriving DecidableEq, Repr, Inhabited

/-- What an octet is at the start of a character: a character by itself, the start of one, or
neither. -/
inductive Lead where
  /-- A character by itself. -/
  | single (c : Char)
  /-- The start of a character. -/
  | starts (pending : Pending)
  /-- Neither. -/
  | invalid
  deriving DecidableEq, Repr

/-- What an octet is at the start of a character. -/
def lead (octet : Nat) : Lead :=
  if octet < 0x80 then .single (Char.ofNat octet)
  else if octet < 0xC2 then .invalid
  else if octet < 0xE0 then .starts { bits := octet - 0xC0, more := 0 }
  else if octet = 0xE0 then .starts { bits := 0, more := 1, least := 0xA0 }
  else if octet = 0xED then .starts { bits := 0xD, more := 1, greatest := 0x9F }
  else if octet < 0xF0 then .starts { bits := octet - 0xE0, more := 1 }
  else if octet = 0xF0 then .starts { bits := 0, more := 2, least := 0x90 }
  else if octet = 0xF4 then .starts { bits := 4, more := 2, greatest := 0x8F }
  else if octet < 0xF4 then .starts { bits := octet - 0xF0, more := 2 }
  else .invalid

/-- Read octets, the reader standing inside a character or not. -/
def decodeFrom : Option Pending → List Nat → List Char
  | none, [] => []
  | some _, [] => [replacement]
  | none, octet :: rest =>
    match lead octet with
    | .single c => c :: decodeFrom none rest
    | .starts pending => decodeFrom (some pending) rest
    | .invalid => replacement :: decodeFrom none rest
  | some p, octet :: rest =>
    if p.least ≤ octet ∧ octet ≤ p.greatest then
      let bits := p.bits * 0x40 + (octet - 0x80)
      match p.more with
      | 0 => Char.ofNat bits :: decodeFrom none rest
      | more + 1 => decodeFrom (some { bits, more }) rest
    else
      match lead octet with
      | .single c => replacement :: c :: decodeFrom none rest
      | .starts pending => replacement :: decodeFrom (some pending) rest
      | .invalid => replacement :: replacement :: decodeFrom none rest

/-- Read octets as UTF-8. -/
def decode (octets : List Nat) : List Char := decodeFrom none octets

/-- Needlessly long forms, halves of surrogate pairs and code points beyond the last one are read as
one replacement character for each octet, an unfinished character as a single one. -/
theorem decode_invalid :
    decode [0xC0, 0x80] = [replacement, replacement] ∧
      decode [0xED, 0xA0, 0x80] = [replacement, replacement, replacement] ∧
      decode [0xF4, 0x90, 0x80, 0x80] = [replacement, replacement, replacement, replacement] ∧
      decode [0xF0, 0x9F, 0x98] = [replacement] := by decide

end RewardLedger.Utf8
