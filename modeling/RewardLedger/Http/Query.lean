import RewardLedger.Text.Hex
import RewardLedger.Text.Utf8

/-!
# Query strings

A query string is a sequence of parameters between ampersands. A parameter is a name and, after the
first equals sign, a value; without the sign the value is empty. In both a plus sign stands for a
blank, and a percent sign with two hexadecimal digits for an octet of UTF-8. Of several parameters
of one name the last counts. Characters outside of ASCII should come with percent signs; those that
do not are taken for as many characters as they have octets.
-/

namespace RewardLedger.Http

/-- The parameters of a request, in the order in which they were given. -/
abbrev Query := List (String × String)

namespace Query

/-- What a text with percent signs consists of. -/
inductive Piece where
  /-- An octet. -/
  | octet (n : Nat)
  /-- A character that is no single octet. -/
  | char (c : Char)
  deriving DecidableEq, Repr

/-- The piece that a character is by itself. -/
def Piece.ofChar (c : Char) : Piece := if c.toNat < 0x80 then .octet c.toNat else .char c

/-- The pieces of a text. A percent sign without two hexadecimal digits stands for itself. -/
def pieces : List Char → List Piece
  | '%' :: a :: b :: rest =>
    match Text.hexValue? a, Text.hexValue? b with
    | some x, some y => .octet (16 * x + y) :: pieces rest
    | _, _ => .ofChar '%' :: pieces (a :: b :: rest)
  | c :: rest => .ofChar c :: pieces rest
  | [] => []

/-- The characters of pieces; `run` holds the octets since the last character, newest first. -/
def charsOf (run : List Nat) : List Piece → List Char
  | [] => Utf8.decode run.reverse
  | .octet n :: rest => charsOf (n :: run) rest
  | .char c :: rest => Utf8.decode run.reverse ++ c :: charsOf [] rest

/-- The text that a part of a query string stands for. -/
def decoded (cs : List Char) : String :=
  String.ofList (charsOf [] (pieces (cs.map fun c => if c = '+' then ' ' else c)))

/-- Read one parameter. -/
def parameter (cs : List Char) : String × String :=
  (decoded (cs.takeWhile (· != '=')), decoded ((cs.dropWhile (· != '=')).drop 1))

/-- The octets of a text, each as the character of that number. -/
def octetChars (cs : List Char) : List Char := (Utf8.encode cs).map Char.ofNat

/-- Read a query string. -/
def read (s : String) : Query :=
  (((octetChars s.toList).splitOn '&').filter fun cs => !cs.isEmpty).map parameter

/-- The value of a parameter. -/
def find? (q : Query) (name : String) : Option String := q.reverse.lookup name

/-- A query string without characters has no parameters. -/
theorem read_empty : read "" = [] := by decide

end Query

end RewardLedger.Http
